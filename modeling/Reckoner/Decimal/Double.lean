-- Doubles in decimal: how they are written in full, to a set number of places and to a set
-- number of digits, and how they are rounded and read.
import Reckoner.Decimal.Rounded
import Reckoner.Decimal.Shortest

namespace Reckoner

open scoped CoreArithmetic

namespace Double

/-! ## Parts -/

def isNegative (x : Float) : Bool := decide (2 ^ (63 : Nat) ≤ x.toBits.toNat) && !x.isNaN

def isZero (x : Float) : Bool := x == 0

/-- The value of a finite double as a quotient, without its sign. -/
def quotient (x : Float) : Nat × Nat := (DoubleParts.ofBits x.toBits.toNat).quotient

/-- The text of a double that is not finite. -/
def special? (x : Float) : Option String :=
  if x.isNaN then some "nan"
  else if x.isInf then some (if x < 0 then "-inf" else "inf")
  else none

def signText (x : Float) : String := if isNegative x then "-" else ""

/-- An exponent with its sign and at least two digits. -/
def exponentText (e : Int) : String :=
  let digits := natText e.natAbs
  (if e < 0 then "-" else "+") ++ (if digits.length < 2 then "0" ++ digits else digits)

/-! ## Texts -/

/-- The shortest text that names the double. It is written without an exponent when the first
digit stands between the fourth place and the sixteenth digit. -/
def text (x : Float) : String :=
  match special? x with
  | some t => t
  | none =>
    if isZero x then signText x ++ "0.0"
    else
      let (n, place) := (DoubleParts.ofBits x.toBits.toNat).shortest
      let digits := (natText n).toList
      let top := place + digits.length - 1
      signText x ++
        if -4 ≤ top && top < 16 then
          if 0 ≤ place then natText (n * 10 ^ place.toNat) ++ ".0"
          else placesText (-place).toNat n
        else
          let front := String.ofList (digits.take 1)
          let back := String.ofList (digits.drop 1)
          (if back.isEmpty then front else front ++ "." ++ back) ++ "e" ++ exponentText top

/-- The double to a number of places. -/
def fixed (places : Nat) (x : Float) : String :=
  match special? x with
  | some t => t
  | none =>
    let (p, q) := quotient x
    signText x ++ placesText places (roundScaled p q places)

/-- The double to a number of digits, without the zeros that end it. -/
def general (count : Nat) (x : Float) : String :=
  match special? x with
  | some t => t
  | none =>
    if isZero x then signText x ++ "0"
    else
      let (p, q) := quotient x
      let (n, top) := significant count p q
      let (n, place) := dropZeros count n (top - count + 1)
      let digits := (natText n).toList
      signText x ++
        if -4 ≤ top && top < count then
          if 0 ≤ place then natText (n * 10 ^ place.toNat)
          else placesText (-place).toNat n
        else
          let front := String.ofList (digits.take 1)
          let back := String.ofList (digits.drop 1)
          (if back.isEmpty then front else front ++ "." ++ back) ++ "e" ++ exponentText top

/-! ## Reading and rounding -/

/-- The double closest to `n * 10 ^ place`. -/
def ofDecimal (n : Nat) (place : Int) : Float :=
  if n = 0 then 0
  else if 400 < place + (natText n).length then 1 / 0
  else Float.ofScientific n (decide (place < 0)) place.natAbs

def withSignOf (x y : Float) : Float := if isNegative x then -y else y

/-- The double rounded to a number of places. -/
def roundTo (places : Nat) (x : Float) : Float :=
  if x.isNaN || x.isInf || isZero x then x
  else
    let (p, q) := quotient x
    withSignOf x (ofDecimal (roundScaled p q places) (-(places : Int)))

/-- The double rounded to a number of digits. -/
def roundDigits (count : Nat) (x : Float) : Float :=
  if x.isNaN || x.isInf || isZero x then x
  else
    let (p, q) := quotient x
    let (n, top) := significant count p q
    withSignOf x (ofDecimal n (top - count + 1))

/-- The digits at the start of a text, their number and what follows them. -/
def digitRun : List Char → Nat × Nat × List Char
  | [] => (0, 0, [])
  | c :: rest =>
    if c.isDigit then
      let run := rest.takeWhile Char.isDigit
      ((c :: run).foldl (fun n d => 10 * n + (d.toNat - '0'.toNat)) 0, run.length + 1,
        rest.dropWhile Char.isDigit)
    else (0, 0, c :: rest)

/-- The exponent that ends a decimal. -/
def exponentPart? : List Char → Option Int
  | [] => some 0
  | e :: rest =>
    if e = 'e' || e = 'E' then
      let (negative, rest) := match rest with
        | '-' :: r => (true, r)
        | '+' :: r => (false, r)
        | r => (false, r)
      match digitRun rest with
      | (n, k, []) => if k = 0 then none else some (if negative then -(n : Int) else n)
      | _ => none
    else none

/-- The double that an unsigned text names. -/
def readUnsigned? (s : List Char) : Option Float :=
  if s = "inf".toList || s = "infinity".toList then some (1 / 0)
  else if s = "nan".toList then some (0 / 0)
  else
    let (whole, k, rest) := digitRun s
    let (n, places, k, rest) := match rest with
      | '.' :: r =>
        let (part, m, r) := digitRun r
        (whole * 10 ^ m + part, m, k + m, r)
      | r => (whole, 0, k, r)
    if k = 0 then none
    else (exponentPart? rest).map fun e => ofDecimal n (e - places)

/-- The double that a text names. -/
def read? (s : String) : Option Float :=
  match s.toList with
  | '-' :: r => (readUnsigned? r).map fun x => -x
  | '+' :: r => readUnsigned? r
  | r => readUnsigned? r

/-! ## Whole numbers and remainders -/

/-- The double closest to a whole number; nothing when it lies past the largest one. -/
def ofInt? (n : Int) : Option Float :=
  let x := (Binary.ofInt n).toFloat
  if x.isInf then none else some x

/-- The double closest to `p / q`; nothing when it lies past the largest one. -/
def ofQuotient? (p q : Int) : Option Float :=
  let n := p.natAbs
  let d := q.natAbs
  let shift := 70 + bitLength d - bitLength n
  let scaled := n <<< shift
  let rest := if scaled % d = 0 then 0 else 1
  let negative := decide (p < 0) != decide (q < 0)
  let x := (Binary.mk (withSign negative (2 * (scaled / d) + rest)) (-(shift : Int) - 1)).toFloat
  if x.isInf then none else some x

/-- The value of a finite double. -/
def toRat? (x : Float) : Option Rat := (Binary.ofFloat? x).map Binary.toRat

/-- What division by a finite double other than zero leaves, with the sign of the
dividend. -/
def remainder (x y : Float) : Float :=
  match Binary.ofFloat? x, Binary.ofFloat? y with
  | some a, some b =>
    let e := min a.exp b.exp
    let m := a.man.natAbs * 2 ^ (a.exp - e).toNat
    let n := b.man.natAbs * 2 ^ (b.exp - e).toNat
    withSignOf x (Binary.mk ((m % n : Nat) : Int) e).toFloat
  | some _, none => if y.isNaN then y else x
  | none, _ => 0 / 0

/-- The whole quotient toward negative infinity, and the remainder with the sign of the
divisor. -/
def floorDivide (x y : Float) : Float × Float :=
  let r := remainder x y
  let q := (x - r) / y
  let (q, r) :=
    if r == 0 then (q, withSignOf y 0)
    else if (y < 0) != (r < 0) then (q - 1, r + y)
    else (q, r)
  if q == 0 then (withSignOf (x / y) 0, r)
  else
    let whole := q.floor
    (if q - whole > 0.5 then whole + 1 else whole, r)

/-- The whole part of a finite double. -/
def toInt? (x : Float) : Option Int :=
  (Binary.ofFloat? x).map fun b =>
    if 0 ≤ b.exp then b.man * 2 ^ b.exp.toNat else Int.tdiv b.man (2 ^ (-b.exp).toNat)

def isWhole (x : Float) : Bool :=
  match Binary.ofFloat? x with
  | some b => b.man = 0 || 0 ≤ b.exp
  | none => false

end Double

end Reckoner
