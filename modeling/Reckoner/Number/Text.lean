-- How the numbers of the algebra are written: whole numbers and fractions exactly, and
-- measured numbers in decimal, to as many digits as their bits hold.
import Reckoner.Number.Number

namespace Reckoner

open scoped CoreArithmetic

/-! ## Decimal digits of a rational number -/

/-- The decimal digits of a natural number. -/
def natText (n : Nat) : String := toString n

/-- The digits of a whole number, after a minus sign if it is negative. -/
def intText (n : Int) : String := if n < 0 then "-" ++ natText n.natAbs else natText n.natAbs

/-- The exponent of the leading decimal digit of a positive `p / q`. -/
def leadingExponent (p q : Nat) : Int :=
  let guess : Int := (natText p).length - (natText q).length
  let reaches := if 0 ≤ guess then q * 10 ^ guess.toNat ≤ p else q ≤ p * 10 ^ (-guess).toNat
  if reaches then guess else guess - 1

/-- The whole part of `p / q * 10 ^ k`. -/
def scaledFloor (p q : Nat) (k : Int) : Nat :=
  if 0 ≤ k then p * 10 ^ k.toNat / q else p / (q * 10 ^ (-k).toNat)

/-- The first `count` decimal digits of a positive `p / q` as a number, and the exponent of
the first one. The digit after them rounds the last one up from five on. -/
def leadingDigits (count p q : Nat) : Nat × Int :=
  let top := leadingExponent p q
  let more := scaledFloor p q (count - top)
  let digits := if 5 ≤ more % 10 then more / 10 + 1 else more / 10
  if digits = 10 ^ count then (10 ^ (count - 1), top + 1) else (digits, top)

/-! ## Decimal notation -/

/-- The decimal digits that so many bits hold. -/
def decimalPlaces (bits : Nat) : Nat :=
  -- the nearest whole number to bits / log2 10, less one
  max 1 ((bits * 100000000 + 166096405) / 332192809 - 1)

/-- The text without the zeros that end it. -/
def dropLastZeros (s : List Char) : List Char := (s.reverse.dropWhile (· == '0')).reverse

/-- A measured number in decimal. Close to one it stands without an exponent; `short` drops
the zeros that end it. -/
def measuredText (short : Bool) (value : Binary) (prec : Nat) : String :=
  if value.man = 0 then "0.0"
  else
    let places := decimalPlaces prec
    let q := value.toRat
    let (digits, exponent) := leadingDigits places q.num.natAbs q.den
    let text := (natText digits).toList
    let least : Int := min (-((places / 3 : Nat) : Int)) (-5)
    let positional := least < exponent && exponent < places
    let (front, back) :=
      if positional then
        if exponent < 0 then (['0'], List.replicate ((-exponent).toNat - 1) '0' ++ text)
        else (text.take (exponent.toNat + 1), text.drop (exponent.toNat + 1))
      else (text.take 1, text.drop 1)
    let back := if short then dropLastZeros back else back
    let back := if short && back.isEmpty then ['0'] else back
    let power :=
      if positional then ""
      else if exponent < 0 then "e" ++ intText exponent
      else "e+" ++ intText exponent
    (if value.man < 0 then "-" else "") ++ String.ofList front ++ "." ++ String.ofList back ++ power

/-- A measured number by itself in a line of text. It has an exponent only where its digits do
not reach the point, or where more than five zeros would follow the point. -/
def measuredLineText (value : Binary) (prec : Nat) : String :=
  if value.man = 0 then "0.0"
  else
    let places := decimalPlaces prec
    let q := value.toRat
    let (digits, exponent) := leadingDigits places q.num.natAbs q.den
    let text := (natText digits).toList
    let joined := fun (front back : List Char) =>
      String.ofList front ++ if back.isEmpty then "" else "." ++ String.ofList back
    let body :=
      if exponent < places && -6 ≤ exponent then
        if exponent < 0 then joined ['0'] (List.replicate ((-exponent).toNat - 1) '0' ++ text)
        else joined (text.take (exponent.toNat + 1)) (text.drop (exponent.toNat + 1))
      else
        joined (text.take 1) (text.drop 1) ++ "E" ++ (if exponent < 0 then "" else "+") ++
          intText exponent
    (if value.man < 0 then "-" else "") ++ body

/-- A number; `short` drops the zeros that end a measured one. -/
def Number.text (short : Bool) : Number → String
  | .exact q => if q.den = 1 then intText q.num else intText q.num ++ "/" ++ natText q.den
  | .approx b prec => measuredText short b prec
  | .infinite negative => if negative then "-oo" else "oo"
  | .undefined => "nan"

end Reckoner
