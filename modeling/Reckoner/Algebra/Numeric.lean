-- The numeric value of an expression without symbols, to a number of bits. A sum whose
-- terms cancel is computed again with more bits, until enough of them are sure.
import Reckoner.Algebra.Expr

namespace Reckoner

open scoped CoreArithmetic

/-! ## Outcomes -/

/-- A real or imaginary part: a number and the bits of it that are sure, or nothing for
a part that is exactly zero. -/
structure Part where
  value : Number
  accuracy : Int

/-- What the numeric evaluation of an expression comes to. -/
inductive Numeric where
  /-- A complex number. -/
  | value (re im : Option Part)
  /-- The infinity without a direction. -/
  | zoo
  /-- A function was applied to the infinity without a direction. -/
  | noValue
  /-- The expression has symbols. -/
  | symbolic

namespace Numeric

def ofBinary (b : Binary) (prec : Nat) : Option Part :=
  if b.man = 0 then none else some ⟨.approx b prec, prec⟩

def real (b : Binary) (prec : Nat) : Numeric := .value (ofBinary b prec) none

def imaginary (b : Binary) (prec : Nat) : Numeric := .value none (ofBinary b prec)

def nan (prec : Nat) : Numeric := .value (some ⟨.undefined, prec⟩) none

end Numeric

/-- The finite value of a part; zero for a part that is exactly zero. -/
def Part.finite? : Option Part → Option Binary
  | none => some .zero
  | some ⟨.approx b _, _⟩ => some b
  | some _ => none

/-! ## Sums and products of parts -/

/-- The last bit of a part that is not sure. -/
def Part.errorExponent (p : Part) : Int :=
  match p.value with
  | .approx b _ => b.magnitude - p.accuracy
  | _ => 0

/-- The sum of parts rounded to `prec` bits, with the bits of it that are sure. -/
def sumParts (prec : Nat) (parts : List Part) : Option Part :=
  match parts with
  | [] => none
  | [p] => some p
  | first :: _ =>
    let special := parts.filter fun p => !p.value.isFinite
    if !special.isEmpty then
      some ⟨special.foldl (fun acc p => acc.add p.value) (.exact 0), prec⟩
    else
      let total := parts.foldl (fun acc p => match p.value with
        | .approx b _ => acc.addWithin (2 * prec) b
        | _ => acc) Binary.zero
      let error := parts.foldl (fun acc p => max acc p.errorExponent) first.errorExponent
      if total.man = 0 then some ⟨.approx ⟨1, error⟩ prec, -1⟩
      else some ⟨.approx (total.round .nearest prec) prec, total.magnitude - error⟩

/-- The sure bits of a complex value, counted from its larger part. -/
def complexAccuracy (re im : Option Part) (prec : Nat) : Int :=
  match re, im with
  | none, none => prec
  | some p, none | none, some p => p.accuracy
  | some p, some q =>
    let size := fun (p : Part) => match p.value with
      | .approx b _ => b.magnitude
      | _ => 0
    let error := max (size p - p.accuracy) (size q - q.accuracy)
    max (size p) (size q) - error

/-- A complex number with finite parts. -/
abbrev BinaryPair := Binary × Binary

def BinaryPair.mul (prec : Nat) (a b : BinaryPair) : BinaryPair :=
  ((Binary.sub (a.1.mul b.1) (a.2.mul b.2)).round .nearest prec,
   (Binary.add (a.1.mul b.2) (a.2.mul b.1)).round .nearest prec)

def BinaryPair.inverse (prec : Nat) (a : BinaryPair) : BinaryPair :=
  let d := Binary.add (a.1.mul a.1) (a.2.mul a.2)
  (Binary.div .nearest prec a.1 d, Binary.div .nearest prec a.2.neg d)

def BinaryPair.powNat (prec : Nat) (a : BinaryPair) : Nat → BinaryPair
  | 0 => (.ofInt 1, .zero)
  | n + 1 => BinaryPair.mul prec (BinaryPair.powNat prec a n) a

/-- The exponential of a complex number. -/
def BinaryPair.exp (prec : Nat) (a : BinaryPair) : BinaryPair :=
  let size := Binary.exponential .nearest (prec + 20) a.1
  let (s, c) := Binary.sinCos .nearest (prec + 20) a.2
  ((size.mul c).round .towardZero prec, (size.mul s).round .towardZero prec)

/-- The logarithm of a complex number other than zero. -/
def BinaryPair.log (prec : Nat) (a : BinaryPair) : BinaryPair :=
  let square := Binary.add (a.1.mul a.1) (a.2.mul a.2)
  ((Binary.ln .nearest prec square).scale (-1), Binary.angle .nearest prec a.2 a.1)

/-- A power of a complex number other than zero. -/
def BinaryPair.pow (prec : Nat) (a x : BinaryPair) : BinaryPair :=
  let wp := prec + 40
  BinaryPair.exp prec (BinaryPair.mul wp (BinaryPair.log wp a) x)

/-- The principal square root of a complex number. -/
def BinaryPair.sqrt (prec : Nat) (a : BinaryPair) : BinaryPair :=
  let wp := prec + 40
  let size := Binary.sqrt .nearest wp (Binary.add (a.1.mul a.1) (a.2.mul a.2))
  let re := Binary.sqrt .nearest wp ((size.add a.1).scale (-1))
  let im := Binary.sqrt .nearest wp ((size.sub a.1).scale (-1))
  (re.round .towardZero prec,
    (if a.2.man < 0 then im.neg else im).round .towardZero prec)

/-- A complex value whose smaller part has lost the bits that the larger one has more. -/
def Numeric.ofPair (prec : Nat) (a : BinaryPair) : Numeric :=
  let gap := if a.1.man = 0 || a.2.man = 0 then 0 else a.1.magnitude - a.2.magnitude
  let part := fun (b : Binary) (loss : Int) =>
    if b.man = 0 then none else some (Part.mk (.approx b prec) (prec - loss))
  .value (part a.1 (max 0 (-gap))) (part a.2 (max 0 gap))

/-! ## Functions -/

/-- The functions of a complex number, from the exponential. -/
def complexFn (prec : Nat) (f : Fn) (a : BinaryPair) : Option BinaryPair :=
  let wp := prec + 40
  let round := fun (z : BinaryPair) => (z.1.round .nearest prec, z.2.round .nearest prec)
  let turn : BinaryPair := (a.2.neg, a.1)
  let up := BinaryPair.exp wp turn
  let down := BinaryPair.exp wp (a.2, a.1.neg)
  let realUp := BinaryPair.exp wp a
  let realDown := BinaryPair.exp wp (a.1.neg, a.2.neg)
  let sum := fun (z w : BinaryPair) => ((z.1.add w.1).scale (-1), (z.2.add w.2).scale (-1))
  let diff := fun (z w : BinaryPair) => ((z.1.sub w.1).scale (-1), (z.2.sub w.2).scale (-1))
  let cosine := sum up down
  -- (e^{ia} - e^{-ia}) / 2i
  let sine : BinaryPair := let d := diff up down; (d.2, d.1.neg)
  let cosh := sum realUp realDown
  let sinh := diff realUp realDown
  let quotient := fun (z w : BinaryPair) =>
    if w.1.man = 0 && w.2.man = 0 then none
    else some (round (BinaryPair.mul wp z (BinaryPair.inverse wp w)))
  match f with
  | .sin => some (round sine)
  | .cos => some (round cosine)
  | .tan => quotient sine cosine
  | .cot => quotient cosine sine
  | .sec => quotient (.ofInt 1, .zero) cosine
  | .csc => quotient (.ofInt 1, .zero) sine
  | .sinh => some (round sinh)
  | .cosh => some (round cosh)
  | .tanh => quotient sinh cosh
  | .coth => quotient cosh sinh
  | .sech => quotient (.ofInt 1, .zero) cosh
  | .csch => quotient (.ofInt 1, .zero) sinh
  | .exp => some (round realUp)
  | .log | .floor | .floorSlope => none

/-- Sine, cosine and tangent of a real number other than zero. -/
def realWave (prec : Nat) (f : Fn) (x : Binary) : Binary :=
  let (s, c) := Binary.sinCos .nearest (prec + 30) x
  match f with
  | .sin => s.round .nearest prec
  | .cos => c.round .nearest prec
  | _ => if c.man = 0 then .zero else Binary.div .nearest prec s c

/-! ## Evaluation -/

/-- The largest number of bits that a cancelling sum is computed with. -/
def maxBits : Nat := 333

/-- Evaluates a sum with `extra` bits more until its sure bits are enough. -/
def sumNumeric (eval : Nat → Expr → Numeric) (terms : List Expr) (target : Nat) :
    Nat → Nat → Nat → Numeric
  | 0, _, _ => .symbolic
  | fuel + 1, prec, round =>
    let values := terms.map (eval (prec + 10))
    if values.any fun | .symbolic => true | _ => false then .symbolic
    else if values.any fun | .noValue => true | _ => false then .noValue
    else
      let infinities := values.countP fun | .zoo => true | _ => false
      let re := sumParts target (values.filterMap fun | .value r _ => r | _ => none)
      let im := sumParts target (values.filterMap fun | .value _ i => i | _ => none)
      if 2 ≤ infinities then .nan prec
      else if infinities = 1 then
        let odd := fun (p : Option Part) => match p with
          | some p => !p.value.isFinite
          | none => false
        if odd re || odd im then .nan prec else .zoo
      else
        let sure := complexAccuracy re im target
        if (target : Int) ≤ sure || maxBits < prec - target then .value re im
        else
          let more := max (10 + 2 ^ round) ((target : Int) - sure).toNat
          sumNumeric eval terms target fuel (prec + more) (round + 1)

/-- Multiplies the values of factors: real and imaginary ones exactly, and the complex
ones after them. -/
def prodNumeric (prec : Nat) (values : List Numeric) : Numeric :=
  if values.any fun | .symbolic => true | _ => false then .symbolic
  else if values.any fun | .noValue => true | _ => false then .noValue
  else
    let isZoo := fun (v : Numeric) => match v with | .zoo => true | _ => false
    let odd := values.filterMap fun v => match v with
      | .value (some p) _ => if p.value.isFinite then none else some p.value
      | _ => none
    let hasZero := values.any fun v => match v with
      | .value none none => true
      | _ => false
    if values.any isZoo || !odd.isEmpty then
      if hasZero || odd.any (· == .undefined) then .nan prec
      else if values.any isZoo then .zoo
      else .value (some ⟨odd.foldl Number.mul (.exact 1), prec⟩) none
    else if hasZero then .value none none
    else
      let pair := values.foldl (fun (acc : BinaryPair × Nat × BinaryPair) v =>
        match v with
        | .value re im =>
          match Part.finite? re, Part.finite? im with
          | some x, some y =>
            if y.man = 0 then ((acc.1.1.mul x, .zero), acc.2)
            else if x.man = 0 then ((acc.1.1.mul y, .zero), acc.2.1 + 1, acc.2.2)
            else (acc.1, acc.2.1, BinaryPair.mul (prec + 40) acc.2.2 (x, y))
          | _, _ => acc
        | _ => acc) ((.ofInt 1, .zero), 0, (.ofInt 1, .zero))
      let size := pair.1.1
      let turns := pair.2.1 % 4
      let rest := pair.2.2
      let z : BinaryPair := ((size.mul rest.1), (size.mul rest.2))
      let z : BinaryPair := match turns with
        | 0 => z
        | 1 => (z.2.neg, z.1)
        | 2 => (z.1.neg, z.2.neg)
        | _ => (z.2, z.1.neg)
      .ofPair prec (z.1.round .nearest prec, z.2.round .nearest prec)

/-- A whole power of a value. -/
def powIntNumeric (prec : Nat) (n : Int) : Numeric → Numeric
  | .zoo => if n < 0 then .value none none else .zoo
  | .value none none => if n < 0 then .zoo else .value none none
  | .value re im =>
    match Part.finite? re, Part.finite? im with
    | some x, some y =>
      let real := fun (x : Binary) => Binary.powInt .towardZero prec x n
      if y.man = 0 then .real (real x) prec
      else if x.man = 0 then
        let v := real y
        match (n % 4).toNat with
        | 0 => .real v prec
        | 1 => .imaginary v prec
        | 2 => .real v.neg prec
        | _ => .imaginary v.neg prec
      else
        let p := BinaryPair.powNat (prec + 40) (x, y) n.natAbs
        let p := if n < 0 then BinaryPair.inverse (prec + 40) p else p
        .ofPair prec (p.1.round .towardZero prec, p.2.round .towardZero prec)
    | _, _ =>
      match re, im with
      | some p, none =>
        let v := (List.replicate n.natAbs p.value).foldl Number.mul (.exact 1)
        if n < 0 then
          match v with
          | .infinite _ => .value none none
          | _ => .nan prec
        else .value (some ⟨v, prec⟩) none
      | _, _ => .nan prec
  | v => v

/-- A power with an exponent that is not a whole number, from the values of base and
exponent. -/
def powNumeric (prec : Nat) (isHalf : Bool) (base exponent : Numeric) : Numeric :=
  match base, exponent with
  | .symbolic, _ | _, .symbolic => .symbolic
  | .noValue, _ | _, .noValue => .noValue
  | _, .zoo => .nan prec
  | .zoo, .value (some p) none => if p.value.isNegative then .value none none else .zoo
  | .zoo, _ => .symbolic
  | .value br bi, .value er ei =>
    match Part.finite? br, Part.finite? bi, Part.finite? er, Part.finite? ei with
    | some x, some y, some u, some v =>
      if u.man = 0 && v.man = 0 then .real (.ofInt 1) prec
      else if x.man = 0 && y.man = 0 then
        if v.man ≠ 0 then .nan prec else if u.man < 0 then .zoo else .value none none
      else if isHalf then
        if y.man ≠ 0 then .ofPair prec (BinaryPair.sqrt prec (x, y))
        else if x.man < 0 then .imaginary (Binary.sqrt .towardZero prec x.neg) prec
        else .real (Binary.sqrt .towardZero prec x) prec
      else if v.man = 0 && y.man = 0 && 0 < x.man then
        .real (Binary.power .towardZero prec x u) prec
      else .ofPair prec (BinaryPair.pow prec (x, y) (u, v))
    | _, _, _, _ => .nan prec

/-- The natural logarithm of a value. -/
def logNumeric (prec : Nat) : Numeric → Numeric
  | .value none none => .value (some ⟨.infinite true, prec⟩) none
  | .value re im =>
    match Part.finite? re, Part.finite? im with
    | some x, some y =>
      if y.man = 0 then
        let r := Numeric.ofBinary (Binary.ln .nearest prec x.abs) prec
        if x.man < 0 then .value r (Numeric.ofBinary (Binary.pi .towardZero prec) prec)
        else .value r none
      else
        let z := BinaryPair.log (prec + 40) (x, y)
        .value (Numeric.ofBinary (z.1.round .nearest prec) prec)
          (Numeric.ofBinary (z.2.round .towardZero prec) prec)
    | _, _ =>
      match re with
      | some ⟨.infinite _, _⟩ => .value (some ⟨.infinite false, prec⟩) none
      | _ => .nan prec
  | v => v

/-- The whole part of a value. -/
def floorNumeric (prec : Nat) : Numeric → Numeric
  | .value re im =>
    match Part.finite? re, Part.finite? im with
    | some x, some y =>
      .value (Numeric.ofBinary (.ofInt x.floor) prec) (Numeric.ofBinary (.ofInt y.floor) prec)
    | _, _ => .nan prec
  | v => v

/-- A function other than the logarithm, the whole part and the exponential. -/
def fnNumeric (prec : Nat) (f : Fn) : Numeric → Numeric
  | .zoo | .noValue => .noValue
  | .symbolic => .symbolic
  | .value re im =>
    match Part.finite? re, Part.finite? im with
    | some x, some y =>
      let wave := f == .sin || f == .cos || f == .tan
      if y.man = 0 && wave then
        if x.man = 0 then
          if f == .cos then .real (.ofInt 1) prec else .value none none
        else .real (realWave prec f x) prec
      else
        match complexFn prec f (x, y) with
        | some z =>
          if y.man = 0 then .real z.1 prec else .ofPair prec z
        | none => .zoo
    | _, _ => .nan prec

/-- The value of an expression to `prec` bits. -/
def Expr.numeric : Nat → Nat → Expr → Numeric
  | 0, _, _ => .symbolic
  | fuel + 1, prec, x =>
    match x with
    | .num (.exact q) => .real (Binary.ofRat .towardZero prec q) prec
    | .num (.approx b _) => .real b prec
    | .num n => .value (some ⟨n, prec⟩) none
    | .const .zoo => .zoo
    | .const .i => .imaginary (.ofInt 1) prec
    | .const .pi => .real (Binary.pi .towardZero prec) prec
    | .const .e => .real (Binary.exponential .towardZero prec (.ofInt 1)) prec
    | .sym _ => .symbolic
    | .sum l => sumNumeric (Expr.numeric fuel) l prec 40 prec 0
    | .prod l => prodNumeric prec (l.map (Expr.numeric fuel (prec + l.length + 5)))
    | .pow b x =>
      match x.int? with
      | some n =>
        if n = 0 then .real (.ofInt 1) prec
        else powIntNumeric prec n
          (Expr.numeric fuel (prec + (bitLength n.natAbs - 1) + 5) b)
      | none =>
        let exponent := Expr.numeric fuel (prec + 10) x
        -- a large exponent is known to as many bits more as it is large
        let size := match exponent with
          | .value (some p) _ => match p.value with
            | .approx b _ => b.magnitude.toNat
            | _ => 0
          | _ => 0
        let exponent := if 5 < size then Expr.numeric fuel (prec + 10 + size) x else exponent
        powNumeric prec (x.same .half) (Expr.numeric fuel (prec + 15 + size) b) exponent
    | .app .exp a =>
      let exponent := Expr.numeric fuel (prec + 10) a
      match exponent with
      | .value re im =>
        let size := match re with
          | some ⟨.approx b _, _⟩ => b.magnitude.toNat
          | _ => 0
        let again := if 5 < size then Expr.numeric fuel (prec + 10 + size) a else .value re im
        match again with
        | .value re im =>
          match Part.finite? re, Part.finite? im with
          | some u, some v =>
            if v.man = 0 then .real (Binary.exponential .towardZero prec u) prec
            else .ofPair prec (BinaryPair.exp prec (u, v))
          | _, _ =>
            match re with
            | some ⟨.infinite true, _⟩ => .value none none
            | some ⟨.infinite false, _⟩ => .value (some ⟨.infinite false, prec⟩) none
            | _ => .nan prec
        | v => v
      | .zoo => .nan prec
      | v => v
    | .app .log a => logNumeric prec (Expr.numeric fuel (prec + 10) a)
    | .app .floor a => floorNumeric prec (Expr.numeric fuel (prec + 100) a)
    | .app f a =>
      let arg := Expr.numeric fuel (prec + 20) a
      let size := match arg with
        | .value (some p) none => match p.value with
          | .approx b _ => b.magnitude.toNat
          | _ => 0
        | _ => 0
      fnNumeric prec f (if 9 < size then Expr.numeric fuel (prec + size + 20) a else arg)

/-- The value of an expression to `prec` bits. The steps of the evaluation go no deeper
than the expression. -/
def Expr.toNumeric (prec : Nat) (x : Expr) : Numeric := x.numeric (x.size + 1) prec

/-! ## Sign -/

/-- A value so small that its sign is not sure. -/
def Part.isTiny (p : Part) : Bool :=
  match p.value with
  | .approx b _ => p.accuracy < 4 || b.magnitude < -300
  | _ => false

/-- The sign of a real expression without symbols. -/
def Expr.signClosed? (x : Expr) : Option Int :=
  match x with
  | .num n => n.sign?
  | _ =>
    if !x.isClosed then none
    else
      match x.toNumeric 64 with
      | .value none none => some 0
      | .value (some p) none => if p.isTiny then none else p.value.sign?
      | _ => none

def Expr.isPositive (x : Expr) : Bool := x.signClosed? == some 1

def Expr.isNegative (x : Expr) : Bool := x.signClosed? == some (-1)

def Expr.isNonnegative (x : Expr) : Bool :=
  match x.signClosed? with
  | some s => 0 ≤ s
  | none => false

/-- Whether the expression is known to be zero or known not to be. -/
def Expr.isZero? (x : Expr) : Option Bool :=
  match x with
  | .num n => if n = .undefined then none else some n.isZero
  | .const _ => some false
  | _ =>
    if !x.isClosed then none
    else
      match x.toNumeric 64 with
      | .value none none => some true
      | .value re im =>
        let clear := fun (p : Option Part) => match p with
          | some p => !p.isTiny && p.value.isFinite
          | none => false
        if clear re || clear im then some false else none
      | .zoo => some false
      | _ => none

/-- Whether an expression without symbols is a real number, where that is known. -/
def Expr.isReal? (x : Expr) : Option Bool :=
  match x with
  | .num n => if n = .undefined then none else some true
  | .const .pi | .const .e => some true
  | .const .i | .const .zoo => some false
  | _ =>
    if !x.isClosed then none
    else
      match x.toNumeric 64 with
      | .value _ none => some true
      | .value _ (some p) => if p.isTiny then none else some false
      | .zoo => some false
      | _ => none

/-- Whether an expression without symbols is a real multiple of the imaginary unit. -/
def Expr.isImaginary (x : Expr) : Bool :=
  match x with
  | .num _ => false
  | .const c => c = .i
  | _ =>
    x.isClosed &&
      match x.toNumeric 64 with
      | .value none (some p) => !p.isTiny
      | _ => false

end Reckoner
