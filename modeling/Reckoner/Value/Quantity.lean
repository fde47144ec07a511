-- The numbers of questions and answers: whole numbers, which are exact, and measured ones,
-- which are doubles. An operation with a measured number in it is measured.
import Reckoner.Value.Fault
import Reckoner.Decimal.Double

namespace Reckoner

open scoped CoreArithmetic

/-! ## The type -/

/-- A whole number or a double. -/
inductive Quantity where
  | whole (n : Int)
  | measure (x : Float)

namespace Quantity

/-- The double closest to a quantity. -/
def toFloat : Quantity → Except ValueFault Float
  | whole n => match Double.ofInt? n with
    | some x => .ok x
    | none => .error .pastDoubles
  | measure x => .ok x

/-- The order of two quantities by their exact values; an undefined one has none. -/
def compare? : Quantity → Quantity → Option Ordering
  | whole m, whole n => some (compare m n)
  | measure x, measure y => if x < y then some .lt else if x > y then some .gt else if x == y then some .eq else none
  | whole m, measure y => versus m y
  | measure x, whole n => (versus n x).map Ordering.swap
where
  /-- The order of a whole number and a double. -/
  versus (n : Int) (x : Float) : Option Ordering :=
    match Double.toRat? x with
    | some q => some (if (n : Rat) < q then .lt else if q < (n : Rat) then .gt else .eq)
    | none => if x.isNaN then none else some (if x < 0 then .gt else .lt)

def equal (a b : Quantity) : Bool := a.compare? b == some .eq

def less (a b : Quantity) : Bool := a.compare? b == some .lt

def lessEqual (a b : Quantity) : Bool := a.less b || a.equal b

def isZero (a : Quantity) : Bool := a.equal (.whole 0)

/-! ## Arithmetic -/

/-- An operation with a rule for whole numbers and one for doubles. -/
def combine (exact : Int → Int → Except ValueFault Quantity)
    (measured : Float → Float → Except ValueFault Quantity) :
    Quantity → Quantity → Except ValueFault Quantity
  | whole m, whole n => exact m n
  | a, b => do measured (← a.toFloat) (← b.toFloat)

def add : Quantity → Quantity → Except ValueFault Quantity :=
  combine (fun m n => .ok (whole (m + n))) (fun x y => .ok (measure (x + y)))

def sub : Quantity → Quantity → Except ValueFault Quantity :=
  combine (fun m n => .ok (whole (m - n))) (fun x y => .ok (measure (x - y)))

def mul : Quantity → Quantity → Except ValueFault Quantity :=
  combine (fun m n => .ok (whole (m * n))) (fun x y => .ok (measure (x * y)))

/-- The quotient, which is always measured. -/
def div : Quantity → Quantity → Except ValueFault Quantity :=
  combine
    (fun m n =>
      if n = 0 then .error .divisionByZero
      else match Double.ofQuotient? m n with
        | some x => .ok (measure x)
        | none => .error .quotientPastDoubles)
    (fun x y => if y == 0 then .error .measuredDivisionByZero else .ok (measure (x / y)))

/-- The whole quotient toward negative infinity. -/
def wholeQuotient : Quantity → Quantity → Except ValueFault Quantity :=
  combine
    (fun m n => if n = 0 then .error .wholeQuotientByZero else .ok (whole (Int.fdiv m n)))
    (fun x y =>
      if y == 0 then .error .measuredQuotientByZero
      else .ok (measure (Double.floorDivide x y).1))

/-- What the whole quotient leaves; it has the sign of the divisor. -/
def remainder : Quantity → Quantity → Except ValueFault Quantity :=
  combine
    (fun m n => if n = 0 then .error .remainderByZero else .ok (whole (Int.fmod m n)))
    (fun x y =>
      if y == 0 then .error .measuredRemainderByZero
      else .ok (measure (Double.floorDivide x y).2))

def neg : Quantity → Quantity
  | whole n => whole (-n)
  | measure x => measure (-x)

def abs : Quantity → Quantity
  | whole n => whole n.natAbs
  | measure x => measure x.abs

/-! ## Texts and rounding -/

/-- The digits of a whole number, of which there are not too many. -/
def wholeText (n : Int) : Except ValueFault String :=
  if n.natAbs < 10 ^ maxDigits then .ok (intText n) else .error .tooLongToWrite

/-- The text that names the quantity. -/
def text : Quantity → Except ValueFault String
  | whole n => wholeText n
  | measure x => .ok (Double.text x)

/-- The quantity to a number of decimal places. -/
def fixed (places : Nat) (a : Quantity) : Except ValueFault String := do
  return Double.fixed places (← a.toFloat)

/-- The quantity rounded to a number of decimal places; a whole one stays. -/
def roundTo (places : Nat) : Quantity → Quantity
  | whole n => whole n
  | measure x => measure (Double.roundTo places x)

/-- The part before the point. -/
def toInt : Quantity → Except ValueFault Int
  | whole n => .ok n
  | measure x => match Double.toInt? x with
    | some n => .ok n
    | none => .error (if x.isNaN then .undefinedHasNoWhole else .infiniteHasNoWhole)

def isFinite : Quantity → Bool
  | whole _ => true
  | measure x => x.isFinite

end Quantity

end Reckoner
