-- Slopes by central differences, and differential equations in steps of one length.
import Reckoner.Numerical.Roots

namespace Reckoner

open scoped CoreArithmetic

/-- A function of two numbers, which may have no value at some arguments. -/
abbrev SlopeField := Value → Value → Except ValueFault Value

namespace Numerical

/-! ## Central differences -/

/-- The slope of a function at a point, from its values on both sides. -/
def centralDifference (f : RealFunction) (x h : Value) : Except ValueFault Solution := do
  let after ← x.add h
  let before ← x.sub h
  let rise ← (← f after).sub (← f before)
  let slope ← rise.div (← Value.mul (2 : Int) h)
  return {
    method := "central_difference"
    answer := slope
    steps := [
      ← Value.line ["f'(", x, ") ≈ [f(", after, ") - f(", before, ")] / (2h)"],
      ← Value.line ["f'(", x, ") ≈ ", ← slope.fixed 6]]
    details := [("derivative", slope), ("point", x), ("step_size", h)] }

/-! ## Steps along a slope field -/

/-- The steps that get a line. -/
def tracedSteps : Nat := 10

/-- Whether two doubles are close: to one part in a thousand million of the larger one, or to
a millionth of a millionth. -/
def isClose (x y : Float) : Bool :=
  if x == y then true
  else if x.isInf || y.isInf then false
  else
    let gap := (y - x).abs
    gap ≤ (1e-9 * y).abs || gap ≤ (1e-9 * x).abs || gap ≤ 1e-12

/-- Whether there is still a way to go from `x` to the end. -/
def isBefore (x stop : Value) : Except ValueFault Bool := do
  if ← x.less stop then return !isClose (← x.toFloat) (← stop.toFloat) else return false

/-- The exact value of a finite number. -/
def exactValue? (v : Value) : Option Rat :=
  match v.quantity? with
  | some (.whole n) => some n
  | some (.measure x) => Double.toRat? x
  | none => none

/-- More steps than any way has: so many of them leave the doubles, and what lies past the
doubles is refused. -/
def mostSteps : Nat :=
  2 ^ (1026 : Nat)

/-- A point with its coordinates rounded. -/
def pointAt (x y : Value) : Except ValueFault Value := do
  return .record [("x", ← x.roundTo 6), ("y", ← y.roundTo 6)]

/-- What the steps have come to. -/
structure Trail where
  x : Value
  y : Value
  points : List Value
  steps : List String
  count : Nat

/-- One step along the field. The point is a multiple of the step away from the start. -/
def Trail.advance (f : SlopeField) (start h : Value) (t : Trail) : Except ValueFault Trail := do
  let y ← t.y.add (← h.mul (← f t.x t.y))
  let count := t.count + 1
  let x ← start.add (← Value.mul (count : Int) h)
  let point ← pointAt x y
  let steps ←
    if count ≤ tracedSteps then do
      pure (t.steps ++ ["x = " ++ (← x.fixed 4) ++ ", y = " ++ (← y.fixed 6)])
    else pure t.steps
  return ⟨x, y, t.points ++ [point], steps, count⟩

/-- Steps until the end is reached. -/
def Trail.follow (f : SlopeField) (start stop h : Value) :
    Nat → Trail → Except ValueFault Trail
  | 0, t => do if ← isBefore t.x stop then throw .endless else return t
  | fuel + 1, t => do
    if ← isBefore t.x stop then (← t.advance f start h).follow f start stop h fuel
    else return t

/-- The solution of a differential equation from a point up to `stop`. -/
def euler (f : SlopeField) (x y stop h : Value) : Except ValueFault Solution := do
  if ← h.lessEqual (0 : Int) then
    return .failure "eulers_method" "Step size must be positive" [] [("step_size", h)]
  let first ← Value.line ["Starting Euler's Method: dy/dx = f(x,y), y(", x, ") = ", y]
  let t ← Trail.follow f x stop h mostSteps
    ⟨x, y, [.record [("x", x), ("y", y)]], [first], 0⟩
  return {
    method := "eulers_method"
    answer := t.y
    steps := t.steps
    details := [("final_value", t.y), ("points", .list t.points), ("step_size", h),
      ("step_count", (t.count : Int))] }

end Numerical

end Reckoner
