-- Roots of functions by Newton's iteration and by halving a bracket. Both stop after a set
-- number of iterations, and a solution keeps a line for each of them.
import Reckoner.Solution.Basic
import Reckoner.Value.Apply

namespace Reckoner

/-- A function of one number, which may have no value at some arguments. -/
abbrev RealFunction := Value → Except ValueFault Value

namespace Numerical

/-! ## Checks -/

/-- Whether the absolute value of a number is below a bound. -/
def isWithin (v bound : Value) : Except ValueFault Bool := do (← v.abs).less bound

/-- Whether a function is as close to zero at a root as the tolerance asks for. -/
def isRoot (f : RealFunction) (root tolerance : Value) : Except ValueFault Bool := do
  let size ← (← f root).abs
  size.less (← tolerance.mapFloat Double.squareRoot)

/-- The solution with a root. -/
def rootFound (method : String) (f : RealFunction) (tolerance root : Value) (steps : List String)
    (iterations : Nat) : Except ValueFault Solution := do
  return {
    method := method
    answer := root
    steps := steps
    verified := ← isRoot f root tolerance
    details := [("root", root), ("iterations", (iterations : Int))] }

/-- The solution when the iterations are used up. -/
def iterationsUsedUp (method : String) (steps : List String) (limit last : Value) : Solution :=
  .failure method "Max iterations reached" steps [("iterations", limit), ("last_value", last)]

/-! ## Newton's iteration -/

/-- The size below which a slope is taken for zero. -/
def leastSlope : Float := 1e-10

/-- What one iteration comes to. -/
inductive NewtonStep where
  /-- The slope is too close to zero. -/
  | flat
  /-- The next point, and the line for the iteration. -/
  | move (next : Value) (line : String)

/-- One iteration from a point. -/
def newtonStep (f slope : RealFunction) (i : Nat) (x : Value) : Except ValueFault NewtonStep := do
  let fx ← f x
  let gx ← slope x
  if ← isWithin gx leastSlope then return .flat
  let next ← x.sub (← fx.div gx)
  let line := "Iteration " ++ natText (i + 1) ++ ": x = " ++ (← x.fixed 6) ++ ", f(x) = " ++
    (← fx.fixed 6) ++ ", x_new = " ++ (← next.fixed 6)
  return .move next line

/-- The iterations that are left, from the iteration `i` on. -/
def newtonFrom (f slope : RealFunction) (tolerance limit : Value) :
    Nat → Nat → Value → List String → Except ValueFault Solution
  | 0, _, x, steps => .ok (iterationsUsedUp "newton_raphson" steps limit x)
  | left + 1, i, x, steps => do
    match ← newtonStep f slope i x with
    | .flat =>
      return .failure "newton_raphson" "Derivative too small" steps
        [("iterations", (i : Int)), ("last_value", x)]
    | .move next line =>
      let steps := steps ++ [line]
      if ← isWithin (← next.sub x) tolerance then
        rootFound "newton_raphson" f tolerance next steps (i + 1)
      else newtonFrom f slope tolerance limit left (i + 1) next steps

/-- A root of a function with the given slope, from a starting point on. -/
def newton (f slope : RealFunction) (start tolerance limit : Value) :
    Except ValueFault Solution := do
  let first ← Value.line ["Starting Newton-Raphson with x₀ = ", start]
  newtonFrom f slope tolerance limit (← limit.toCount) 0 start [first]

/-! ## Halving a bracket -/

/-- Two points between which a function changes its sign. -/
structure Bracket where
  left : Value
  right : Value

namespace Bracket

def middle (b : Bracket) : Except ValueFault Value := do
  (← b.left.add b.right).div (2 : Int)

/-- The half of the bracket on one side of its middle. -/
def half (b : Bracket) (middle : Value) (onLeft : Bool) : Bracket :=
  if onLeft then ⟨b.left, middle⟩ else ⟨middle, b.right⟩

def width (b : Bracket) : Except ValueFault Value := b.right.sub b.left

/-- The line for an iteration. -/
def line (b : Bracket) (i : Nat) (middle value : Value) : Except ValueFault String := do
  return "Iteration " ++ natText (i + 1) ++ ": [" ++ (← b.left.fixed 6) ++ ", " ++
    (← b.right.fixed 6) ++ "], mid = " ++ (← middle.fixed 6) ++ ", f(mid) = " ++ (← value.fixed 6)

end Bracket

/-- The iterations that are left, from the iteration `i` on. -/
def bisectFrom (f : RealFunction) (tolerance limit : Value) :
    Nat → Nat → Bracket → List String → Except ValueFault Solution
  | 0, _, b, steps => do return iterationsUsedUp "bisection" steps limit (← b.middle)
  | left + 1, i, b, steps => do
    let middle ← b.middle
    let value ← f middle
    let steps := steps ++ [← b.line i middle value]
    if ← isWithin value tolerance then
      rootFound "bisection" f tolerance middle steps (i + 1)
    else
      let onLeft ← (← (← f b.left).mul value).less (0 : Int)
      let next := b.half middle onLeft
      if ← isWithin (← next.width) tolerance then
        rootFound "bisection" f tolerance (← next.middle) steps (i + 1)
      else bisectFrom f tolerance limit left (i + 1) next steps

/-- A root of a function between two points at which it has opposite signs. -/
def bisection (f : RealFunction) (a b tolerance limit : Value) : Except ValueFault Solution := do
  let fa ← f a
  if ← (← fa.mul (← f b)).atLeast (0 : Int) then
    return .failure "bisection" "Function must have opposite signs at endpoints" []
      [("iterations", (0 : Int))]
  let first ← Value.line ["Starting Bisection Method with [", a, ", ", b, "]"]
  bisectFrom f tolerance limit (← limit.toCount) 0 ⟨a, b⟩ [first]

end Numerical

end Reckoner
