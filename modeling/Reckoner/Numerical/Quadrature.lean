-- Integrals by weighted sums over a grid: the rule of Simpson and the rule of trapezoids. The
-- grids and the sums are the same for all kinds of numbers, and a solution takes doubles.
import Reckoner.Numerical.Roots

namespace Reckoner

namespace Numerical

/-! ## Intervals -/

/-- The even number of intervals that the rule of Simpson takes. -/
def simpsonIntervals (n : Int) : Nat :=
  let n := (max n 2).toNat
  if n % 2 = 0 then n else n + 1

/-- The number of intervals that the rule of trapezoids takes. -/
def trapezoidIntervals (n : Int) : Nat := (max n 1).toNat

/-! ## Grids and weights -/

section Sums

variable {α : Type} [Add α] [Mul α] [Div α] [∀ n, OfNat α n]

/-- The points of a grid. -/
def grid (start step : α) (n : Nat) : List α :=
  (List.range (n + 1)).map fun i => start + step * OfNat.ofNat i

/-- The weights with every second one set anew, from the index `start` on. The last one stays. -/
def setAlternate (start : Nat) (weight : α) (weights : List α) : List α :=
  weights.mapIdx fun i old =>
    if start ≤ i ∧ (i - start) % 2 = 0 ∧ i + 1 < weights.length then weight else old

/-- The weights of the rule of Simpson, in thirds of the step. -/
def simpsonWeights (n : Nat) : List α :=
  setAlternate 2 2 (setAlternate 1 4 (List.replicate (n + 1) 1))

/-- The weights of the rule of trapezoids. -/
def trapezoidWeights (n : Nat) : List α :=
  ((List.replicate (n + 1) 1).set 0 (1 / 2)).set n (1 / 2)

/-- The sum of values with weights. -/
def weightedSum (weights values : List α) : α :=
  (weights.zip values).foldl (fun sum (w, v) => sum + w * v) 0

/-- The integral by the rule of Simpson, from the step and the values on the grid. -/
def simpsonRule (n : Nat) (step : α) (values : List α) : α :=
  step / 3 * weightedSum (simpsonWeights n) values

/-- The integral by the rule of trapezoids, from the step and the values on the grid. -/
def trapezoidRule (n : Nat) (step : α) (values : List α) : α :=
  step * weightedSum (trapezoidWeights n) values

end Sums

/-- The values of a function on a grid. -/
def samples (f : RealFunction) (points : List Float) : Except ValueFault (List Float) :=
  points.mapM fun x => do (← f (.measure x)).toFloat

/-! ## Solutions -/

/-- The step between the points of a grid. -/
def stepOf (a b : Value) (n : Nat) : Except ValueFault Value := do
  (← b.sub a).div ((n : Int) : Value)

/-- The solution for an integral over a grid. The rule makes the integral from the step and
the values on the grid. -/
def integral (method title : String) (f : RealFunction) (a b : Value) (n : Nat)
    (rule : Float → List Float → Float) : Except ValueFault Solution := do
  let step ← stepOf a b n
  let h ← step.toFloat
  let result := rule h (← samples f (grid (← a.toFloat) h n))
  return {
    method := method
    answer := result
    steps := [
      "Using " ++ title ++ " with " ++ natText n ++ " intervals",
      ← Value.line ["h = (", b, " - ", a, ") / ", ((n : Int) : Value), " = ", step],
      "∫f(x)dx ≈ " ++ Double.fixed 6 result]
    details := [("intervals", (n : Int)),
      ("interval", ← Value.line ["[", a, ", ", b, "]"]), ("step_size", step)] }

/-- The integral of a function by the rule of Simpson. -/
def simpson (f : RealFunction) (a b intervals : Value) : Except ValueFault Solution := do
  let n := simpsonIntervals (← intervals.toInt)
  integral "simpsons_rule" "Simpson's Rule" f a b n (simpsonRule n)

/-- The integral of a function by the rule of trapezoids. -/
def trapezoid (f : RealFunction) (a b intervals : Value) : Except ValueFault Solution := do
  let n := trapezoidIntervals (← intervals.toInt)
  integral "trapezoidal_rule" "Trapezoidal Rule" f a b n (trapezoidRule n)

end Numerical

end Reckoner
