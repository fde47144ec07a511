-- The chance that an experiment succeeds, by trials.
import Reckoner.Numerical.Roots

namespace Reckoner

/-- The outcomes of an experiment, by the number of trials before. -/
abbrev Experiment := Nat → Except ValueFault Value

namespace Numerical

/-- How many of the next trials succeed, after the trials and successes so far. -/
def countFrom (experiment : Experiment) : Nat → Nat → Nat → Except ValueFault Nat
  | 0, _, successes => .ok successes
  | left + 1, i, successes => do
    let outcome ← experiment i
    countFrom experiment left (i + 1) (if outcome.isTrue then successes + 1 else successes)

/-- How many of so many trials succeed. -/
def successes (experiment : Experiment) (trials : Nat) : Except ValueFault Nat :=
  countFrom experiment trials 0 0

/-- The half width of the interval that holds the chance with a confidence of 95 per cent. -/
def margin (probability : Float) (trials : Value) : Except ValueFault Float := do
  let spread ← Value.div (probability * (1 - probability)) trials
  return 1.96 * (← Double.squareRoot (← spread.toFloat))

/-- The solution for so many successes. -/
def estimate (count : Nat) (trials : Value) : Except ValueFault Solution := do
  let probability ← Value.div (count : Int) trials
  let p ← probability.toFloat
  let m ← margin p trials
  let lower := if 0 < p - m then p - m else 0
  let upper := if p + m < 1 then p + m else 1
  return {
    method := "monte_carlo"
    answer := probability
    steps := [
      ← Value.line ["Ran ", trials, " trials with ", (count : Int), " successes"],
      ← Value.line ["P ≈ ", (count : Int), " / ", trials, " = ", ← probability.fixed 6],
      "95% confidence: ± " ++ Double.fixed 6 m]
    details := [("probability", probability), ("successes", (count : Int)), ("trials", trials),
      ("confidence_interval", .record [("margin", m), ("level", (0.95 : Float)),
        ("lower", lower), ("upper", upper)])] }

/-- The chance of success with its confidence interval. -/
def monteCarlo (experiment : Experiment) (trials : Value) : Except ValueFault Solution := do
  if ← trials.less (1 : Int) then
    return .failure "monte_carlo" "Trials must be a positive integer" [] [("trials", trials)]
  estimate (← successes experiment (← trials.toCount)) trials

end Numerical

end Reckoner
