-- All that solvers return has the shape of a solution. Each way of returning is looked at once:
-- an answer, a failure before the work, one in the middle of it, and one when the iterations are
-- used up.
import Reckoner.Engine.Solver
import Reckoner.Proofs.Log.Outcome
import Reckoner.Proofs.Solution.Shape

namespace Reckoner

open Solution

/-! ## Answers that are there -/

namespace Value

variable {a b : Value}

theorem number_ne_nothing (q : Quantity) : number q ≠ nothing := nofun

theorem text_ne_nothing (s : String) : text s ≠ nothing := nofun

theorem list_ne_nothing (l : List Value) : list l ≠ nothing := nofun

theorem onNumbers_present {op : Quantity → Quantity → Except ValueFault Quantity}
    {other : Value → Value → Except ValueFault Value} (h : Yields (· ≠ nothing) (other a b)) :
    Yields (· ≠ nothing) (onNumbers op other a b) := by
  unfold onNumbers
  split
  · exact .map number_ne_nothing
  · exact h

theorem noRule_present (op : String) (a b : Value) : Yields (· ≠ nothing) (noRule op a b) :=
  .error _

theorem sub_present : Yields (· ≠ nothing) (a.sub b) := onNumbers_present (noRule_present _ a b)

theorem div_present : Yields (· ≠ nothing) (a.div b) := onNumbers_present (noRule_present _ a b)

theorem wholeQuotient_present : Yields (· ≠ nothing) (a.wholeQuotient b) :=
  onNumbers_present (noRule_present _ a b)

theorem times_present {f : Int → Except ValueFault Value} (h : ∀ n, Yields (· ≠ nothing) (f n)) :
    Yields (· ≠ nothing) (repeated.times f b) := by
  unfold repeated.times
  split
  · exact h _
  · exact .error _

theorem repeated_present : Yields (· ≠ nothing) (repeated a b) := by
  unfold repeated
  split
  case h_5 => exact noRule_present _ _ _
  all_goals exact times_present fun n => .map nofun

theorem mul_present : Yields (· ≠ nothing) (a.mul b) := onNumbers_present repeated_present

end Value

/-! ## Mental arithmetic -/

namespace Vedic

variable {v w : Value}

theorem plainSquare_present : Yields (· ≠ .nothing) (plainSquare v) := Value.mul_present

theorem plainCube_present : Yields (· ≠ .nothing) (plainCube v) := .bind fun _ _ => Value.mul_present

theorem nearBaseSquare_regular (n base : Nat) (v : Value) :
    Yields Regular (nearBaseSquare n base v) := by
  unfold nearBaseSquare
  repeat refine .bind fun _ _ => ?_
  exact .ok (.answered (fun _ => Value.number_ne_nothing _) (by simp) _ _)

theorem endsInFiveSquare_regular (n : Nat) (v : Value) :
    Yields Regular (endsInFiveSquare n v) := by
  unfold endsInFiveSquare
  repeat refine .bind fun _ _ => ?_
  exact .ok (.answered (fun _ => Value.number_ne_nothing _) (by simp) _ _)

theorem duplexSquare_regular (tens units : Nat) (v : Value) :
    Yields Regular (duplexSquare tens units v) := by
  unfold duplexSquare
  repeat refine .bind fun _ _ => ?_
  exact .ok (.answered (fun _ => Value.number_ne_nothing _) (by simp) _ _)

theorem standardSquare_regular (v : Value) : Yields Regular (standardSquare v) := by
  unfold standardSquare
  refine .bind fun result h => ?_
  repeat refine .bind fun _ _ => ?_
  exact .ok (.answered (fun _ => plainSquare_present result h) (by simp) _ _)

theorem square_regular (v : Value) : Yields Regular (square v) := by
  unfold square
  split
  · exact standardSquare_regular v
  · split
    · exact nearBaseSquare_regular _ _ v
    · split_ifs
      · exact endsInFiveSquare_regular _ v
      · exact duplexSquare_regular _ _ v
      · exact standardSquare_regular v

theorem crosswiseProduct_regular (v w : Value) (a b : Nat × Nat) :
    Yields Regular (crosswiseProduct v w a b) := by
  unfold crosswiseProduct
  repeat refine .bind fun _ _ => ?_
  exact .ok (.answered (fun _ => Value.number_ne_nothing _) (by simp) _ _)

theorem standardProduct_regular (v w : Value) : Yields Regular (standardProduct v w) := by
  unfold standardProduct
  refine .bind fun result h => ?_
  repeat refine .bind fun _ _ => ?_
  exact .ok (.answered (fun _ => Value.mul_present result h) (by simp) _ _)

theorem multiply_regular (v w : Value) : Yields Regular (multiply v w) := by
  unfold multiply
  split
  · exact crosswiseProduct_regular v w _ _
  · exact standardProduct_regular v w

theorem endsInFiveCube_regular (n : Nat) (v : Value) : Yields Regular (endsInFiveCube n v) := by
  unfold endsInFiveCube
  repeat refine .bind fun _ _ => ?_
  exact .ok (.answered (fun _ => Value.number_ne_nothing _) (by simp) _ _)

theorem standardCube_regular (v : Value) : Yields Regular (standardCube v) := by
  unfold standardCube
  refine .bind fun result h => ?_
  repeat refine .bind fun _ _ => ?_
  exact .ok (.answered (fun _ => plainCube_present result h) (by simp) _ _)

theorem cube_regular (v : Value) : Yields Regular (cube v) := by
  unfold cube
  split
  · split_ifs
    · exact endsInFiveCube_regular _ v
    · exact standardCube_regular v
  · exact standardCube_regular v

/-- A division by zero fails, and every other one answers with the quotient. -/
theorem divide_regular (v w : Value) : Yields Regular (divide v w) := by
  unfold divide
  split_ifs
  · exact .ok (.failure (by simp) _ _ _)
  · refine .bind fun quotient h => ?_
    repeat refine .bind fun _ _ => ?_
    exact .ok (.answered (fun _ => Value.wholeQuotient_present quotient h) (by simp) _ _)

theorem Operation.run_regular (o : Operation) (operands : List Value) :
    Yields Regular (o.run operands) := by
  unfold run run?
  split
  next found =>
    split at found <;> cases found
    · exact (square_regular _).mapError _
    · exact (cube_regular _).mapError _
    · exact (multiply_regular _ _).mapError _
    · exact (divide_regular _ _).mapError _
  · exact .error _

/-- A problem of an unknown type is a failure that tells the type. -/
theorem solve_regular (type : Value) (operands : List Value) :
    Yields Regular (solve type operands) := by
  unfold solve
  refine .bind fun name _ => ?_
  split
  · exact Operation.run_regular _ operands
  · exact .ok (.failure (by simp) _ _ _)

theorem handle_regular (operation : String) (arguments : List (String × Value)) :
    Yields Regular (handle operation arguments).outcome := by
  unfold handle
  simp only [Logged.outcome_bind, Logged.outcome_lift, Logged.outcome_pure]
  refine .bind fun o _ => .bind fun operands _ => .bind fun s hs => .bind fun _ _ => ?_
  exact .ok (o.run_regular operands s hs)

end Vedic

/-! ## Symbolic algebra -/

namespace Symbolic

variable {x : Expr} {name : String}

theorem reportReading_regular {α : Type} {outcome : Except Fault α} {report : String → Solution}
    {next : α → Except Fault Solution} (told : ∀ reason, (report reason).Regular)
    (answered : ∀ a, Yields Regular (next a)) :
    Yields Regular (reportReading outcome report next) := by
  unfold reportReading
  split
  · exact answered _
  · exact .ok (told _)
  · exact .error _

theorem simplification_regular (expression : Value) :
    Yields Regular (simplification expression) := by
  refine reportReading_regular (fun _ => .failure (by simp) _ _ _) fun x => ?_
  repeat refine .bind fun _ _ => ?_
  exact .ok (.answered (fun _ => Value.text_ne_nothing _) (by simp) _ _)

theorem differentiation_regular (expression variableName : Value) :
    Yields Regular (differentiation expression variableName) := by
  refine .bind fun _ _ => reportReading_regular (fun _ => .failure (by simp) _ _ _) fun x => ?_
  repeat refine .bind fun _ _ => ?_
  exact .ok (.unchecked (by simp) _ _ _)

theorem factorization_regular (expression : Value) :
    Yields Regular (factorization expression) := by
  refine reportReading_regular (fun _ => .failure (by simp) _ _ _) fun x => ?_
  repeat refine .bind fun _ _ => ?_
  exact .ok (.answered (fun _ => Value.text_ne_nothing _) (by simp) _ _)

theorem evaluationSolution_regular (expression : Value) (bindings : List (String × Value))
    (outcome : Outcome) : Yields Regular (evaluationSolution expression bindings outcome) := by
  cases outcome with
  | real value =>
    repeat refine .bind fun _ _ => ?_
    exact .ok (.unchecked (by simp) _ _ _)
  | unbound names => exact .ok (.failure (by simp) _ _ _)
  | notReal value => exact .bind fun _ _ => .ok (.failure (by simp) _ _ _)

theorem evaluation_regular (expression bindings : Value) :
    Yields Regular (evaluation expression bindings) := by
  refine .bind fun entries _ => .bind fun fields _ =>
    reportReading_regular (fun _ => .failure (by simp) _ _ _) fun x => ?_
  exact .bind fun _ _ => evaluationSolution_regular expression fields _

theorem Quadratic.complexSolution_regular (p : Quadratic) (name : String) :
    Yields Regular (p.complexSolution name) := by
  unfold complexSolution
  repeat refine .bind fun _ _ => ?_
  exact .ok (.answered (fun _ => Value.text_ne_nothing _) (by simp) _ _)

theorem Quadratic.realSolution_regular (p : Quadratic) (name : String) :
    Yields Regular (p.realSolution name) := by
  unfold realSolution
  refine .bind fun _ _ => .bind fun _ _ => .bind fun _ _ => ?_
  -- The check of the second root is only made where the first one passes.
  dsimp only
  split_ifs
  all_goals
    exact .bind fun _ _ => .ok (.answered (fun _ => Value.list_ne_nothing _) (by simp) _ _)

theorem Quadratic.solution_regular (p : Quadratic) (name : String) :
    Yields Regular (p.solution name) := by
  unfold solution
  split_ifs
  · exact p.complexSolution_regular name
  · exact p.realSolution_regular name

theorem solveQuadratic_regular (x : Expr) (p : Coefficients) (name : String) :
    Yields Regular (solveQuadratic x p name) := by
  unfold solveQuadratic
  split
  · exact (Quadratic.solution_regular _ name).mapError _
  · exact .bind fun _ _ => .ok (.failure (by simp) _ _ _)

theorem scan_regular (t : ScanTexts) (r : Residual) : Yields Regular (scan t r) := by
  unfold scan
  split
  · exact .bind fun _ _ => .ok (.answered (fun _ => Value.list_ne_nothing _) (by simp) _ _)
  · exact .ok (.failure (by simp) _ _ _)

theorem solveByScan_regular (x : Expr) (name : String) : Yields Regular (solveByScan x name) := by
  refine .bind fun _ _ => ?_
  dsimp only
  split_ifs
  · exact .bind fun _ _ => .mapError _ (.bind fun r _ => scan_regular _ r)
  · exact .ok (.failure (by simp) _ _ _)

theorem solveZero_regular (x : Expr) (name : String) : Yields Regular (solveZero x name) := by
  unfold solveZero
  split_ifs
  · split
    · exact solveQuadratic_regular x _ name
    · exact .bind fun _ _ => .ok (.failure (by simp) _ _ _)
  · exact solveByScan_regular x name

theorem solveSides_regular (equation variableName : Value) (left right : Expr) :
    Yields Regular (solveSides equation variableName left right).outcome := by
  unfold solveSides noteRearranged
  simp only [Logged.outcome_bind, Logged.outcome_lift]
  exact .bind fun name _ => .bind fun _ _ => .bind fun _ _ => solveZero_regular _ name

/-- An equation fails for its form, for a text that is not read, or in the search for solutions. -/
theorem solveEquation_regular (equation variableName : Value) :
    Yields Regular (solveEquation equation variableName).outcome := by
  unfold solveEquation
  simp only [Logged.outcome_bind, Logged.outcome_lift]
  refine .bind fun _ _ => ?_
  split
  · exact .ok (.failure (by simp) _ _ _)
  · simp only [Logged.outcome_bind, Logged.outcome_lift]
    refine .bind fun _ _ => ?_
    split
    · exact .ok (.failure (by simp) _ _ _)
    · exact .error _
    · exact solveSides_regular equation variableName _ _

theorem Operation.run_regular (o : Operation) (get : String → Value) :
    Yields Regular (o.run get).outcome := by
  cases o with
  | solveEquation => exact solveEquation_regular _ _
  | simplify => exact simplification_regular _
  | derivative => exact differentiation_regular _ _
  | evaluate => exact evaluation_regular _ _
  | factor => exact factorization_regular _

theorem handle_regular (operation : String) (arguments : List (String × Value)) :
    Yields Regular (handle operation arguments).outcome := by
  unfold handle
  split
  · exact .error _
  · split
    · exact .error _
    · exact Operation.run_regular _ _

end Symbolic

/-! ## Numerical methods -/

namespace Numerical

variable (f slope : RealFunction) (tolerance limit : Value)

theorem rootFound_regular (method : String) {root : Value} (h : root ≠ .nothing)
    (steps : List String) (iterations : Nat) :
    Yields Regular (rootFound method f tolerance root steps iterations) :=
  .bind fun _ _ => .ok (.answered (fun _ => h) (by simp) _ _)

theorem iterationsUsedUp_regular (method : String) (steps : List String) (limit last : Value) :
    (iterationsUsedUp method steps limit last).Regular :=
  .failure (by simp) _ _ _

/-- The next point of Newton's iteration is a number. -/
theorem newtonStep_present (i : Nat) (x : Value) :
    Yields (fun r => ∀ next line, r = .move next line → next ≠ .nothing)
      (newtonStep f slope i x) := by
  refine .bind fun _ _ => .bind fun _ _ => .bind fun _ _ => ?_
  split_ifs
  · exact .ok nofun
  · refine .bind fun _ _ => .bind fun next h => ?_
    repeat refine .bind fun _ _ => ?_
    refine .ok ?_
    rintro _ _ ⟨⟩
    exact Value.sub_present next h

theorem newtonFrom_regular (left i : Nat) (x : Value) (steps : List String) :
    Yields Regular (newtonFrom f slope tolerance limit left i x steps) := by
  induction left generalizing i x steps with
  | zero => exact .ok (iterationsUsedUp_regular _ steps limit x)
  | succ left ih =>
    refine .bind fun r h => ?_
    cases r with
    | flat => exact .ok (.failure (by simp) _ _ _)
    | move next line =>
      have present := newtonStep_present f slope i x _ h next line rfl
      refine .bind fun _ _ => .bind fun _ _ => ?_
      split_ifs
      · exact rootFound_regular f tolerance _ present _ _
      · exact ih _ next _

theorem newton_regular (start : Value) :
    Yields Regular (newton f slope start tolerance limit) :=
  .bind fun _ _ => .bind fun _ _ => newtonFrom_regular f slope tolerance limit _ _ start _

theorem Bracket.middle_present (b : Bracket) : Yields (· ≠ .nothing) b.middle :=
  .bind fun _ _ => Value.div_present

theorem bisectFrom_regular (left i : Nat) (b : Bracket) (steps : List String) :
    Yields Regular (bisectFrom f tolerance limit left i b steps) := by
  induction left generalizing i b steps with
  | zero => exact .bind fun _ _ => .ok (iterationsUsedUp_regular _ steps limit _)
  | succ left ih =>
    refine .bind fun middle h => .bind fun _ _ => .bind fun _ _ => .bind fun _ _ => ?_
    split_ifs
    · exact rootFound_regular f tolerance _ (b.middle_present middle h) _ _
    · refine .bind fun _ _ => .bind fun _ _ => .bind fun _ _ => .bind fun _ _ => .bind fun _ _ => ?_
      split_ifs
      · exact .bind fun middle h =>
          rootFound_regular f tolerance _ (Bracket.middle_present _ middle h) _ _
      · exact ih _ _ _

theorem bisection_regular (a b : Value) :
    Yields Regular (bisection f a b tolerance limit) := by
  refine .bind fun _ _ => .bind fun _ _ => .bind fun _ _ => .bind fun _ _ => ?_
  split_ifs
  · exact .ok (.failure (by simp) _ _ _)
  · exact .bind fun _ _ => .bind fun _ _ => bisectFrom_regular f tolerance limit _ _ _ _

theorem integral_regular (method title : String) (a b : Value) (n : Nat)
    (rule : Float → List Float → Float) :
    Yields Regular (integral method title f a b n rule) := by
  unfold integral
  repeat refine .bind fun _ _ => ?_
  exact .ok (.unchecked (by simp) _ _ _)

theorem simpson_regular (a b intervals : Value) : Yields Regular (simpson f a b intervals) :=
  .bind fun _ _ => integral_regular f _ _ a b _ _

theorem trapezoid_regular (a b intervals : Value) : Yields Regular (trapezoid f a b intervals) :=
  .bind fun _ _ => integral_regular f _ _ a b _ _

theorem centralDifference_regular (x h : Value) : Yields Regular (centralDifference f x h) := by
  unfold centralDifference
  repeat refine .bind fun _ _ => ?_
  exact .ok (.unchecked (by simp) _ _ _)

theorem euler_regular (f : SlopeField) (x y stop h : Value) :
    Yields Regular (euler f x y stop h) := by
  refine .bind fun _ _ => ?_
  split_ifs
  · exact .ok (.failure (by simp) _ _ _)
  · exact .bind fun _ _ => .bind fun _ _ => .ok (.unchecked (by simp) _ _ _)

theorem monteCarlo_regular (experiment : Experiment) (trials : Value) :
    Yields Regular (monteCarlo experiment trials) := by
  refine .bind fun _ _ => ?_
  split_ifs
  · exact .ok (.failure (by simp) _ _ _)
  · repeat refine .bind fun _ _ => ?_
    exact .ok (.unchecked (by simp) _ _ _)

theorem Method.run_regular (m : Method) (get : String → Value) : Yields Regular (m.run get) := by
  cases m with
  | newton => exact newton_regular _ _ _ _ _
  | bisection => exact bisection_regular _ _ _ _ _
  | simpson => exact simpson_regular _ _ _ _
  | trapezoid => exact trapezoid_regular _ _ _ _
  | euler => exact euler_regular _ _ _ _ _
  | centralDifference => exact centralDifference_regular _ _ _
  | monteCarlo => exact monteCarlo_regular _ _

theorem handle_regular (operation : String) (arguments : List (String × Value)) :
    Yields Regular (handle operation arguments) :=
  .bind fun m _ => (m.run_regular _).mapError _

end Numerical

/-! ## Calls and requests -/

theorem Solver.call_regular (solver : Solver) (given : List Value)
    (named : List (String × Value)) : Yields Regular (solver.call given named).outcome := by
  unfold call
  simp only
  split
  · unfold runBound
    cases solver with
    | vedic o => exact o.run_regular _
    | vedicProblem => exact Vedic.solve_regular _ _
    | symbolic o => exact o.run_regular _
    | numerical m => exact (m.run_regular _).mapError _
  · exact .error _

/-- What timed work returns is what the work returns. -/
theorem timed_yields {α : Type} {P : α → Prop} {work : Logged α} (h : Yields P work.outcome)
    (name : String) (arguments : List Value) (named : List (String × Value)) :
    Yields P (timed name arguments named work).outcome := by
  unfold timed
  simp only [Logged.outcome_bind, Logged.outcome_lift]
  exact .bind fun _ _ => .bind fun _ _ => .bind fun _ _ => h

theorem Capability.handle_regular {c : Capability} (hc : c ∈ builtin) (operation : String)
    (arguments : List (String × Value)) : Yields Regular (c.handle operation arguments).outcome := by
  cases c with
  | vedic => exact timed_yields (Vedic.handle_regular operation arguments) _ _ _
  | symbolic => exact timed_yields (Symbolic.handle_regular operation arguments) _ _ _
  | numerical => exact timed_yields (Numerical.handle_regular operation arguments) _ _ _
  | echo name => simp [builtin] at hc

end Reckoner
