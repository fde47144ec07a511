-- Every solution that is returned has the shape of one: those of the solvers by themselves, with
-- any functions for the numerical methods, and those of calls, of requests and of answers.
import Reckoner.Proofs.Engine.Routing

namespace Reckoner

/-- A solution that some solver returns, or that the engine returns in an answer. -/
inductive Returned (s : Solution) : Prop
  | mental (o : Vedic.Operation) (operands : List Value) (returned : o.run operands = .ok s)
  | mentalProblem (type : Value) (operands : List Value)
      (returned : Vedic.solve type operands = .ok s)
  | symbolic (o : Symbolic.Operation) (get : String → Value)
      (returned : (o.run get).outcome = .ok s)
  | newton (f slope : RealFunction) (start tolerance limit : Value)
      (returned : Numerical.newton f slope start tolerance limit = .ok s)
  | bisection (f : RealFunction) (a b tolerance limit : Value)
      (returned : Numerical.bisection f a b tolerance limit = .ok s)
  | simpson (f : RealFunction) (a b intervals : Value)
      (returned : Numerical.simpson f a b intervals = .ok s)
  | trapezoid (f : RealFunction) (a b intervals : Value)
      (returned : Numerical.trapezoid f a b intervals = .ok s)
  | euler (f : SlopeField) (x y stop h : Value) (returned : Numerical.euler f x y stop h = .ok s)
  | centralDifference (f : RealFunction) (x h : Value)
      (returned : Numerical.centralDifference f x h = .ok s)
  | monteCarlo (experiment : Experiment) (trials : Value)
      (returned : Numerical.monteCarlo experiment trials = .ok s)
  | call (solver : Solver) (given : List Value) (named : List (String × Value))
      (returned : (solver.call given named).outcome = .ok s)
  | request (c : Capability) (builtin : c ∈ Capability.builtin) (operation : String)
      (arguments : List (String × Value)) (returned : (c.handle operation arguments).outcome = .ok s)
  | answer (engine : Engine) (reachable : engine.Reachable) (question given : Value)
      (store : SettingStore) (a : Answer)
      (answered : (engine.solve question given store).1.outcome = .ok a)
      (returned : a.solution = some s)

theorem Engine.Reachable.solution_wellFormed {engine : Engine} (reachable : engine.Reachable)
    {question given : Value} {store : SettingStore} {a : Answer} {s : Solution}
    (answered : (engine.solve question given store).1.outcome = .ok a)
    (h : a.solution = some s) : s.WellFormed := by
  obtain ⟨⟨r, _⟩, told, rfl⟩ := Option.map_eq_some_iff.1 h
  rcases reachable.solve_follows answered with ⟨-, silent⟩ | ⟨-, follows⟩
  · cases silent.symm.trans told
  · rw [told] at follows
    exact follows.wellFormed

theorem Returned.wellFormed {s : Solution} (h : Returned s) : s.WellFormed := by
  cases h with
  | mental o operands returned => exact (o.run_regular operands s returned).toWellFormed
  | mentalProblem type operands returned =>
    exact (Vedic.solve_regular type operands s returned).toWellFormed
  | symbolic o get returned => exact (o.run_regular get s returned).toWellFormed
  | newton f slope start tolerance limit returned =>
    exact (Numerical.newton_regular f slope tolerance limit start s returned).toWellFormed
  | bisection f a b tolerance limit returned =>
    exact (Numerical.bisection_regular f tolerance limit a b s returned).toWellFormed
  | simpson f a b intervals returned =>
    exact (Numerical.simpson_regular f a b intervals s returned).toWellFormed
  | trapezoid f a b intervals returned =>
    exact (Numerical.trapezoid_regular f a b intervals s returned).toWellFormed
  | euler f x y stop h returned =>
    exact (Numerical.euler_regular f x y stop h s returned).toWellFormed
  | centralDifference f x h returned =>
    exact (Numerical.centralDifference_regular f x h s returned).toWellFormed
  | monteCarlo experiment trials returned =>
    exact (Numerical.monteCarlo_regular experiment trials s returned).toWellFormed
  | call solver given named returned =>
    exact (solver.call_regular given named s returned).toWellFormed
  | request c builtin operation arguments returned =>
    exact (Capability.handle_regular builtin operation arguments s returned).toWellFormed
  | answer engine reachable question given store a answered returned =>
    exact reachable.solution_wellFormed answered returned

/-- A solution fails exactly where it tells why, and then it has no answer and passes no check. One
that passed its check succeeds with an answer that is there. Its record shows the fields of every
solution, and after them all of its details. -/
theorem returned_solutions_are_well_formed {s : Solution} (h : Returned s) :
    (s.success = false ↔ s.reason.isSome) ∧
      (s.success = false → s.answer = .nothing ∧ s.verified = false) ∧
      (s.verified = true → s.success = true ∧ s.answer ≠ .nothing) ∧
      (∀ name ∈ s.details.map (·.1),
        name ∉ ["method", "result", "steps", "verified", "success", "error"]) ∧
      s.toRecord = .record (s.coreFields ++ s.details) :=
  have shape := h.wellFormed
  ⟨shape.failed_iff, shape.of_failed, shape.of_verified, shape.names_new, shape.toRecord_eq⟩

/-- A division by zero is told with its operands. -/
theorem a_division_by_zero_shows_its_operands :
    ∃ s, Vedic.Operation.divide.run [.whole 7, .whole 0] = .ok s ∧
      s.toRecord = .record [("method", .text "dhvajanka"), ("result", .nothing), ("steps", .list []),
        ("verified", .truth false), ("success", .truth false),
        ("error", .text "Division by zero"), ("dividend", .whole 7), ("divisor", .whole 0)] := by
  have failed : Vedic.Operation.divide.run [.whole 7, .whole 0] =
      .ok (.failure "dhvajanka" "Division by zero" []
        [("dividend", .whole 7), ("divisor", .whole 0)]) := rfl
  obtain ⟨-, -, -, -, record⟩ :=
    returned_solutions_are_well_formed (.mental .divide [.whole 7, .whole 0] failed)
  exact ⟨_, failed, record⟩

end Reckoner
