-- Requests to the engine for mental arithmetic, against the operation itself. A request looks at
-- its operands as doubles and writes them down, so it is not to be had for all whole numbers.
import Reckoner.Proofs.Engine.QuickRoute

namespace Reckoner

namespace Engine

theorem Reachable.compute_vedic_handle {engine : Engine} (h : engine.Reachable)
    (operation : String) (arguments : List (String × Value)) :
    (engine.compute "vedic" operation arguments).outcome =
      (Capability.vedic.handle operation arguments).outcome := by
  have found : engine.require "vedic" = .ok .vedic := by
    unfold require
    rw [h.find?_vedic]
  unfold compute
  simp only [found, Logged.outcome_bind, Logged.outcome_lift, ok_bind]

/-- Where the operation gives a solution for whole operands, the capability and the engine give the
same one exactly when all operands lie below the doubles' bound. Past it there is a fault: the
operand cannot be made a double or, where it has too many digits, not even be told. -/
theorem a_request_gives_the_solution_up_to_the_largest_double {engine : Engine}
    (reachable : engine.Reachable) (o : Vedic.Operation) {ns : List Int}
    (hl : ns.length = o.operandNames.length) {s : Solution}
    (hs : Vedic.solve (.text o.name) (ns.map .whole) = .ok s) :
    let arguments := o.operandNames.zip (ns.map .whole)
    let outcome := if ∀ n ∈ ns, n.natAbs < Double.overflowBound then .ok s
      else if ∀ n ∈ ns, Writable n then .error (.value .pastDoubles)
      else .error (.value .tooLongToWrite)
    (Capability.vedic.handle o.name arguments).outcome = outcome ∧
      (engine.compute "vedic" o.name arguments).outcome = outcome := by
  intro arguments outcome
  have told : (Capability.vedic.handle o.name arguments).outcome = outcome := by
    rw [Vedic.solve_name] at hs
    rw [Capability.vedic_handle_whole o hl, hs]
  exact ⟨told, by rw [reachable.compute_vedic_handle, told]⟩

/-- The square of a number of 300 digits is to be had from the engine. -/
theorem a_square_of_300_digits_is_requested :
    ∃ s, Vedic.solve (.text "square") [.whole (10 ^ 299)] = .ok s ∧
      Vedic.Answers ((10 ^ 299) ^ 2) s ∧
      (Capability.vedic.handle "square" [("n", .whole (10 ^ 299))]).outcome = .ok s ∧
      (Engine.fresh.compute "vedic" "square" [("n", .whole (10 ^ 299))]).outcome = .ok s := by
  have one : [(10 : Int) ^ 299].length = Vedic.Operation.square.operandNames.length := rfl
  obtain ⟨s, r, hs, hr, exact⟩ := Vedic.run_whole one Vedic.Operation.noConfusion
    (by unfold Vedic.Moderate; decide +kernel)
  obtain rfl : (10 ^ 299) ^ 2 = r := Option.some.inj hr
  rw [← Vedic.solve_name] at hs
  have below : ∀ n ∈ [(10 : Int) ^ 299], n.natAbs < Double.overflowBound := by decide +kernel
  have told := a_request_gives_the_solution_up_to_the_largest_double .fresh .square rfl hs
  rw [if_pos below] at told
  exact ⟨s, hs, exact, told⟩

/-- The square of a number of 310 digits has a solution, and no request brings it. -/
theorem a_square_of_310_digits_is_refused :
    ∃ s, Vedic.solve (.text "square") [.whole (10 ^ 309)] = .ok s ∧
      Vedic.Answers ((10 ^ 309) ^ 2) s ∧
      (Capability.vedic.handle "square" [("n", .whole (10 ^ 309))]).outcome =
        .error (.value .pastDoubles) ∧
      (Engine.fresh.compute "vedic" "square" [("n", .whole (10 ^ 309))]).outcome =
        .error (.value .pastDoubles) := by
  have written : ∀ n ∈ [10 ^ 309, (10 ^ 309) ^ 2], Writable n := by
    simp only [writable_iff]
    decide +kernel
  have told : (Capability.vedic.handle "square" [("n", .whole (10 ^ 309))]).outcome =
      .error (.value .pastDoubles) := by
    have one : [(10 : Int) ^ 309].length = Vedic.Operation.square.operandNames.length := rfl
    refine (Capability.vedic_handle_whole .square one).trans ?_
    rw [if_neg (by decide +kernel), if_pos fun n hn => written n (List.mem_cons.2
      (.inl (List.mem_singleton.1 hn)))]
  rcases Vedic.square_exact (10 ^ 309) with ⟨-, s, hs, exact⟩ | ⟨⟨n, hn, hw⟩, -⟩
  · have run := congrArg (Except.mapError Fault.value) hs
    exact ⟨s, (Vedic.solve_name .square _).trans run, exact, told,
      (Reachable.fresh.compute_vedic_handle _ _).trans told⟩
  · exact absurd (written n hn) hw

end Engine

end Reckoner
