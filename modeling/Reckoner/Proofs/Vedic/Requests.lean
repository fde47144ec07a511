-- Requests for mental arithmetic with whole operands, against the operation itself. An operand is
-- checked through the double closest to it, so one past the doubles is refused.
import Reckoner.Engine.Capability
import Reckoner.Proofs.Decimal.Largest
import Reckoner.Proofs.Log.Outcome

namespace Reckoner

open Double

namespace Vedic

/-! ## Operands -/

theorem checkOperand_of_lt (name : String) {n : Int} (h : n.natAbs < overflowBound) :
    checkOperand name (.whole n) = .ok () := by
  obtain ⟨x, hx, finite⟩ := ofInt_isFinite h
  simp [checkOperand, Quantity.toFloat, hx, finite, Except.mapError]
  rfl

theorem checkOperand_of_ge (name : String) {n : Int} (h : overflowBound ≤ n.natAbs) :
    checkOperand name (.whole n) = .error (.value .pastDoubles) := by
  simp [checkOperand, Quantity.toFloat, ofInt_eq_none h, Except.mapError]

/-- Operands under any names pass when no one of them lies past the doubles. -/
theorem checkOperands_whole {names : List String} {ns : List Int} (hl : ns.length = names.length) :
    forM (names.zip (ns.map Value.whole)) (fun e => checkOperand e.1 e.2) =
      if ∀ n ∈ ns, n.natAbs < overflowBound then .ok () else .error (.value .pastDoubles) := by
  induction ns generalizing names with
  | nil => simp; rfl
  | cons n rest ih =>
    obtain ⟨name, names, rfl⟩ := List.exists_of_length_succ names hl.symm
    rw [List.map_cons, List.zip_cons_cons, List.forM_cons]
    rcases lt_or_ge n.natAbs overflowBound with below | past
    · simp only [checkOperand_of_lt name below, ok_bind, List.forall_mem_cons, below, true_and]
      exact ih (by simpa using hl)
    · simp only [checkOperand_of_ge name past, List.forall_mem_cons, not_lt.2 past, false_and,
        if_false]
      rfl

/-- Operands under the names of an operation are found there. -/
theorem requireArguments_zip (o : Operation) {ns : List Int}
    (hl : ns.length = o.operandNames.length) :
    requireArguments (o.operandNames.zip (ns.map .whole)) o.operandNames =
      .ok (ns.map .whole) := by
  cases o with
  | square | cube =>
    obtain ⟨n, rfl⟩ := List.length_eq_one_iff.1 hl
    rfl
  | multiply | divide =>
    obtain ⟨m, n, rfl⟩ := List.length_eq_two.1 hl
    rfl

/-! ## Requests -/

theorem operationOf_name (o : Operation) : operationOf o.name = .ok o := by
  cases o <;> rfl

theorem operandsOf_whole (o : Operation) {ns : List Int} (hl : ns.length = o.operandNames.length) :
    operandsOf o (o.operandNames.zip (ns.map .whole)) =
      if ∀ n ∈ ns, n.natAbs < overflowBound then .ok (ns.map .whole)
      else .error (.value .pastDoubles) := by
  unfold operandsOf
  rw [requireArguments_zip o hl]
  simp only [Except.mapError, ok_bind]
  rw [List.forM_eq_forM]
  simp only [checkOperands_whole hl]
  split_ifs <;> rfl

/-- The record of a solution that did not pass its check leaves the outcome as it is. -/
theorem outcome_noteUnverified (o : Operation) (operands : List Value) (s : Solution) :
    (noteUnverified o operands s).outcome = .ok () := by
  unfold noteUnverified
  split_ifs <;> rfl

/-- A request comes out as its operation does, as long as no operand lies past the doubles. -/
theorem handle_whole (o : Operation) {ns : List Int} (hl : ns.length = o.operandNames.length) :
    (handle o.name (o.operandNames.zip (ns.map .whole))).outcome =
      if ∀ n ∈ ns, n.natAbs < overflowBound then o.run (ns.map .whole)
      else .error (.value .pastDoubles) := by
  simp only [handle, operationOf_name, operandsOf_whole o hl, Logged.outcome_bind,
    Logged.outcome_lift, ok_bind]
  split_ifs
  · rw [ok_bind]
    cases o.run (ns.map .whole) with
    | error f => rfl
    | ok s => rw [ok_bind, outcome_noteUnverified]; rfl
  · rfl

theorem solve_name (o : Operation) (operands : List Value) :
    solve (.text o.name) operands = o.run operands := by
  cases o <;> rfl

end Vedic

/-! ## The capability -/

/-- The whole numbers of operands under names are the operands. -/
theorem wholeNumbersUnder_zip {names : List String} {ns : List Int}
    (hl : ns.length = names.length) :
    Value.wholeNumbersUnder (names.zip (ns.map .whole)) = ns := by
  induction ns generalizing names with
  | nil => simp [Value.wholeNumbersUnder]
  | cons n rest ih =>
    obtain ⟨name, names, rfl⟩ := List.exists_of_length_succ names hl.symm
    simp [Value.wholeNumbersUnder, Value.wholeNumbers, ih (by simpa using hl)]

namespace Capability

/-- The request is told in the journal before it is worked on, so an operand that cannot be
written is noticed first. -/
theorem vedic_handle_whole (o : Vedic.Operation) {ns : List Int}
    (hl : ns.length = o.operandNames.length) :
    (vedic.handle o.name (o.operandNames.zip (ns.map .whole))).outcome =
      if ∀ n ∈ ns, n.natAbs < overflowBound then o.run (ns.map .whole)
      else if ∀ n ∈ ns, Writable n then .error (.value .pastDoubles)
      else .error (.value .tooLongToWrite) := by
  have told : ∀ v ∈ [Value.text vedic.objectText, .text o.name,
      .record (o.operandNames.zip (ns.map .whole))], ∀ n ∈ v.wholeNumbers, n ∈ ns := by
    simp [Value.wholeNumbers, wholeNumbersUnder_zip hl]
  unfold handle
  dsimp only
  by_cases written : ∀ n ∈ ns, Writable n
  · rw [timed_outcome _ _ fun v hv n hn => written n (told v hv n hn), if_pos written]
    exact Vedic.handle_whole o hl
  · have past : ¬ ∀ n ∈ ns, n.natAbs < overflowBound := fun h =>
      written fun n hn => Double.writable_of_lt_overflowBound (h n hn)
    rw [if_neg past, if_neg written]
    refine timed_not_written _ _ ⟨_, List.mem_cons_of_mem _ (List.mem_cons_of_mem _
      (List.mem_singleton_self _)), ?_⟩
    simpa [Value.wholeNumbers, wholeNumbersUnder_zip hl] using written

end Capability

end Reckoner
