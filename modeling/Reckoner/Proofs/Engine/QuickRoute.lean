-- Questions for mental arithmetic. Whatever else a question says, one that asks for a square, cube
-- or product of whole numbers is answered with it, exact and checked.
import Reckoner.Proofs.Engine.Answering
import Reckoner.Proofs.Vedic.Exactness
import Reckoner.Proofs.Vedic.Requests

namespace Reckoner

/-! ## Problems -/

/-- The number of plain arithmetic that a problem asks for. A quotient is not asked for. -/
def Vedic.Operation.plainValue? : Vedic.Operation → List Int → Option Int
  | .square, [n] => some (n ^ 2)
  | .cube, [n] => some (n ^ 3)
  | .multiply, [m, n] => some (m * n)
  | _, _ => none

/-- A problem has all numbers of its text as operands, and as many as its operation takes. -/
theorem quickProblem_operands {text : String} {numbers : List Value} {p : QuickProblem}
    (h : quickProblem? text numbers = some p) :
    p.operands = numbers ∧ numbers.length = p.operation.operandNames.length ∧
      p.operation ≠ .divide := by
  unfold quickProblem? at h
  split_ifs at h with hs hc hm <;> cases h
  · simp only [Bool.and_eq_true, decide_eq_true_eq] at hs
    exact ⟨rfl, hs.2, Vedic.Operation.noConfusion⟩
  · simp only [Bool.and_eq_true, decide_eq_true_eq] at hc
    exact ⟨rfl, hc.2, Vedic.Operation.noConfusion⟩
  · simp only [Bool.and_eq_true, decide_eq_true_eq] at hm
    exact ⟨rfl, hm.2, Vedic.Operation.noConfusion⟩

/-! ## Requests -/

namespace Vedic

/-- A number of 300 digits at most. -/
def Moderate (n : Int) : Prop := n.natAbs < 10 ^ 300

theorem moderate_of_small {n : Int} (h : n.natAbs < 10 ^ 10) : Moderate n :=
  h.trans_le (pow_le_pow_right₀ (by decide) (by decide))

/-- A number of 900 digits can be written, so the cube of a moderate one can. -/
theorem writable_of_natAbs_lt {n : Int} {k : Nat} (h : n.natAbs < (10 ^ 300) ^ k) (hk : k ≤ 3) :
    Writable n := by
  rw [writable_iff]
  refine lt_of_lt_of_le h ?_
  rw [← pow_mul]
  exact Nat.pow_le_pow_right (by decide) (by unfold maxDigits; omega)

theorem Moderate.writable {n : Int} (h : Moderate n) : Writable n :=
  writable_of_natAbs_lt (k := 1) (by rwa [pow_one]) (by decide)

theorem Moderate.writable_pow {n : Int} (h : Moderate n) {k : Nat} (hk : k ≠ 0) (hk3 : k ≤ 3) :
    Writable (n ^ k) :=
  writable_of_natAbs_lt (by rw [Int.natAbs_pow]; exact Nat.pow_lt_pow_left h hk) hk3

theorem Moderate.writable_mul {m n : Int} (hm : Moderate m) (hn : Moderate n) :
    Writable (m * n) :=
  writable_of_natAbs_lt (by rw [Int.natAbs_mul, sq]; exact Nat.mul_lt_mul'' hm hn)
    (show 2 ≤ 3 by decide)

theorem Moderate.lt_overflowBound {n : Int} (h : Moderate n) :
    n.natAbs < Double.overflowBound := by
  refine lt_of_lt_of_le h ?_
  calc 10 ^ 300 = (10 ^ 3) ^ 100 := by rw [← pow_mul]
    _ ≤ (2 ^ 10) ^ 100 := Nat.pow_le_pow_left (by norm_num) 100
    _ = 2 ^ 1000 := by rw [← pow_mul]
    _ ≤ Double.overflowBound := Double.two_pow_le_overflowBound

/-- The solution of a problem with moderate numbers is exact. -/
theorem run_whole {o : Operation} {ns : List Int} (hl : ns.length = o.operandNames.length)
    (ho : o ≠ .divide) (hn : ∀ n ∈ ns, Moderate n) :
    ∃ s r, o.run (ns.map .whole) = .ok s ∧ o.plainValue? ns = some r ∧ Answers r s := by
  have solved : ∀ {outcome : Except ValueFault Solution} {l : List Int} {r : Int},
      WrittenWhen outcome l (Answers r) → (∀ n ∈ l, Writable n) →
      ∃ s, outcome = .ok s ∧ Answers r s := by
    rintro outcome l r (⟨-, h⟩ | ⟨⟨n, hn, hw⟩, -⟩) hl
    · exact h
    · exact absurd (hl n hn) hw
  cases o with
  | square =>
    obtain ⟨n, rfl⟩ := List.length_eq_one_iff.1 hl
    have h := hn n (by simp)
    obtain ⟨s, hs, ha⟩ := solved (square_exact n) (by
      simpa using ⟨h.writable, h.writable_pow (by decide) (by decide)⟩)
    exact ⟨s, n ^ 2, by simp [Operation.run, Operation.run?, hs, Except.mapError], rfl, ha⟩
  | cube =>
    obtain ⟨n, rfl⟩ := List.length_eq_one_iff.1 hl
    have h := hn n (by simp)
    obtain ⟨s, hs, ha⟩ := solved (cube_exact n) (by
      simpa using ⟨h.writable, h.writable_pow (by decide) (by decide)⟩)
    exact ⟨s, n ^ 3, by simp [Operation.run, Operation.run?, hs, Except.mapError], rfl, ha⟩
  | multiply =>
    obtain ⟨m, n, rfl⟩ := List.length_eq_two.1 hl
    have h1 := hn m (by simp)
    have h2 := hn n (by simp)
    obtain ⟨s, hs, ha⟩ := solved (multiply_exact m n) (by
      simpa using ⟨h1.writable, h2.writable, h1.writable_mul h2⟩)
    exact ⟨s, m * n, by simp [Operation.run, Operation.run?, hs, Except.mapError], rfl, ha⟩
  | divide => exact absurd rfl ho

theorem handle_moderate {o : Operation} {ns : List Int} (hl : ns.length = o.operandNames.length)
    (ho : o ≠ .divide) (hn : ∀ n ∈ ns, Moderate n) :
    ∃ s r, (Vedic.handle o.name (o.operandNames.zip (ns.map .whole))).outcome = .ok s ∧
      o.plainValue? ns = some r ∧ Answers r s := by
  obtain ⟨s, r, hs, hr, ha⟩ := run_whole hl ho hn
  refine ⟨s, r, ?_, hr, ha⟩
  rw [handle_whole o hl, if_pos fun n h => (hn n h).lt_overflowBound, hs]

end Vedic

/-! ## The engine -/

namespace Engine

/-- The engines that registrations make out of the fresh one. -/
inductive Reachable : Engine → Prop where
  | fresh : Reachable fresh
  | register {engine next : Engine} {c : Capability} :
    Reachable engine → engine.register c = .ok next → Reachable next

theorem register_find? {engine next : Engine} {c d : Capability} {name : String}
    (h : engine.register c = .ok next) (hd : engine.find? name = some d) :
    next.find? name = some d := by
  unfold register at h
  split_ifs at h
  cases h
  unfold find? at hd ⊢
  rw [List.find?_append, hd]
  rfl

/-- No registration takes the place of mental arithmetic. -/
theorem Reachable.find?_vedic {engine : Engine} (h : Reachable engine) :
    engine.find? "vedic" = some .vedic := by
  induction h with
  | fresh => rfl
  | register _ hr ih => exact register_find? hr ih

theorem Reachable.compute_vedic {engine : Engine} (h : Reachable engine) (operation : String)
    {arguments : List (String × Value)}
    (hw : ∀ n ∈ Value.wholeNumbersUnder arguments, Writable n) :
    (engine.compute "vedic" operation arguments).outcome =
      (Vedic.handle operation arguments).outcome := by
  have found : engine.require "vedic" = .ok .vedic := by
    unfold require
    rw [h.find?_vedic]
  unfold compute
  simp only [found, Logged.outcome_bind, Logged.outcome_lift, ok_bind]
  refine timed_outcome _ _ ?_
  intro v hv
  simp only [List.mem_cons, List.not_mem_nil, or_false] at hv
  rcases hv with rfl | rfl | rfl
  · simp [Value.wholeNumbers]
  · simp [Value.wholeNumbers]
  · exact hw

end Engine

/-! ## Questions -/

theorem ofQuestion_quick {text : String} {c : Classification}
    (h : Classification.ofQuestion text = .ok c) :
    ∃ numbers, literalValues (literals text) = .ok numbers ∧
      c.quick = quickProblem? text numbers := by
  unfold Classification.ofQuestion numbersIn at h
  cases hv : literalValues (literals text) with
  | error f =>
    rw [hv] at h
    cases h
  | ok numbers =>
    rw [hv] at h
    simp only [ok_bind, pure, Except.pure, Except.ok.injEq] at h
    exact ⟨numbers, rfl, by rw [← h, Classification.ofRanking]⟩

theorem follow_quick (engine : Engine) (text : String) {c : Classification} {p : QuickProblem}
    (options : Options) {s : Solution} (hp : c.quick = some p)
    (hs : (engine.compute "vedic" p.operation.name
      (p.operation.operandNames.zip p.operands)).outcome = .ok s) :
    (engine.follow text c options).outcome = .ok (some (.vedic, s)) := by
  unfold Engine.follow Engine.solveQuick
  rw [hp]
  simp [hs]

/-- A question with a square, cube or product of moderate numbers in it is answered with it, by
mental arithmetic, exact and checked. The numbers are the literals of the question in order. -/
theorem a_question_for_mental_arithmetic_is_answered_exactly {engine : Engine}
    (reachable : engine.Reachable) {question given : Value} {store : SettingStore} {text : String}
    {c : Classification} {p : QuickProblem} {ns : List Int} {options : Options}
    (ht : questionText question = .ok text) (hc : Classification.ofQuestion text = .ok c)
    (hp : c.quick = some p) (operands : p.operands = ns.map .whole)
    (hn : ∀ n ∈ ns, Vedic.Moderate n)
    (ho : (Engine.readOptions given store).1 = .ok options) :
    ∃ a s r, (engine.solve question given store).1.outcome = .ok a ∧
      a.fault = none ∧ a.method = some "vedic_math" ∧ a.solution = some s ∧
      (∀ l ∈ literals text, l.part = none) ∧
      p.operation.plainValue? ((literals text).map Literal.integer) = some r ∧
      Vedic.Answers r s := by
  obtain ⟨numbers, hv, hquick⟩ := ofQuestion_quick hc
  rw [hp] at hquick
  obtain ⟨rfl, length, asked⟩ := quickProblem_operands hquick.symm
  rw [operands] at hv
  rw [operands, List.length_map] at length
  obtain ⟨whole, rfl⟩ := eq_integers hv
  obtain ⟨s, r, hs, hr, exact⟩ := Vedic.handle_moderate length asked hn
  rw [← operands, ← reachable.compute_vedic] at hs
  · obtain ⟨a, ha, -, -, told⟩ := engine.solve_of_classified given store ht hc
    have done : engine.work text c given store = .ok (some (.vedic, s)) := by
      unfold Engine.work
      rw [ho]
      exact follow_quick engine text options hp hs
    rw [done] at told
    obtain ⟨outcome, fault⟩ := told
    refine ⟨a, s, r, ha, fault, ?_, ?_, whole, hr, exact⟩
    · rw [Answer.method, outcome]
      rfl
    · rw [Answer.solution, outcome]
      rfl
  · rw [operands, wholeNumbersUnder_zip length]
    exact fun n h => (hn n h).writable

/-- The question has a word of calculus in it, and the product is told all the same. -/
theorem the_limit_of_a_product_is_told_as_the_product :
    ∃ a s, (Engine.fresh.solve (.text "Limit of the product of 12 and -7") .nothing {}).1.outcome =
        .ok a ∧
      a.fault = none ∧ a.method = some "vedic_math" ∧ a.solution = some s ∧
      Vedic.Answers (-84) s := by
  have found : literals "Limit of the product of 12 and -7" =
      [⟨false, ['1', '2'], none⟩, ⟨true, ['7'], none⟩] := by decide +kernel
  have square : (ofPhrase "square").occursIn "Limit of the product of 12 and -7" = false := by
    decide +kernel
  have cube : (ofPhrase "cube").occursIn "Limit of the product of 12 and -7" = false := by
    decide +kernel
  have product : anyOccurs (anyWord ["multiply", "product"])
      "Limit of the product of 12 and -7" = true := by
    decide +kernel
  have asked : questionText (.text "Limit of the product of 12 and -7") =
      .ok "Limit of the product of 12 and -7" := rfl
  have options : (Engine.readOptions .nothing {}).1 = .ok ⟨"x", "en"⟩ := rfl
  have readable : ∀ l ∈ literals "Limit of the product of 12 and -7", l.Readable := by
    rw [found]
    decide
  obtain ⟨c, hc⟩ := ofQuestion_of_readable readable
  obtain ⟨numbers, hv, hp⟩ := ofQuestion_quick hc
  rw [found] at hv
  obtain rfl : [.whole 12, .whole (-7)] = numbers := Except.ok.inj hv
  simp only [quickProblem?, square, cube, product, List.length_cons, List.length_nil] at hp
  have operands : [.whole 12, .whole (-7)] = [12, -7].map Value.whole := rfl
  have small : ∀ n ∈ [12, -7], Vedic.Moderate n := by
    simpa using ⟨Vedic.moderate_of_small (by decide), Vedic.moderate_of_small (by decide)⟩
  obtain ⟨a, s, r, ha, fault, method, solution, -, hr, exact⟩ :=
    a_question_for_mental_arithmetic_is_answered_exactly .fresh asked hc hp operands small options
  rw [found] at hr
  obtain rfl : -84 = r := Option.some.inj hr
  exact ⟨a, s, ha, fault, method, solution, exact⟩

end Reckoner
