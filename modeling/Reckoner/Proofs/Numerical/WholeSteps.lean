-- Steps along a field of whole numbers. Nothing is rounded on the way, and what decides where it ends
-- is how close doubles count as one. Numbers of up to nine digits never do, so among them the way ends
-- at the first point that reaches the end.
import Reckoner.Proofs.Decimal.Nearest
import Reckoner.Proofs.Numerical.Stepping

namespace Reckoner

namespace Numerical

/-! ## Closeness -/

/-- Whole numbers whose doubles are close. -/
def CloseWholes (m n : ℤ) : Prop :=
  ∃ u v, Double.ofInt? m = some u ∧ Double.ofInt? n = some v ∧ isClose u v = true

section Closeness

open Double

variable {x y : Float} {p q : ℚ}

/-- One part in a thousand million of a number below that is less than one. -/
theorem billionth_lt (hx : toRat? x = some p) (small : |p| ≤ 999999999) :
    ∃ r, toRat? (1e-9 * x).abs = some r ∧ r < 1 - 1 / 2 ^ 50 := by
  have part : toRat? (1e-9 : Float) = some (4835703278458517 / 4835703278458516698824704) := by
    decide +kernel
  have size : |4835703278458517 / 4835703278458516698824704 * p| ≤
      4835703278458517 / 4835703278458516698824704 * 999999999 := by
    rw [abs_mul, abs_of_pos (by norm_num)]
    exact mul_le_mul_of_nonneg_left small (by norm_num)
  have top : |4835703278458517 / 4835703278458516698824704 * p| ≤ 2 ^ (1000 : ℤ) :=
    (size.trans (by norm_num)).trans (two_zpow_mono (show (0 : ℤ) ≤ 1000 by decide))
  obtain ⟨r, hr, near⟩ := mul_near part hx top
  refine ⟨|r|, toRat?_abs hr, near.bounds.1.trans_lt ?_⟩
  linarith

/-- Numbers of up to nine digits that lie one apart are not close. -/
theorem not_isClose (hx : toRat? x = some p) (hy : toRat? y = some q) (apart : 1 ≤ |q - p|)
    (hp : |p| ≤ 999999999) (hq : |q| ≤ 999999999) : isClose x y = false := by
  have small : |q - p| ≤ 2 ^ (31 : ℤ) := by
    have := abs_sub q p
    norm_num
    linarith
  obtain ⟨g, hg, near⟩ := sub_near hy hx (small.trans (two_zpow_mono (by decide)))
  have wide : 1 - 1 / 2 ^ 50 ≤ |g| := by
    have := near.bounds.2
    linarith
  obtain ⟨r, hr, partX⟩ := billionth_lt hx hp
  obtain ⟨t, ht, partY⟩ := billionth_lt hy hq
  have least : toRat? (1e-12 : Float) = some (4951760157141521 / 4951760157141521099596496896) := by
    decide +kernel
  have gap := toRat?_abs hg
  have different : (x == y) = false := by
    rw [← Bool.not_eq_true, beq_iff_of_values hx hy]
    rintro rfl
    norm_num at apart
  have beyondX : ¬ (y - x).abs ≤ (1e-9 * x).abs := by
    rw [le_iff_of_values gap hr]
    linarith
  have beyondY : ¬ (y - x).abs ≤ (1e-9 * y).abs := by
    rw [le_iff_of_values gap ht]
    linarith
  have beyondLeast : ¬ (y - x).abs ≤ 1e-12 := by
    rw [le_iff_of_values gap least]
    norm_num
    linarith
  simp [isClose, different, not_isInf_of_value hx, not_isInf_of_value hy, beyondX, beyondY,
    beyondLeast]

/-- Among numbers of up to nine digits, different ones are not close. -/
theorem not_closeWholes {m n : ℤ} (apart : m ≠ n) (hm : m.natAbs < 10 ^ 9) (hn : n.natAbs < 10 ^ 9) :
    ¬ CloseWholes m n := by
  rintro ⟨u, v, hu, hv, close⟩
  obtain ⟨u', hu', valueU⟩ := ofInt_value (hm.trans (by decide))
  obtain ⟨v', hv', valueV⟩ := ofInt_value (hn.trans (by decide))
  obtain rfl := Option.some.inj (hu.symm.trans hu')
  obtain rfl := Option.some.inj (hv.symm.trans hv')
  have small : ∀ k : ℤ, k.natAbs < 10 ^ 9 → |(k : ℚ)| ≤ 999999999 := by
    intro k hk
    have size : |k| ≤ 999999999 := by
      rw [Int.abs_eq_natAbs]
      omega
    exact_mod_cast size
  have gap : 1 ≤ |(n : ℚ) - m| := by
    have gap : 1 ≤ |n - m| := Int.one_le_abs (sub_ne_zero.2 apart.symm)
    exact_mod_cast gap
  rw [not_isClose valueU valueV gap (small m hm) (small n hn)] at close
  cases close

end Closeness

/-! ## The way -/

/-- The height after so many steps along a field of whole numbers. -/
def wholeHeight (g : ℤ → ℤ → ℤ) (a y d : ℤ) : ℕ → ℤ
  | 0 => y
  | k + 1 => wholeHeight g a y d k + d * g (a + k * d) (wholeHeight g a y d k)

/-- A whole number has a double. -/
def HasDouble (n : ℤ) : Prop := n.natAbs < Double.overflowBound

instance (n : ℤ) : Decidable (HasDouble n) := inferInstanceAs (Decidable (_ < _))

section Way

variable {f : SlopeField} {g : ℤ → ℤ → ℤ} {a y b d : ℤ} {k : ℕ}

theorem coordinateAt_whole (a d : ℤ) (k : ℕ) :
    coordinateAt (.whole a) (.whole d) k = .ok (.whole (a + k * d)) := by
  cases k with
  | zero => simp [coordinateAt]
  | succ k => rfl

theorem heightAt_whole (hf : ∀ m n, f (.whole m) (.whole n) = .ok (.whole (g m n))) (k : ℕ) :
    heightAt f (.whole a) (.whole y) (.whole d) k = .ok (.whole (wholeHeight g a y d k)) := by
  induction k with
  | zero => rfl
  | succ k ih =>
    rw [heightAt, ih, ok_bind, coordinateAt_whole, ok_bind, hf]
    rfl

theorem beforeAt_whole (a b d : ℤ) (k : ℕ) :
    beforeAt (.whole a) (.whole b) (.whole d) k = .ok (decide (a + k * d < b)) := by
  rw [beforeAt, coordinateAt_whole, ok_bind, Value.less_whole]

theorem toFloat_whole_iff {n : ℤ} {u : Float} :
    (Value.whole n).toFloat = .ok u ↔ Double.ofInt? n = some u := by
  change (Quantity.whole n).toFloat = _ ↔ _
  rw [Quantity.toFloat]
  cases hx : Double.ofInt? n <;> simp

theorem hasDouble_iff {n : ℤ} : HasDouble n ↔ ∃ u, (Value.whole n).toFloat = .ok u := by
  constructor
  · intro h
    obtain ⟨u, hu, -⟩ := Double.ofInt_isFinite h
    exact ⟨u, toFloat_whole_iff.2 hu⟩
  · rintro ⟨u, hu⟩
    exact natAbs_lt_of_toFloat hu

theorem closeAt_whole {c : Bool} : closeAt (.whole a) (.whole b) (.whole d) k = .ok c ↔
    ∃ u v, Double.ofInt? (a + k * d) = some u ∧ Double.ofInt? b = some v ∧ isClose u v = c := by
  simp only [closeAt, coordinateAt_whole, ok_bind, bind_eq_ok_iff, toFloat_whole_iff, pure,
    Except.pure, Except.ok.injEq, exists_and_left]

theorem goesOn_whole_iff : GoesOn (.whole a) (.whole b) (.whole d) k ↔
    a + k * d < b ∧ HasDouble (a + k * d) ∧ HasDouble b ∧ ¬ CloseWholes (a + k * d) b := by
  rw [GoesOn, beforeAt_whole, closeAt_whole, hasDouble_iff, hasDouble_iff]
  simp only [Except.ok.injEq, decide_eq_true_eq, toFloat_whole_iff, CloseWholes]
  refine and_congr_right fun _ => ⟨?_, ?_⟩
  · rintro ⟨u, v, hu, hv, far⟩
    refine ⟨⟨u, hu⟩, ⟨v, hv⟩, ?_⟩
    rintro ⟨u', v', hu', hv', close⟩
    cases hu.symm.trans hu'
    cases hv.symm.trans hv'
    rw [far] at close
    cases close
  · rintro ⟨⟨u, hu⟩, ⟨v, hv⟩, far⟩
    exact ⟨u, v, hu, hv, by simpa using fun close => far ⟨u, v, hu, hv, close⟩⟩

theorem endsAt_whole_iff : EndsAt (.whole a) (.whole b) (.whole d) k ↔
    b ≤ a + k * d ∨ CloseWholes (a + k * d) b := by
  rw [EndsAt, beforeAt_whole, closeAt_whole]
  simp only [Except.ok.injEq, decide_eq_false_iff_not, decide_eq_true_eq, not_lt]
  change b ≤ a + k * d ∨ a + k * d < b ∧ CloseWholes (a + k * d) b ↔ _
  refine ⟨fun h => h.imp_right And.right, fun h => ?_⟩
  by_cases reached : b ≤ a + k * d
  · exact .inl reached
  · exact .inr ⟨not_le.1 reached, h.resolve_left reached⟩

/-- Where the way of whole steps ends: at the first point that reaches the end or is close to it. -/
def IsLastStep (a b d : ℤ) (K : ℕ) : Prop :=
  IsLeast {k : ℕ | b ≤ a + k * d ∨ CloseWholes (a + k * d) b} K

theorem exists_isLastStep (a b : ℤ) (hd : 1 ≤ d) : ∃ K, IsLastStep a b d K := by
  have reached : ∃ k : ℕ, b ≤ a + k * d ∨ CloseWholes (a + k * d) b := by
    refine ⟨(b - a).toNat, .inl ?_⟩
    have far : ((b - a).toNat : ℤ) ≤ (b - a).toNat * d := le_mul_of_one_le_right (by omega) hd
    omega
  classical exact ⟨Nat.find reached, Nat.find_spec reached, fun k hk => Nat.find_min' reached hk⟩

theorem IsLastStep.endsAt {K : ℕ} (h : IsLastStep a b d K) :
    EndsAt (.whole a) (.whole b) (.whole d) K := endsAt_whole_iff.2 h.1

/-- The points on the way lie between the start and the end, and so have doubles if these do. -/
theorem IsLastStep.goesOn {K : ℕ} (h : IsLastStep a b d K) (hd : 1 ≤ d)
    (doubles : a < b → HasDouble a ∧ HasDouble b) (hk : k < K) :
    GoesOn (.whole a) (.whole b) (.whole d) k := by
  have before : ¬ (b ≤ a + k * d ∨ CloseWholes (a + k * d) b) := fun stops =>
    (h.2 stops).not_gt hk
  rw [not_or, not_le] at before
  have forward : 0 ≤ (k : ℤ) * d := by positivity
  obtain ⟨start, stop⟩ := doubles (by omega)
  refine goesOn_whole_iff.2 ⟨before.1, ?_, stop, before.2⟩
  unfold HasDouble at *
  omega

/-- The way among numbers of up to nine digits ends at the first point that reaches the end. -/
theorem IsLastStep.isLeast {K : ℕ} (h : IsLastStep a b d K) (hd : 1 ≤ d)
    (ha : a.natAbs < 10 ^ 9) (hb : b.natAbs < 10 ^ 9) : IsLeast {k : ℕ | b ≤ a + k * d} K := by
  refine ⟨?_, fun k hk => h.2 (.inl hk)⟩
  change b ≤ a + K * d
  by_contra before
  have before := not_le.1 before
  have forward : 0 ≤ (K : ℤ) * d := by positivity
  have close := h.1.resolve_left (not_le.2 before)
  exact not_closeWholes before.ne (by omega) hb close

/-! ## Solutions -/

theorem not_lessEqual_zero (hd : 1 ≤ d) : (Value.whole d).lessEqual (.whole 0) = .ok false := by
  refine lessEqual_zero_of_positive ?_
  rw [Value.less_whole, decide_eq_true (show 0 < d by omega)]

theorem recordedPoint_whole (hf : ∀ m n, f (.whole m) (.whole n) = .ok (.whole (g m n))) (k : ℕ) :
    ∃ p, recordedPoint f (.whole a) (.whole y) (.whole d) k = .ok p := by
  cases k with
  | zero => exact ⟨_, rfl⟩
  | succ k =>
    rw [recordedPoint, coordinateAt_whole, ok_bind, heightAt_whole hf]
    exact ⟨_, rfl⟩

theorem fixed_whole {n : ℤ} (h : HasDouble n) (places : ℕ) :
    ∃ s, (Value.whole n).fixed places = .ok s := by
  obtain ⟨u, hu⟩ := hasDouble_iff.1 h
  refine ⟨Double.fixed places u, ?_⟩
  change (do return Double.fixed places (← (Value.whole n).toFloat)) = _
  rw [hu]
  rfl

theorem recordedLine_whole (hf : ∀ m n, f (.whole m) (.whole n) = .ok (.whole (g m n)))
    (ha : Writable a) (hy : Writable y)
    (hk : 1 ≤ k → HasDouble (a + k * d) ∧ HasDouble (wholeHeight g a y d k)) :
    ∃ l, recordedLine f (.whole a) (.whole y) (.whole d) k = .ok l := by
  cases k with
  | zero =>
    refine Value.exists_line_of_writable ?_
    simp [Value.wholeNumbers, ha, hy]
  | succ k =>
    obtain ⟨coordinate, height⟩ := hk (by omega)
    obtain ⟨left, hleft⟩ := fixed_whole coordinate 4
    obtain ⟨right, hright⟩ := fixed_whole height 6
    rw [recordedLine, coordinateAt_whole, ok_bind, heightAt_whole hf, ok_bind, hleft, ok_bind,
      hright]
    exact ⟨_, rfl⟩

/-- On whole numbers, the steps end at the first point that reaches the end or is close to it, which
among numbers of up to nine digits is the first one that reaches it. The solution is there if the
start can be written, both ends have doubles where there is a way between them, and so have the points
of the steps that get a line; its value is the exact height of the last point. -/
theorem whole_steps_end_at_the_first_close_point (hd : 1 ≤ d)
    (hf : ∀ m n, f (.whole m) (.whole n) = .ok (.whole (g m n))) (a y b : ℤ) :
    ∃ K, IsLeast {k : ℕ | b ≤ a + k * d ∨ CloseWholes (a + k * d) b} K ∧ (b ≤ a → K = 0) ∧
      (a.natAbs < 10 ^ 9 → b.natAbs < 10 ^ 9 → IsLeast {k : ℕ | b ≤ a + k * d} K) ∧
      (Writable a → Writable y → (a < b → HasDouble a ∧ HasDouble b) →
        (∀ k, 1 ≤ k → k ≤ min K 10 → HasDouble (a + k * d) ∧ HasDouble (wholeHeight g a y d k)) →
        ∃ s, euler f (.whole a) (.whole y) (.whole b) (.whole d) = .ok s ∧
          s.answer = .whole (wholeHeight g a y d K) ∧
          TellsTrail f (.whole a) (.whole y) (.whole b) (.whole d) K s) := by
  obtain ⟨K, last⟩ := exists_isLastStep a b hd
  refine ⟨K, last, fun past => ?_, last.isLeast hd, fun writeA writeY doubles lines => ?_⟩
  · exact Nat.le_zero.1 (last.2 (.inl (by simpa using past)))
  · have goes : ∀ k < K, GoesOn (.whole a) (.whole b) (.whole d) k := fun k hk =>
      last.goesOn hd doubles hk
    obtain ⟨s, returned⟩ := (exists_euler_iff (not_lessEqual_zero hd)).2 ⟨K, goes, last.endsAt,
      fun k _ => recordedPoint_whole hf k, fun k hk =>
        recordedLine_whole hf writeA writeY fun first => lines k first hk⟩
    obtain ⟨K', tells⟩ := tellsTrail_of_euler (not_lessEqual_zero hd) returned
    obtain rfl := tells.ends.eq tells.goes_on last.endsAt goes
    exact ⟨s, returned, Except.ok.inj (tells.answer.symm.trans (heightAt_whole hf K')), tells⟩

/-- Two steps from one along the field of the sums. -/
theorem two_whole_steps_reach_two :
    ∃ s, euler (fun x y => x.add y) (.whole 0) (.whole 1) (.whole 2) (.whole 1) = .ok s ∧
      s.answer = .whole 5 ∧ ("step_count", .whole 2) ∈ s.details := by
  obtain ⟨K, -, -, few, returns⟩ := whole_steps_end_at_the_first_close_point
    (f := fun x y => x.add y) (g := fun m n => m + n) (le_refl 1) (fun _ _ => rfl) 0 1 2
  have two : IsLeast {k : ℕ | (2 : ℤ) ≤ 0 + k * 1} 2 := ⟨by simp, fun k hk => by simpa using hk⟩
  obtain rfl := (few (by decide) (by decide)).unique two
  obtain ⟨s, returned, answer, tells⟩ := returns (by decide) (by decide)
    (fun _ => ⟨by decide +kernel, by decide +kernel⟩) fun k first last => by
      obtain rfl | rfl : k = 1 ∨ k = 2 := by omega
      · exact ⟨by decide +kernel, by decide +kernel⟩
      · exact ⟨by decide +kernel, by decide +kernel⟩
  obtain ⟨points, details, -⟩ := tells.details
  exact ⟨s, returned, answer, by rw [details]; simp [Value.whole]⟩

/-- No step is made from a thousand million to the next number, as the two are close, and there is no
solution from a number that has no double. -/
theorem a_thousand_million_is_close_to_the_next_number :
    (∃ s, euler (fun _ _ => .ok (.whole 1)) (.whole (10 ^ 9)) (.whole 0) (.whole (10 ^ 9 + 1))
        (.whole 1) = .ok s ∧ ("step_count", .whole 0) ∈ s.details ∧ s.answer = .whole 0) ∧
      ¬ IsLeast {k : ℕ | (10 ^ 9 + 1 : ℤ) ≤ 10 ^ 9 + k * 1} 0 ∧
      ∀ s, euler (fun _ _ => .ok (.whole 0)) (.whole (-2 ^ 1024)) (.whole 0) (.whole 0)
        (.whole (2 ^ 1024)) ≠ .ok s := by
  refine ⟨?_, ?_, ?_⟩
  · have returns : (euler (fun _ _ => .ok (.whole 1)) (.whole (10 ^ 9)) (.whole 0)
        (.whole (10 ^ 9 + 1)) (.whole 1)).isOk = true := by decide +kernel
    obtain ⟨s, hs⟩ := exists_of_isOk returns
    obtain ⟨K, tells⟩ := tellsTrail_of_euler (not_lessEqual_zero (le_refl 1)) hs
    have start : EndsAt (.whole (10 ^ 9)) (.whole (10 ^ 9 + 1)) (.whole 1) 0 := .inr ⟨rfl, rfl⟩
    obtain rfl := tells.ends.eq tells.goes_on start fun k hk => absurd hk (Nat.not_lt_zero k)
    obtain ⟨points, details, -⟩ := tells.details
    exact ⟨s, hs, by rw [details]; simp [Value.whole], (Except.ok.inj tells.answer).symm⟩
  · rintro ⟨reached, -⟩
    simp at reached
  · intro s hs
    have fails : (euler (fun _ _ => .ok (.whole 0)) (.whole (-2 ^ 1024)) (.whole 0) (.whole 0)
        (.whole (2 ^ 1024))).isOk = false := by decide +kernel
    rw [hs] at fails
    cases fails

end Way

end Numerical

end Reckoner
