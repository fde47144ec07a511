-- Binary digits: how many a number has, and what is left of it without its lowest ones.
import Mathlib.Data.Nat.Bitwise
import Mathlib.Data.Nat.Log
import Mathlib.Tactic.Ring
import Reckoner.Number.Binary

namespace Reckoner

/-! ## The number of digits -/

theorem bitLength_le_iff {n k : Nat} : bitLength n ≤ k ↔ n < 2 ^ k := by
  unfold bitLength
  split_ifs with h
  · subst h
    simp
  · rw [Nat.succ_le_iff, Nat.log2_lt h]

theorem lt_two_pow_bitLength (n : Nat) : n < 2 ^ bitLength n := bitLength_le_iff.1 le_rfl

theorem two_pow_le_of_lt_bitLength {n k : Nat} (h : k < bitLength n) : 2 ^ k ≤ n := by
  by_contra hn
  exact absurd (bitLength_le_iff.2 (not_le.1 hn)) (by omega)

theorem bitLength_pos {n : Nat} (h : n ≠ 0) : 0 < bitLength n := by
  unfold bitLength
  rw [if_neg h]
  omega

theorem bitLength_mono {m n : Nat} (h : m ≤ n) : bitLength m ≤ bitLength n :=
  bitLength_le_iff.2 (h.trans_lt (lt_two_pow_bitLength n))

/-! ## The lowest one -/

theorem lowestOne_odd (m : Nat) : (2 * m + 1) ^^^ ((2 * m + 1) &&& (2 * m)) = 1 := by
  change Nat.bit true m ^^^ (Nat.bit true m &&& Nat.bit false m) = 1
  rw [Nat.land_bit, Nat.xor_bit, Nat.and_self, Nat.xor_self]
  rfl

theorem lowestOne_even {m : Nat} (h : m ≠ 0) :
    (2 * m) ^^^ ((2 * m) &&& (2 * m - 1)) = 2 * (m ^^^ (m &&& (m - 1))) := by
  have odd : 2 * m - 1 = 2 * (m - 1) + 1 := by omega
  rw [odd]
  change Nat.bit false m ^^^ (Nat.bit false m &&& Nat.bit true (m - 1)) = _
  rw [Nat.land_bit, Nat.xor_bit]
  rfl

theorem lowestOne_ne_zero {n : Nat} (h : n ≠ 0) : n ^^^ (n &&& (n - 1)) ≠ 0 := by
  induction n using Nat.strongRecOn with
  | ind n ih =>
    rcases Nat.even_or_odd' n with ⟨m, rfl | rfl⟩
    · rw [lowestOne_even (by omega)]
      have := ih m (by omega) (by omega)
      omega
    · rw [Nat.add_sub_cancel, lowestOne_odd]
      exact one_ne_zero

theorem two_pow_trailingZeros_dvd {n : Nat} (h : n ≠ 0) : 2 ^ trailingZeros n ∣ n := by
  induction n using Nat.strongRecOn with
  | ind n ih =>
    unfold trailingZeros at ih ⊢
    rcases Nat.even_or_odd' n with ⟨m, rfl | rfl⟩
    · have hm : m ≠ 0 := by omega
      rw [lowestOne_even hm, Nat.log2_two_mul (lowestOne_ne_zero hm), pow_succ']
      exact Nat.mul_dvd_mul_left 2 (ih m (by omega) hm)
    · rw [Nat.add_sub_cancel, lowestOne_odd]
      exact one_dvd _

/-! ## Dropped digits -/

namespace Binary

/-- Whatever the mode, the result is one of the two whole numbers around the quotient. -/
theorem roundShift_bounds (mode : Rounding) (n shift : Nat) :
    n / 2 ^ shift ≤ roundShift mode n shift ∧ roundShift mode n shift ≤ n / 2 ^ shift + 1 := by
  unfold roundShift
  simp only [Nat.shiftRight_eq_div_pow]
  split_ifs with h
  · subst h
    simp
  · omega
  · omega

/-- To the nearest, the result is off by half a unit at most. -/
theorem roundShift_nearest (n : Nat) {shift : Nat} (h : shift ≠ 0) :
    n ≤ roundShift .nearest n shift * 2 ^ shift + 2 ^ (shift - 1) ∧
      roundShift .nearest n shift * 2 ^ shift ≤ n + 2 ^ (shift - 1) := by
  have half : 2 ^ shift = 2 * 2 ^ (shift - 1) := by
    rw [← pow_succ']
    congr 1
    omega
  have parts := Nat.div_add_mod n (2 ^ shift)
  have rest := Nat.mod_lt n (Nat.two_pow_pos shift)
  have kept : n - n / 2 ^ shift * 2 ^ shift = n % 2 ^ shift := by
    rw [mul_comm]
    omega
  unfold roundShift roundsUp
  simp only [h, if_false, Nat.shiftRight_eq_div_pow, Nat.shiftLeft_eq, one_mul, kept]
  rw [mul_comm] at parts
  split_ifs with hup
  · simp only [Bool.or_eq_true, decide_eq_true_eq, Bool.and_eq_true, beq_iff_eq] at hup
    rw [add_mul, one_mul]
    omega
  · simp only [Bool.or_eq_true, decide_eq_true_eq, Bool.and_eq_true, beq_iff_eq, not_or] at hup
    omega

end Binary

end Reckoner
