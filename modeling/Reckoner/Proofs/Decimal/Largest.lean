-- The whole numbers past the largest double. A number has no double closest to it from the middle
-- between the largest double and the next power of two on: there the tie goes up.
import Reckoner.Proofs.Decimal.Finite
import Reckoner.Proofs.Value.Writing

namespace Reckoner

/-! ## Rounding to an even number -/

/-- To the nearest, an even number is reached from the middle below it on. -/
theorem Binary.le_roundShift_nearest_iff {n k shift : Nat} (hs : shift ≠ 0) (hk : k % 2 = 0) :
    k ≤ roundShift .nearest n shift ↔ k * 2 ^ shift ≤ n + 2 ^ (shift - 1) := by
  have half : 2 ^ shift = 2 * 2 ^ (shift - 1) := by
    rw [← pow_succ']
    congr 1
    omega
  have parts := Nat.div_add_mod n (2 ^ shift)
  have rest := Nat.mod_lt n (Nat.two_pow_pos shift)
  have kept : n - n / 2 ^ shift * 2 ^ shift = n % 2 ^ shift := by
    rw [mul_comm]
    omega
  unfold roundShift roundsUp
  simp only [hs, if_false, Nat.shiftRight_eq_div_pow, Nat.shiftLeft_eq, one_mul, kept,
    Bool.or_eq_true, decide_eq_true_eq, Bool.and_eq_true, beq_iff_eq]
  clear kept
  generalize n / 2 ^ shift = m at *
  generalize n % 2 ^ shift = r at *
  rw [← parts]
  rcases lt_trichotomy k (m + 1) with below | rfl | above
  · have : k * 2 ^ shift ≤ 2 ^ shift * m := by
      rw [mul_comm]
      exact Nat.mul_le_mul_left _ (by omega)
    split_ifs <;> omega
  · rw [add_mul, one_mul, mul_comm m]
    split_ifs <;> omega
  · have two : (m + 2) * 2 ^ shift ≤ k * 2 ^ shift := Nat.mul_le_mul_right _ above
    have spread : (m + 2) * 2 ^ shift = 2 ^ shift * m + 2 * 2 ^ shift := by ring
    split_ifs <;> omega

namespace Double

/-! ## The bits of a whole number -/

/-- The least whole number past the largest double: `2 ^ 1024` less half of the last place. -/
def overflowBound : Nat := (2 ^ 54 - 1) * 2 ^ 970

theorem two_pow_le_overflowBound : 2 ^ 1000 ≤ overflowBound := by decide +kernel

/-- The bits of a whole number are those of its exponent and of the digits that are kept. -/
theorem doubleBits_whole {n : Nat} (h : n ≠ 0) (hl : bitLength n ≤ 1024) :
    Binary.doubleBits n 0 = min ((bitLength n + 1021) * 2 ^ 52 +
      if bitLength n ≤ 53 then n <<< (53 - bitLength n)
      else Binary.roundShift .nearest n (bitLength n - 53)) (2047 * 2 ^ 52) := by
  have positive := bitLength_pos h
  unfold Binary.doubleBits
  generalize bitLength n = len at *
  have top : ¬ (1023 : Int) < 0 + len - 1 := by omega
  have normal : (-1022 : Int) ≤ 0 + len - 1 := by omega
  have large : ¬ (0 + len - 1 : Int) < -1100 := by omega
  have shift : (0 + (len : Int) - 1 - 52 ≤ 0) ↔ len ≤ 53 := by omega
  have up : (0 - (0 + (len : Int) - 1 - 52)).toNat = 53 - len := by omega
  have down : (0 + (len : Int) - 1 - 52 - 0).toNat = len - 53 := by omega
  have exponent : (0 + (len : Int) - 1 + 1022).toNat = len + 1021 := by omega
  simp only [h, large, top, normal, shift, up, down, exponent, decide_false, Bool.or_false,
    Bool.false_eq_true, if_false, if_true, Nat.shiftLeft_eq]

/-- A number of more than 1024 binary digits has the bits of the infinite double. -/
theorem doubleBits_long {n : Nat} (h : 1024 < bitLength n) :
    Binary.doubleBits n 0 = 2047 * 2 ^ 52 := by
  have h0 : n ≠ 0 := by
    rintro rfl
    cases h
  have top : (1023 : Int) < 0 + bitLength n - 1 := by omega
  have large : ¬ (0 + bitLength n - 1 : Int) < -1100 := by omega
  simp only [Binary.doubleBits, h0, large, top, decide_false, Bool.or_false, Bool.false_eq_true,
    if_false, if_true, Nat.shiftLeft_eq]

theorem doubleBits_whole_lt_iff (n : Nat) :
    Binary.doubleBits n 0 < 2047 * 2 ^ 52 ↔ n < overflowBound := by
  unfold overflowBound
  have power : 2 ^ 1023 = 2 ^ 53 * 2 ^ 970 := by rw [← pow_add]
  have next : 2 ^ 1024 = 2 ^ 54 * 2 ^ 970 := by rw [← pow_add]
  have unit : 0 < 2 ^ 970 := pow_pos two_pos 970
  have round : 2 ^ 53 ≤ Binary.roundShift .nearest n 971 ↔ 2 ^ 54 * 2 ^ 970 ≤ n + 2 ^ 970 := by
    rw [Binary.le_roundShift_nearest_iff (by decide) (by decide), ← pow_add, ← pow_add]
  rcases eq_or_ne n 0 with rfl | h0
  · exact iff_of_true (by decide) (Nat.mul_pos (by decide) unit)
  have kept := kept_digits_bounds h0
  rcases lt_trichotomy (bitLength n) 1024 with short | exact | long
  · have low : n < 2 ^ 1023 := bitLength_le_iff.1 (by omega)
    rw [power] at low
    rw [doubleBits_whole h0 short.le]
    generalize 2 ^ 970 = unit at *
    exact iff_of_true (by omega) (by omega)
  · -- the digits are rounded up to one more digit from the middle on
    rw [doubleBits_whole h0 exact.le]
    rw [exact, if_neg (by decide)] at kept ⊢
    change 2 ^ 52 ≤ Binary.roundShift .nearest n 971 ∧ _ at kept
    change min (_ + Binary.roundShift .nearest n 971) _ < _ ↔ _
    generalize 2 ^ 970 = unit at *
    generalize Binary.roundShift .nearest n 971 = digits at *
    omega
  · have high : 2 ^ 1024 ≤ n := two_pow_le_of_lt_bitLength long
    rw [next] at high
    rw [doubleBits_long long]
    generalize 2 ^ 970 = unit at *
    exact iff_of_false (by omega) (by omega)

/-! ## The closest double -/

theorem doubleBits_le (n : Nat) : Binary.doubleBits n 0 ≤ 2047 * 2 ^ 52 := by
  rcases eq_or_ne n 0 with rfl | h0
  · decide
  rcases le_or_gt (bitLength n) 1024 with short | long
  · rw [doubleBits_whole h0 short]
    exact min_le_right _ _
  · exact (doubleBits_long long).le

theorem ofInt_isFinite {n : Int} (h : n.natAbs < overflowBound) :
    ∃ x, ofInt? n = some x ∧ x.isFinite = true :=
  ofInt_isFinite_of_bits ((doubleBits_whole_lt_iff _).2 h)

theorem ofInt_eq_none {n : Int} (h : overflowBound ≤ n.natAbs) : ofInt? n = none := by
  have infinite : Binary.doubleBits n.natAbs 0 = 2047 * 2 ^ 52 :=
    le_antisymm (doubleBits_le _) (not_lt.1 ((doubleBits_whole_lt_iff _).not.2 (not_lt.2 h)))
  unfold ofInt? Binary.toFloat Binary.ofInt
  dsimp only
  rw [infinite]
  refine if_pos ?_
  split_ifs <;> rfl

/-- The numbers up to the largest double have 309 digits at most. -/
theorem writable_of_lt_overflowBound {n : Int} (h : n.natAbs < overflowBound) : Writable n := by
  rw [writable_iff]
  exact h.trans_le (by decide +kernel)

end Double

end Reckoner
