-- The double of a part of a whole, which is not above one, and the sign of a quotient of doubles.
import Reckoner.Proofs.Decimal.Nearest

namespace Reckoner

namespace Double

open Float.Model Float.Model.UnpackedFloat

/-! ## Parts of a whole -/

/-- A binary fraction below one has the bits of a double that is not above one. -/
theorem doubleBits_fraction {n : ℕ} {e : ℤ} (h : e + bitLength n ≤ 0) :
    Binary.doubleBits n e ≤ 1023 * 2 ^ 52 := by
  rcases eq_or_ne n 0 with rfl | hn
  · simp [Binary.doubleBits]
  have kept := kept_digits_bounds hn
  have size := lt_two_pow_bitLength n
  unfold Binary.doubleBits
  generalize bitLength n = len at *
  simp only [hn, decide_false, Bool.false_or, decide_eq_true_eq]
  split_ifs with small top normal few few
  · exact Nat.zero_le _
  · omega
  · have up : (e - (e + (len : ℤ) - 1 - 52)).toNat = 53 - len := by omega
    rw [if_pos (by omega)] at kept
    rw [up]
    refine (min_le_left _ _).trans ?_
    rw [Nat.shiftLeft_eq]
    omega
  · have down : (e + (len : ℤ) - 1 - 52 - e).toNat = len - 53 := by omega
    rw [if_neg (by omega)] at kept
    rw [down]
    refine (min_le_left _ _).trans ?_
    rw [Nat.shiftLeft_eq]
    omega
  · -- below the exponents, there are fewer digits
    refine (min_le_left _ _).trans ?_
    rw [Nat.shiftLeft_eq, Nat.zero_add]
    have digits : n * 2 ^ (e - -1074).toNat ≤ 2 ^ len * 2 ^ (e - -1074).toNat :=
      Nat.mul_le_mul_right _ size.le
    rw [← pow_add] at digits
    exact digits.trans ((Nat.pow_le_pow_right two_pos (show _ ≤ 52 by omega)).trans (by decide))
  · refine (min_le_left _ _).trans ?_
    rw [Nat.zero_add]
    have bounds := Binary.roundShift_bounds .nearest n (-1074 - e).toNat
    have digits : n / 2 ^ (-1074 - e).toNat < 2 ^ 52 := by
      rw [Nat.div_lt_iff_lt_mul (Nat.two_pow_pos _), ← pow_add]
      exact size.trans_le (Nat.pow_le_pow_right two_pos (by omega))
    omega

/-- The bits of one. -/
theorem doubleBits_one (k : ℕ) : Binary.doubleBits (2 ^ k) (-k) ≤ 1023 * 2 ^ 52 := by
  have hn : 2 ^ k ≠ 0 := (Nat.two_pow_pos k).ne'
  have length : bitLength (2 ^ k) = k + 1 := by rw [bitLength, if_neg hn, Nat.log2_two_pow]
  unfold Binary.doubleBits
  simp only [length, hn, decide_false, Bool.false_or, decide_eq_true_eq]
  have normal : (-1022 : ℤ) ≤ -(k : ℤ) + (k + 1 : ℕ) - 1 := by omega
  have tiny : ¬ -(k : ℤ) + (k + 1 : ℕ) - 1 < -1100 := by omega
  have top : ¬ (1023 : ℤ) < -(k : ℤ) + (k + 1 : ℕ) - 1 := by omega
  have first : (-(k : ℤ) + (k + 1 : ℕ) - 1 + 1022).toNat = 1022 := by omega
  have up : (-(k : ℤ) - (-(k : ℤ) + (k + 1 : ℕ) - 1 - 52)).toNat = 52 - k := by omega
  have down : (-(k : ℤ) + (k + 1 : ℕ) - 1 - 52 - -(k : ℤ)).toNat = k - 52 := by omega
  simp only [normal, tiny, top, first, up, down, if_true, if_false]
  refine (min_le_left _ _).trans ?_
  rw [Nat.shiftLeft_eq]
  split_ifs with few
  · rw [Nat.shiftLeft_eq, ← pow_add, show k + (52 - k) = 52 by omega]
    decide
  · -- only zeros are dropped
    have shift : k - 52 ≠ 0 := by omega
    have near := (Binary.roundShift_nearest (2 ^ k) shift).2
    have whole : 2 ^ k = 2 ^ 52 * 2 ^ (k - 52) := by
      rw [← pow_add]
      congr 1
      omega
    have half : 2 ^ (k - 52 - 1) < 2 ^ (k - 52) := Nat.pow_lt_pow_right (by decide) (by omega)
    have strict : Binary.roundShift .nearest (2 ^ k) (k - 52) * 2 ^ (k - 52) <
        (2 ^ 52 + 1) * 2 ^ (k - 52) := by
      rw [add_mul, one_mul]
      omega
    have := Nat.lt_of_mul_lt_mul_right strict
    omega

/-- A part of a whole has the bits of a double that is not above one. -/
theorem doubleBits_part {n k : ℕ} (h : n ≤ 2 ^ k) : Binary.doubleBits n (-k) ≤ 1023 * 2 ^ 52 := by
  rcases h.lt_or_eq with below | rfl
  · exact doubleBits_fraction (by have := bitLength_le_iff.2 below; omega)
  · exact doubleBits_one k

theorem tiny_le_one (k : ℤ) {e : ℤ} (h : k + e ≤ 0) : (2 : ℚ) ^ k * 2 ^ e ≤ 1 := by
  rw [← two_zpow_add]
  exact zpow_le_one_of_nonpos₀ one_le_two h

/-- The bits up to those of one are the bits of parts of a whole. -/
theorem ofBits_part {u : UInt64} (h : u.toNat ≤ 1023 * 2 ^ 52) :
    ∃ q, toRat? (Float.ofBits u) = some q ∧ 0 ≤ q ∧ q ≤ 1 := by
  have sign : decide (1 <<< 63 ≤ u.toNat) = false := by
    rw [decide_eq_false_iff_not]
    omega
  rcases Nat.eq_zero_or_pos (u.toNat / 2 ^ 52 % 2 ^ 11) with tiny | normal
  · have exponent : @unpackExponent Format.binary64 u.toBitVec = 0#_ := by
      apply BitVec.eq_of_toNat_eq
      rw [BitVec.toNat_ofNat, Nat.zero_mod, ← tiny]
      simp [unpackExponent, Nat.shiftRight_eq_div_pow]
    rw [toRat?_ofBits]
    unfold UnpackedFloat.unpack
    dsimp only
    rw [if_neg (by rw [exponent]; decide), if_pos exponent, exponent]
    split_ifs with none
    · exact ⟨0, rfl, le_rfl, zero_le_one⟩
    · have few : (@unpackMantissa Format.binary64 u.toBitVec).toNat < 2 ^ 52 :=
        (@unpackMantissa Format.binary64 u.toBitVec).isLt
      rw [partsValue?, apply_sign_of_bits, sign, withSign, if_neg Bool.false_ne_true]
      refine ⟨_, rfl, mul_nonneg (by simp) (two_zpow_pos _).le, ?_⟩
      refine (mul_le_mul_of_nonneg_right ?_ (two_zpow_pos _).le).trans (tiny_le_one 52 (by decide))
      exact_mod_cast few.le
  · refine ⟨_, ofBits_value rfl normal (by omega), ?_⟩
    rw [sign, withSign, if_neg Bool.false_ne_true, Int.cast_natCast]
    refine ⟨mul_nonneg (Nat.cast_nonneg _) (two_zpow_pos _).le, ?_⟩
    -- with the exponent of one, no digit is set behind the first
    generalize hp : u.toNat / 2 ^ 52 % 2 ^ 11 = p at *
    rcases Nat.lt_or_ge p 1023 with below | full
    · have few : 2 ^ 52 + u.toNat % 2 ^ 52 ≤ 2 ^ 53 := by omega
      refine (mul_le_mul_of_nonneg_right ?_ (two_zpow_pos _).le).trans
        (tiny_le_one 53 (e := p - 1075) (by omega))
      exact_mod_cast few
    · obtain rfl : p = 1023 := by omega
      have one : 2 ^ 52 + u.toNat % 2 ^ 52 ≤ 2 ^ 52 := by omega
      refine (mul_le_mul_of_nonneg_right ?_ (two_zpow_pos _).le).trans
        (tiny_le_one 52 (e := (1023 : ℕ) - 1075) (by decide))
      exact_mod_cast one

/-- The double of a part of a whole. -/
theorem toFloat_part {n k : ℕ} (h : n ≤ 2 ^ k) :
    ∃ q, toRat? (Binary.toFloat ⟨n, -k⟩) = some q ∧ 0 ≤ q ∧ q ≤ 1 := by
  have bits := doubleBits_part h
  have sign : ¬ (n : ℤ) < 0 := by omega
  unfold Binary.toFloat
  dsimp only
  rw [if_neg sign, Int.natAbs_natCast]
  refine ofBits_part ?_
  rw [UInt64.toNat_ofNat', Nat.mod_eq_of_lt (by omega)]
  exact bits

/-- The double of a quotient of whole numbers that is not above one. -/
theorem ofQuotient_part {m n : ℕ} (hn : 0 < n) (h : m ≤ n) :
    ∃ x q, ofQuotient? m n = some x ∧ toRat? x = some q ∧ 0 ≤ q ∧ q ≤ 1 := by
  have digits : ∀ shift, 2 * (m <<< shift / n) + (if m <<< shift % n = 0 then 0 else 1) ≤
      2 ^ (shift + 1) := by
    intro shift
    have scaled : m <<< shift ≤ n * 2 ^ shift := by
      rw [Nat.shiftLeft_eq]
      exact Nat.mul_le_mul_right _ h
    have quotient := Nat.div_add_mod (m <<< shift) n
    have twice : 2 ^ (shift + 1) = 2 * 2 ^ shift := pow_succ' 2 shift
    rw [twice]
    generalize m <<< shift = a at *
    rcases Nat.lt_or_ge (a / n) (2 ^ shift) with below | full
    · split_ifs <;> omega
    · -- the quotient is one, and nothing is left
      have least : n * 2 ^ shift ≤ n * (a / n) := Nat.mul_le_mul_left n full
      have whole : a / n = 2 ^ shift :=
        le_antisymm (Nat.le_of_mul_le_mul_left (by omega : n * (a / n) ≤ n * 2 ^ shift) hn) full
      rw [if_pos (by omega)]
      omega
  have positive : (decide ((m : ℤ) < 0) != decide ((n : ℤ) < 0)) = false := by
    rw [decide_eq_false (by omega : ¬ (m : ℤ) < 0), decide_eq_false (by omega : ¬ (n : ℤ) < 0)]
    rfl
  have shifts : ∀ shift : ℕ, -(shift : ℤ) - 1 = -((shift + 1 : ℕ) : ℤ) := by
    intro shift
    omega
  unfold ofQuotient?
  simp only [Int.natAbs_natCast, positive, withSign, Bool.false_eq_true, if_false, shifts]
  obtain ⟨q, hq, low, high⟩ := toFloat_part (digits (70 + bitLength n - bitLength m))
  rw [if_neg (Bool.not_eq_true _ ▸ not_isInf_of_value hq)]
  exact ⟨_, q, rfl, hq, low, high⟩

/-! ## Signs -/

/-- Bits under a positive sign are those of no double below zero. -/
theorem not_unpack_lt_zero {b : BitVec Format.binary64.numBits}
    (h : Sign.ofBitVec (unpackSign b) = .positive) :
    ¬ UnpackedFloat.lt (UnpackedFloat.unpack .binary64 b) (.zero .positive) = true := by
  unfold UnpackedFloat.unpack
  simp only [h]
  split_ifs <;> exact Bool.false_ne_true

/-- Rounding keeps the sign. -/
theorem roundWithAccuracy_sign (s : Sign) (m : ℕ) (e : ℤ) (acc : Accuracy) :
    roundWithAccuracy .binary64 s m e acc = .zero s ∨
      ∃ n f hn, roundWithAccuracy .binary64 s m e acc = .finite s n f hn := by
  unfold roundWithAccuracy
  dsimp only
  split_ifs with none
  · exact .inl rfl
  · exact .inr ⟨_, _, Nat.pos_of_ne_zero none, rfl⟩

theorem sign_pack {u : UnpackedFloat}
    (h : u = .zero .positive ∨ ∃ m e hm, u = .finite .positive m e hm) :
    Sign.ofBitVec (unpackSign (UnpackedFloat.pack .binary64 u)) = .positive := by
  rcases h with rfl | ⟨m, e, hm, rfl⟩
  · exact sign_packComponents _ _ _
  · unfold UnpackedFloat.pack
    dsimp only
    split_ifs
    · exact sign_packComponents _ _ _
    · exact sign_packComponents _ _ _
    · exact sign_packComponents _ _ _

/-- A quotient of doubles that are not negative does not stand before zero. -/
theorem not_div_lt_zero {x y : Float} {p q : ℚ} (hx : toRat? x = some p) (hy : toRat? y = some q)
    (hp : 0 ≤ p) (hq : 0 < q) : ¬ x / y < 0 := by
  have negative : ∀ {m : ℕ} (e : ℤ), 0 < m → ¬ (0 : ℚ) ≤ Sign.negative.apply m * 2 ^ e := by
    intro m e hm
    simp only [Sign.apply, Int.cast_neg, Int.cast_natCast, neg_mul, not_le]
    exact neg_lt_zero.2 (parts_pos hm)
  rw [toRat?_eq] at hx hy
  rw [lt_iff]
  change ¬ UnpackedFloat.lt (UnpackedFloat.unpack .binary64 (UnpackedFloat.pack .binary64
    (UnpackedFloat.div .binary64 x.toModel.unpack y.toModel.unpack))) (.zero .positive) = true
  cases hv : y.toModel.unpack with
  | infinity t | notANumber =>
    rw [hv] at hy
    cases hy
  | zero t =>
    rw [hv] at hy
    cases hy
    exact absurd hq (lt_irrefl 0)
  | finite t n f hn =>
    rw [hv] at hy
    obtain rfl : t.apply n * 2 ^ f = q := Option.some.inj hy
    cases t with
    | negative => exact absurd hq.le (negative f hn)
    | positive =>
      cases hu : x.toModel.unpack with
      | infinity s | notANumber =>
        rw [hu] at hx
        cases hx
      | zero s =>
        change ¬ UnpackedFloat.lt (UnpackedFloat.unpack .binary64 (UnpackedFloat.pack .binary64
          (.zero (s / .positive)))) (.zero .positive) = true
        cases s <;> exact Bool.false_ne_true
      | finite s m e hm =>
        rw [hu] at hx
        obtain rfl : s.apply m * 2 ^ e = p := Option.some.inj hx
        cases s with
        | negative => exact absurd hp (negative e hm)
        | positive =>
          exact not_unpack_lt_zero (sign_pack (roundWithAccuracy_sign .positive _ _ _))

end Double

end Reckoner
