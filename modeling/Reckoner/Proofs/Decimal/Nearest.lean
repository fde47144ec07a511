-- How far rounding takes sums, differences and products of doubles: by half of the last digit, so by
-- one part in two to the 53rd, or by half of the smallest double. Whole numbers of 53 digits are
-- doubles themselves, and doubles stand in the order of their values.
import Reckoner.Proofs.Decimal.Rounding

namespace Reckoner

namespace Double

open Float.Model Float.Model.UnpackedFloat

/-! ## Rounding -/

/-- A mantissa has a double near it, if it is not too large and has all its digits. -/
theorem roundWithAccuracy_near (s : Sign) {m : ℕ} {e : ℤ} (full : 2 ^ 52 ≤ m ∨ e ≤ -1074)
    (top : (m : ℚ) * 2 ^ e ≤ 2 ^ 1000) :
    ∃ r, partsValue? (UnpackedFloat.unpack .binary64 (UnpackedFloat.pack .binary64
        (roundWithAccuracy .binary64 s m e .exact))) = some r ∧ IsNear r (s.apply m * 2 ^ e) := by
  have nonneg : (0 : ℚ) ≤ m * 2 ^ e := mul_nonneg (Nat.cast_nonneg m) (two_zpow_pos e).le
  obtain ⟨r, t, rounding, units⟩ := roundWithAccuracy_rounding s (standsFor_exact m) full
  have near := rounding.near nonneg
  refine ⟨_, units.value (near.lt_top nonneg top), ?_⟩
  cases s with
  | positive => exact near
  | negative =>
    simp only [Sign.apply, Int.cast_neg, Int.cast_natCast, neg_mul]
    exact near.neg

/-- A rounded value is little larger and little smaller than the exact one. -/
theorem IsNear.bounds {r q : ℚ} (h : IsNear r q) :
    |r| ≤ |q| + |q| / 2 ^ 53 + 1 / 2 ^ 60 ∧ |q| - |q| / 2 ^ 53 - 1 / 2 ^ 60 ≤ |r| := by
  have tiny : (1 : ℚ) / 2 ^ 1075 ≤ 1 / 2 ^ 60 :=
    one_div_le_one_div_of_le (by positivity) (pow_le_pow_right₀ one_le_two (by decide))
  have error := h.error
  generalize (1 : ℚ) / 2 ^ 1075 = unit at tiny error
  have above := abs_sub_abs_le_abs_sub r q
  have below := abs_sub_abs_le_abs_sub q r
  rw [abs_sub_comm] at below
  constructor <;> linarith

theorem round_near (s : Sign) {m : ℕ} {e : ℤ} (hm : m ≠ 0) (top : (m : ℚ) * 2 ^ e ≤ 2 ^ 1000) :
    ∃ r, partsValue? (UnpackedFloat.unpack .binary64 (UnpackedFloat.pack .binary64
        (UnpackedFloat.round .binary64 s m e))) = some r ∧ IsNear r (s.apply m * 2 ^ e) := by
  obtain ⟨n, f, decreased, value, full⟩ := decreaseExponent_full hm e
  rw [← value] at top
  have near := roundWithAccuracy_near s full top
  have signed : (s.apply n : ℚ) * 2 ^ f = s.apply m * 2 ^ e := by
    cases s with
    | positive => exact value
    | negative =>
      simp only [Sign.apply, Int.cast_neg, Int.cast_natCast, neg_mul]
      rw [value]
  rw [signed] at near
  rw [UnpackedFloat.round, decreased]
  exact near

theorem normalize_near {n : ℤ} {e : ℤ} (s : Sign) (top : |(n : ℚ) * 2 ^ e| ≤ 2 ^ (1000 : ℤ)) :
    ∃ r, partsValue? (UnpackedFloat.unpack .binary64 (UnpackedFloat.pack .binary64
        (UnpackedFloat.normalize .binary64 n e s))) = some r ∧ IsNear r (n * 2 ^ e) := by
  rw [abs_mul, abs_of_pos (two_zpow_pos e)] at top
  unfold UnpackedFloat.normalize
  split
  · have negative := compare_lt_iff_lt.1 ‹_›
    obtain ⟨m, rfl⟩ : ∃ m : ℕ, n = -m := ⟨n.natAbs, by omega⟩
    rw [show (-(-(m : ℤ))).toNat = m by omega]
    exact round_near .negative (by omega) (by simpa using top)
  · obtain rfl := compare_eq_iff_eq.1 ‹_›
    refine ⟨0, by cases s <;> rfl, ?_⟩
    rw [Int.cast_zero, zero_mul]
    exact isNear_self 0
  · have positive := compare_gt_iff_gt.1 ‹_›
    obtain ⟨m, rfl⟩ : ∃ m : ℕ, n = m := ⟨n.natAbs, by omega⟩
    rw [Int.toNat_natCast]
    exact round_near .positive (by omega) (by simpa using top)

/-! ## Operations -/

theorem partsValue?_pack {u : UnpackedFloat} (form : IsCanonical u) :
    partsValue? (UnpackedFloat.unpack .binary64 (UnpackedFloat.pack .binary64 u)) =
      partsValue? u := by
  cases u with
  | infinity s => cases s <;> rfl
  | notANumber => rfl
  | zero s => cases s <;> rfl
  | finite s m e hm => rw [unpack_pack_finite form]

theorem partsValue?_neg (u : UnpackedFloat) : partsValue? u.neg = (partsValue? u).map (- ·) := by
  cases u with
  | finite s m e hm => cases s <;> simp [UnpackedFloat.neg, partsValue?, Sign.apply]
  | zero s => simp [UnpackedFloat.neg, partsValue?]
  | infinity s | notANumber => rfl

theorem isCanonical_neg {u : UnpackedFloat} (form : IsCanonical u) : IsCanonical u.neg := by
  cases u <;> exact form

/-- The sum of two doubles that were taken apart lies near that of their values. -/
theorem parts_add_near {u v : UnpackedFloat} {p q : ℚ} (formU : IsCanonical u)
    (formV : IsCanonical v) (hu : partsValue? u = some p) (hv : partsValue? v = some q)
    (top : |p + q| ≤ 2 ^ (1000 : ℤ)) :
    ∃ r, partsValue? (UnpackedFloat.unpack .binary64 (UnpackedFloat.pack .binary64
        (UnpackedFloat.add .binary64 u v))) = some r ∧ IsNear r (p + q) := by
  cases u with
  | infinity s | notANumber => cases hu
  | zero s =>
    cases hu
    rw [zero_add] at top ⊢
    cases v with
    | infinity t | notANumber => cases hv
    | zero t =>
      cases hv
      exact ⟨0, by cases s <;> cases t <;> rfl, isNear_self 0⟩
    | finite t n f hn =>
      exact ⟨q, by rw [← hv]; exact partsValue?_pack formV, isNear_self q⟩
  | finite s m e hm =>
    cases v with
    | infinity t | notANumber => cases hv
    | zero t =>
      cases hv
      rw [add_zero] at top ⊢
      exact ⟨p, by rw [← hu]; exact partsValue?_pack formU, isNear_self p⟩
    | finite t n f hn =>
      have first := decreaseExponent_value m (min_le_left e f)
      have second := decreaseExponent_value n (min_le_right e f)
      have sum : p + q = ((s.apply (decreaseExponent m e (min e f)).1 +
          t.apply (decreaseExponent n f (min e f)).1 : ℤ) : ℚ) * 2 ^ min e f := by
        obtain rfl : s.apply m * 2 ^ e = p := Option.some.inj hu
        obtain rfl : t.apply n * 2 ^ f = q := Option.some.inj hv
        have signed : ∀ (s : Sign) (a : ℕ), ((s.apply a : ℤ) : ℚ) = s.apply 1 * a := by
          intro s a
          cases s <;> simp [Sign.apply]
        push_cast
        rw [signed s m, signed t n, signed s _, signed t _, add_mul, mul_assoc, mul_assoc, mul_assoc,
          mul_assoc, first, second]
      rw [sum] at top ⊢
      exact normalize_near .positive top

theorem apply_mul (s t : Sign) (m n : ℤ) : (s * t).apply (m * n) = s.apply m * t.apply n := by
  cases s with
  | negative =>
    cases t with
    | negative => exact (neg_mul_neg m n).symm
    | positive => exact (neg_mul m n).symm
  | positive =>
    cases t with
    | negative => exact (mul_neg m n).symm
    | positive => rfl

/-- The product of two doubles that were taken apart lies near that of their values. -/
theorem parts_mul_near {u v : UnpackedFloat} {p q : ℚ} (formU : IsCanonical u)
    (formV : IsCanonical v) (hu : partsValue? u = some p) (hv : partsValue? v = some q)
    (top : |p * q| ≤ 2 ^ (1000 : ℤ)) :
    ∃ r, partsValue? (UnpackedFloat.unpack .binary64 (UnpackedFloat.pack .binary64
        (UnpackedFloat.mul .binary64 u v))) = some r ∧ IsNear r (p * q) := by
  cases u with
  | infinity s | notANumber => cases hu
  | zero s =>
    cases hu
    rw [zero_mul]
    cases v with
    | infinity t | notANumber => cases hv
    | zero t | finite t n f hn =>
      exact ⟨0, partsValue?_pack (u := .zero (s * t)) trivial, isNear_self 0⟩
  | finite s m e hm =>
    cases v with
    | infinity t | notANumber => cases hv
    | zero t =>
      cases hv
      rw [mul_zero]
      exact ⟨0, partsValue?_pack (u := .zero (s * t)) trivial, isNear_self 0⟩
    | finite t n f hn =>
      have product : p * q = (s * t).apply (m * n : ℕ) * 2 ^ (e + f) := by
        obtain rfl : s.apply m * 2 ^ e = p := Option.some.inj hu
        obtain rfl : t.apply n * 2 ^ f = q := Option.some.inj hv
        rw [Nat.cast_mul, apply_mul, two_zpow_add, Int.cast_mul, mul_mul_mul_comm]
      have size : ((m * n : ℕ) : ℚ) * 2 ^ (e + f) = |p * q| := by
        rw [product, abs_mul, abs_of_pos (two_zpow_pos _)]
        cases s * t <;> simp [Sign.apply]
      rw [← size] at top
      rw [product]
      exact roundWithAccuracy_near (s * t) (full_product formU formV) top

section Floats

variable {x y : Float} {p q : ℚ}

theorem add_near (hx : toRat? x = some p) (hy : toRat? y = some q)
    (top : |p + q| ≤ 2 ^ (1000 : ℤ)) : ∃ r, toRat? (x + y) = some r ∧ IsNear r (p + q) := by
  rw [toRat?_eq] at hx hy
  obtain ⟨r, hr, near⟩ := parts_add_near (unpack_canonical _) (unpack_canonical _) hx hy top
  exact ⟨r, by rw [toRat?_eq]; exact hr, near⟩

theorem sub_near (hx : toRat? x = some p) (hy : toRat? y = some q)
    (top : |p - q| ≤ 2 ^ (1000 : ℤ)) : ∃ r, toRat? (x - y) = some r ∧ IsNear r (p - q) := by
  rw [toRat?_eq] at hx hy
  rw [show p - q = p + -q by ring] at top ⊢
  have opposite : partsValue? y.toModel.unpack.neg = some (-q) := by rw [partsValue?_neg, hy]; rfl
  obtain ⟨r, hr, near⟩ := parts_add_near (unpack_canonical _)
    (isCanonical_neg (unpack_canonical _)) hx opposite top
  rw [← sub_eq_add_neg] at hr
  exact ⟨r, by rw [toRat?_eq]; exact hr, near⟩

theorem mul_near (hx : toRat? x = some p) (hy : toRat? y = some q)
    (top : |p * q| ≤ 2 ^ (1000 : ℤ)) : ∃ r, toRat? (x * y) = some r ∧ IsNear r (p * q) := by
  rw [toRat?_eq] at hx hy
  obtain ⟨r, hr, near⟩ := parts_mul_near (unpack_canonical _) (unpack_canonical _) hx hy top
  exact ⟨r, by rw [toRat?_eq]; exact hr, near⟩

theorem not_isInf_of_value (hx : toRat? x = some p) : x.isInf = false := by
  rw [toRat?_eq] at hx
  change x.toModel.unpack.isInf = false
  cases hu : x.toModel.unpack with
  | infinity s =>
    rw [hu] at hx
    cases hx
  | notANumber | zero s | finite s m e hm => rfl

theorem isFinite_of_value (hx : toRat? x = some p) : x.isFinite = true := by
  rw [toRat?_eq] at hx
  change x.toModel.unpack.isFinite = true
  cases hu : x.toModel.unpack with
  | infinity s | notANumber =>
    rw [hu] at hx
    cases hx
  | zero s | finite s m e hm => rfl

theorem exists_value (hx : x.isFinite = true) : ∃ p, toRat? x = some p := by
  rw [toRat?_eq]
  change x.toModel.unpack.isFinite = true at hx
  cases hu : x.toModel.unpack with
  | infinity s | notANumber =>
    rw [hu] at hx
    cases hx
  | zero s | finite s m e hm => exact ⟨_, rfl⟩

theorem not_isNaN_of_value (hx : toRat? x = some p) : x.isNaN = false := by
  rw [toRat?_eq] at hx
  change x.toModel.unpack.isNaN = false
  cases hu : x.toModel.unpack with
  | notANumber =>
    rw [hu] at hx
    cases hx
  | infinity s | zero s | finite s m e hm => rfl

theorem toRat?_neg (hx : toRat? x = some p) : toRat? (-x) = some (-p) := by
  rw [toRat?_eq] at hx
  have form : IsCanonical x.toModel.unpack.neg := isCanonical_neg (unpack_canonical _)
  rw [toRat?_eq]
  change partsValue? (UnpackedFloat.unpack .binary64 (UnpackedFloat.pack .binary64
    x.toModel.unpack.neg)) = _
  rw [partsValue?_pack form, partsValue?_neg, hx]
  rfl

theorem toRat?_abs (hx : toRat? x = some p) : toRat? x.abs = some |p| := by
  rw [toRat?_eq] at hx
  rw [toRat?_eq, unpack_abs]
  cases hu : x.toModel.unpack with
  | infinity s | notANumber =>
    rw [hu] at hx
    cases hx
  | zero s =>
    rw [hu] at hx
    cases hx
    simp [UnpackedFloat.abs, partsValue?]
  | finite s m e hm =>
    rw [hu] at hx
    obtain rfl : s.apply m * 2 ^ e = p := Option.some.inj hx
    rw [abs_mul, abs_of_pos (two_zpow_pos e)]
    cases s <;> simp [UnpackedFloat.abs, partsValue?, Sign.apply]

end Floats

/-! ## Order -/

theorem size_lt_of_lt {m n : ℕ} {e f : ℤ} {hm : 0 < m} {hn : 0 < n}
    (formM : IsCanonical (.finite .positive m e hm)) (formN : IsCanonical (.finite .positive n f hn))
    (h : e < f ∨ e = f ∧ m < n) : (m : ℚ) * 2 ^ e < n * 2 ^ f := by
  obtain ⟨few, -, digits⟩ := formM
  obtain ⟨-, -, digits'⟩ := formN
  rcases h with less | ⟨rfl, fewer⟩
  · -- the larger exponent is not the smallest one, so its digits are full
    have full : 2 ^ 52 ≤ n := by omega
    have few : (m : ℚ) < 2 ^ (53 : ℤ) := by exact_mod_cast few
    have full : (2 : ℚ) ^ (52 : ℤ) ≤ n := by exact_mod_cast full
    calc (m : ℚ) * 2 ^ e
      _ < 2 ^ (53 : ℤ) * 2 ^ e := mul_lt_mul_of_pos_right few (two_zpow_pos e)
      _ ≤ 2 ^ (52 : ℤ) * 2 ^ f := by
        rw [← two_zpow_add, ← two_zpow_add]
        exact two_zpow_mono (by omega)
      _ ≤ n * 2 ^ f := mul_le_mul_of_nonneg_right full (two_zpow_pos f).le
  · exact mul_lt_mul_of_pos_right (by exact_mod_cast fewer) (two_zpow_pos e)

/-- Positive doubles in their form have the order of their values. -/
theorem compare_positive {m n : ℕ} {e f : ℤ} {hm : 0 < m} {hn : 0 < n}
    (formM : IsCanonical (.finite .positive m e hm))
    (formN : IsCanonical (.finite .positive n f hn)) :
    (compare e f).then (compare m n) = compare ((m : ℚ) * 2 ^ e) (n * 2 ^ f) := by
  rcases lt_trichotomy e f with less | rfl | more
  · rw [compare_lt_iff_lt.2 less, compare_lt_iff_lt.2 (size_lt_of_lt formM formN (.inl less))]
    rfl
  · rw [compare_eq_iff_eq.2 rfl]
    rcases lt_trichotomy m n with fewer | rfl | more
    · rw [compare_lt_iff_lt.2 (size_lt_of_lt formM formN (.inr ⟨rfl, fewer⟩)),
        compare_lt_iff_lt.2 fewer]
      rfl
    · rw [compare_eq_iff_eq.2 rfl, compare_eq_iff_eq.2 rfl]
      rfl
    · rw [compare_gt_iff_gt.2 (size_lt_of_lt formN formM (.inr ⟨rfl, more⟩)),
        compare_gt_iff_gt.2 more]
      rfl
  · rw [compare_gt_iff_gt.2 more, compare_gt_iff_gt.2 (size_lt_of_lt formN formM (.inl more))]
    rfl

theorem compare_neg_neg (p q : ℚ) : compare (-p) (-q) = (compare p q).swap := by
  rcases lt_trichotomy p q with less | rfl | more
  · rw [compare_lt_iff_lt.2 less, compare_gt_iff_gt.2 (neg_lt_neg less)]
    rfl
  · rw [compare_eq_iff_eq.2 rfl, compare_eq_iff_eq.2 rfl]
    rfl
  · rw [compare_gt_iff_gt.2 more, compare_lt_iff_lt.2 (neg_lt_neg more)]
    rfl

/-- Doubles that were taken apart have the order of their values. -/
theorem compare_parts {u v : UnpackedFloat} {p q : ℚ} (formU : IsCanonical u)
    (formV : IsCanonical v) (hu : partsValue? u = some p) (hv : partsValue? v = some q) :
    u.compare v = some (compare p q) := by
  have opposite : ∀ (m : ℕ) (e : ℤ), (Sign.negative.apply m : ℚ) * 2 ^ e = -(m * 2 ^ e) := by
    intro m e
    simp [Sign.apply]
  cases u with
  | infinity s | notANumber => cases hu
  | zero s =>
    cases hu
    cases v with
    | infinity t | notANumber => cases hv
    | zero t =>
      cases hv
      rfl
    | finite t n f hn =>
      obtain rfl : t.apply n * 2 ^ f = q := Option.some.inj hv
      cases t with
      | positive => exact congrArg some (compare_lt_iff_lt.2 (parts_pos hn)).symm
      | negative =>
        rw [opposite]
        exact congrArg some (compare_gt_iff_gt.2 (neg_lt_zero.2 (parts_pos hn))).symm
  | finite s m e hm =>
    obtain rfl : s.apply m * 2 ^ e = p := Option.some.inj hu
    cases v with
    | infinity t | notANumber => cases hv
    | zero t =>
      cases hv
      cases s with
      | positive => exact congrArg some (compare_gt_iff_gt.2 (parts_pos hm)).symm
      | negative =>
        rw [opposite]
        exact congrArg some (compare_lt_iff_lt.2 (neg_lt_zero.2 (parts_pos hm))).symm
    | finite t n f hn =>
      obtain rfl : t.apply n * 2 ^ f = q := Option.some.inj hv
      have sizes := @compare_positive m n e f hm hn formU formV
      cases s with
      | positive =>
        cases t with
        | positive => exact congrArg some sizes
        | negative =>
          rw [opposite]
          exact congrArg some (compare_gt_iff_gt.2
            ((neg_lt_zero.2 (parts_pos hn)).trans (parts_pos hm))).symm
      | negative =>
        rw [opposite]
        cases t with
        | positive =>
          exact congrArg some (compare_lt_iff_lt.2
            ((neg_lt_zero.2 (parts_pos hm)).trans (parts_pos hn))).symm
        | negative =>
          rw [opposite, compare_neg_neg, ← sizes]
          rfl

section Floats

variable {x y : Float} {p q : ℚ}

theorem compare_values (hx : toRat? x = some p) (hy : toRat? y = some q) :
    x.toModel.unpack.compare y.toModel.unpack = some (compare p q) := by
  rw [toRat?_eq] at hx hy
  exact compare_parts (unpack_canonical _) (unpack_canonical _) hx hy

theorem le_iff_of_values (hx : toRat? x = some p) (hy : toRat? y = some q) : x ≤ y ↔ p ≤ q := by
  have order : x ≤ y ↔ UnpackedFloat.le x.toModel.unpack y.toModel.unpack = true := by
    change decide (x.toModel ≤ y.toModel) = true ↔ _
    rw [decide_eq_true_iff]
    rfl
  rw [order, UnpackedFloat.le, compare_values hx hy, Option.any_some]
  rcases lt_trichotomy p q with less | rfl | more
  · rw [compare_lt_iff_lt.2 less]
    exact iff_of_true rfl less.le
  · rw [compare_eq_iff_eq.2 rfl]
    exact iff_of_true rfl le_rfl
  · rw [compare_gt_iff_gt.2 more]
    exact iff_of_false Bool.false_ne_true more.not_ge

theorem lt_iff_of_values (hx : toRat? x = some p) (hy : toRat? y = some q) : x < y ↔ p < q := by
  rw [lt_iff, UnpackedFloat.lt, compare_values hx hy, beq_iff_eq, Option.some_inj,
    compare_lt_iff_lt]

theorem beq_iff_of_values (hx : toRat? x = some p) (hy : toRat? y = some q) :
    (x == y) = true ↔ p = q := by
  change UnpackedFloat.beq x.toModel.unpack y.toModel.unpack = true ↔ _
  rw [UnpackedFloat.beq, compare_values hx hy]
  simp

end Floats

/-! ## Whole numbers -/

theorem toRat?_ofBits (u : UInt64) :
    toRat? (Float.ofBits u) = partsValue? (UnpackedFloat.unpack .binary64 u.toBitVec) := by
  rw [toRat?_eq]
  exact partsValue?_pack (unpack_canonical _)

/-- The value of a double with an exponent of its own. -/
theorem ofBits_value {u : UInt64} {p : ℕ} (exponent : u.toNat / 2 ^ 52 % 2 ^ 11 = p) (low : 0 < p)
    (high : p < 2047) : toRat? (Float.ofBits u) =
      some ((withSign (decide (1 <<< 63 ≤ u.toNat)) (2 ^ 52 + u.toNat % 2 ^ 52) : ℤ) *
        (2 : ℚ) ^ (p - 1075 : ℤ)) := by
  have bits : (@unpackExponent Format.binary64 u.toBitVec).toNat = p := by
    rw [← exponent]
    simp [unpackExponent, Nat.shiftRight_eq_div_pow]
  have mantissa : (@unpackMantissa Format.binary64 u.toBitVec).toNat = u.toNat % 2 ^ 52 := by
    simp [unpackMantissa]
  have ones : @unpackExponent Format.binary64 u.toBitVec ≠ -1#_ := by
    intro h
    rw [h] at bits
    exact high.ne' bits
  have zero : @unpackExponent Format.binary64 u.toBitVec ≠ 0#_ := by
    intro h
    rw [h] at bits
    exact low.ne bits
  obtain ⟨n, e, hm, unpacked, hn, he⟩ := unpack_normal zero ones
  rw [toRat?_ofBits, unpacked, partsValue?, apply_sign_of_bits, hn, he, mantissa, bits]

theorem ofInt_eq_some {n : ℤ} {x : Float} (h : ofInt? n = some x) :
    (Binary.ofInt n).toFloat = x := by
  unfold ofInt? at h
  dsimp only at h
  split_ifs at h
  exact Option.some.inj h

/-- A positive whole number has a positive double, if it has one. -/
theorem ofInt_positive {n : ℤ} (hn : 0 < n) (h : n.natAbs < overflowBound) :
    ∃ x q, ofInt? n = some x ∧ toRat? x = some q ∧ 0 < q := by
  obtain ⟨x, hx, -⟩ := ofInt_isFinite h
  have digits : bitLength n.natAbs ≤ 1024 :=
    bitLength_le_iff.2 (h.trans_le (by decide +kernel))
  have low := doubleBits_whole (by omega : n.natAbs ≠ 0) digits
  have high := (doubleBits_whole_lt_iff n.natAbs).2 h
  have sign : ¬ n < 0 := not_lt.2 hn.le
  have value : toRat? (Binary.ofInt n).toFloat = toRat? x := by rw [ofInt_eq_some hx]
  unfold Binary.toFloat Binary.ofInt at value
  dsimp only at value
  rw [if_neg sign] at value
  generalize Binary.doubleBits n.natAbs 0 = bits at *
  have number : (UInt64.ofNat bits).toNat = bits := by
    rw [UInt64.toNat_ofNat', Nat.mod_eq_of_lt (by omega)]
  have top : decide (1 <<< 63 ≤ (UInt64.ofNat bits).toNat) = false := by
    rw [decide_eq_false_iff_not, number]
    omega
  rw [ofBits_value rfl (by omega) (by omega), top, withSign, if_neg Bool.false_ne_true,
    Int.cast_natCast] at value
  have positive : 0 < 2 ^ 52 + (UInt64.ofNat bits).toNat % 2 ^ 52 :=
    Nat.add_pos_left (by decide) _
  exact ⟨x, _, hx, value.symm, mul_pos (Nat.cast_pos.2 positive) (two_zpow_pos _)⟩

/-- A whole number of 53 digits is a double. -/
theorem ofInt_value {n : ℤ} (h : n.natAbs < 2 ^ 53) :
    ∃ x, ofInt? n = some x ∧ toRat? x = some (n : ℚ) := by
  obtain ⟨x, hx, -⟩ := ofInt_isFinite (n := n)
    (h.trans_le ((by decide +kernel : 2 ^ 53 ≤ 2 ^ 1000).trans two_pow_le_overflowBound))
  refine ⟨x, hx, ?_⟩
  have hx := ofInt_eq_some hx
  rcases eq_or_ne n 0 with rfl | h0
  · rw [← hx]
    rfl
  have hm : n.natAbs ≠ 0 := Int.natAbs_ne_zero.2 h0
  have few : bitLength n.natAbs ≤ 53 := bitLength_le_iff.2 h
  have kept := kept_digits_bounds hm
  have high := lt_two_pow_bitLength n.natAbs
  have bits := doubleBits_whole hm (few.trans (by decide))
  rw [if_pos few, Nat.shiftLeft_eq] at kept bits
  have strict : n.natAbs * 2 ^ (53 - bitLength n.natAbs) < 2 ^ 53 := by
    calc n.natAbs * 2 ^ (53 - bitLength n.natAbs)
      _ < 2 ^ bitLength n.natAbs * 2 ^ (53 - bitLength n.natAbs) :=
        Nat.mul_lt_mul_of_pos_right high (Nat.two_pow_pos _)
      _ = 2 ^ 53 := by
        rw [← pow_add]
        congr 1
        omega
  have value : ((n.natAbs * 2 ^ (53 - bitLength n.natAbs) : ℕ) : ℚ) *
      2 ^ ((bitLength n.natAbs + 1022 : ℕ) - 1075 : ℤ) = n.natAbs := by
    have shift := units_eq n.natAbs (53 - bitLength n.natAbs)
      ((bitLength n.natAbs + 1022 : ℕ) - 1075 : ℤ)
    rw [← shift, show ((bitLength n.natAbs + 1022 : ℕ) - 1075 : ℤ) +
      (53 - bitLength n.natAbs : ℕ) = 0 by omega, zpow_zero, mul_one]
  generalize bitLength n.natAbs = len at *
  generalize n.natAbs * 2 ^ (53 - len) = digits at *
  rw [← hx]
  unfold Binary.toFloat Binary.ofInt
  dsimp only
  rw [bits, min_eq_left (by omega)]
  generalize hu : UInt64.ofNat (if n < 0 then (len + 1021) * 2 ^ 52 + digits + 1 <<< 63
    else (len + 1021) * 2 ^ 52 + digits) = u
  have number : u.toNat = if n < 0 then (len + 1021) * 2 ^ 52 + digits + 1 <<< 63
      else (len + 1021) * 2 ^ 52 + digits := by
    rw [← hu, UInt64.toNat_ofNat', Nat.mod_eq_of_lt (by split_ifs <;> omega)]
  have sign : decide (1 <<< 63 ≤ u.toNat) = decide (n < 0) := by
    rw [number, decide_eq_decide]
    split_ifs <;> omega
  have exponent : u.toNat / 2 ^ 52 % 2 ^ 11 = len + 1022 := by
    rw [number]
    split_ifs <;> omega
  have mantissa : 2 ^ 52 + u.toNat % 2 ^ 52 = digits := by
    rw [number]
    split_ifs <;> omega
  rw [ofBits_value exponent (by omega) (by omega), sign, mantissa]
  rcases lt_or_gt_of_ne h0 with negative | positive
  · have opposite : -(n.natAbs : ℤ) = n := by omega
    rw [decide_eq_true negative, withSign, if_pos rfl, Int.cast_neg, Int.cast_natCast, neg_mul,
      value, Option.some_inj]
    exact_mod_cast opposite
  · have same : (n.natAbs : ℤ) = n := by omega
    rw [decide_eq_false positive.not_gt, withSign, if_neg Bool.false_ne_true, Int.cast_natCast,
      value, Option.some_inj]
    exact (Int.cast_natCast n.natAbs).symm.trans (congrArg Int.cast same)

end Double

end Reckoner
