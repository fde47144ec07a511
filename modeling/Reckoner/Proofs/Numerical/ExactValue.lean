-- The exact values of doubles and of other quantities, and comparison with zero by them. The value
-- that the bits of a double tell is that of its parts.
import Reckoner.Numerical.Stepping
import Reckoner.Proofs.Decimal.Quotients
import Reckoner.Proofs.Value.Writing

namespace Reckoner

/-! ## Binary fractions -/

namespace Binary

theorem toRat_eq (b : Binary) : b.toRat = b.man * (2 : ℚ) ^ b.exp := by
  unfold toRat
  split_ifs with h
  · obtain ⟨n, hn⟩ := Int.eq_ofNat_of_zero_le h
    rw [hn]
    simp
  · obtain ⟨n, hn⟩ := Int.eq_ofNat_of_zero_le (show 0 ≤ -b.exp by omega)
    rw [hn, show b.exp = -(n : ℤ) by omega, Rat.mkRat_eq_div, zpow_neg, zpow_natCast,
      Int.toNat_natCast, div_eq_mul_inv]
    push_cast
    rfl

theorem cast_toRat (b : Binary) : (b.toRat : ℝ) = b.toReal := by
  rw [toRat_eq, toReal]
  push_cast
  rfl

theorem toRat_trim (b : Binary) : b.trim.toRat = b.toRat := by
  have := toReal_trim b
  rw [← cast_toRat, ← cast_toRat] at this
  exact_mod_cast this

end Binary

/-! ## Doubles -/

namespace Double

open Float.Model Float.Model.UnpackedFloat

/-- The value of a double that was taken apart, if it has one. -/
def partsValue? : UnpackedFloat → Option ℚ
  | .zero _ => some 0
  | .finite s m e _ => some (s.apply m * 2 ^ e)
  | .infinity _ | .notANumber => none

/-- The first bit is set under a negative sign. -/
theorem apply_sign_of_bits (u : UInt64) (m : ℕ) :
    (Sign.ofBitVec (@unpackSign .binary64 u.toBitVec)).apply m =
      withSign (decide (1 <<< 63 ≤ u.toNat)) m := by
  have bound : u.toNat < 2 ^ 64 := u.toNat_lt
  have bit : (@unpackSign .binary64 u.toBitVec).toNat = u.toNat / 2 ^ 63 := by
    simp [unpackSign, Nat.shiftRight_eq_div_pow]
    omega
  have clear : @unpackSign .binary64 u.toBitVec = 0#1 ↔ ¬ 1 <<< 63 ≤ u.toNat := by
    rw [← BitVec.toNat_inj, bit, BitVec.toNat_ofNat]
    omega
  unfold Sign.ofBitVec withSign
  simp only [clear, decide_eq_true_eq, ite_not]
  split_ifs <;> rfl

/-- The value of a double is that of the parts into which it is taken. -/
theorem toRat?_eq (x : Float) : toRat? x = partsValue? x.toModel.unpack := by
  generalize hu : x.toBits = u
  have parts : x.toModel.unpack = UnpackedFloat.unpack .binary64 u.toBitVec := by
    rw [← hu]
    rfl
  have exponent : (@unpackExponent .binary64 u.toBitVec).toNat = u.toNat >>> 52 % 2048 := by
    simp [unpackExponent, Nat.shiftRight_eq_div_pow]
  have mantissa : (@unpackMantissa .binary64 u.toBitVec).toNat = u.toNat % 1 <<< 52 := by
    simp [unpackMantissa]
  have full : @unpackExponent .binary64 u.toBitVec = -1#_ ↔ u.toNat >>> 52 % 2048 = 2047 := by
    rw [← exponent, ← BitVec.toNat_inj]
    rfl
  have empty : @unpackExponent .binary64 u.toBitVec = 0#_ ↔ u.toNat >>> 52 % 2048 = 0 := by
    rw [← exponent, ← BitVec.toNat_inj]
    rfl
  have digitless : @unpackMantissa .binary64 u.toBitVec = 0#_ ↔ u.toNat % 1 <<< 52 = 0 := by
    rw [← mantissa, ← BitVec.toNat_inj]
    rfl
  have digits : (1#1 ++ @unpackMantissa .binary64 u.toBitVec).toNat =
      u.toNat % 1 <<< 52 + 1 <<< 52 := by
    have implicit := toNat_implicit (@unpackMantissa .binary64 u.toBitVec)
    rw [mantissa] at implicit
    exact implicit.trans (add_comm _ _)
  have value : ∀ (m : ℕ) (e : ℤ),
      (Binary.trim ⟨withSign (decide (1 <<< 63 ≤ u.toNat)) m, e⟩).toRat =
        (Sign.ofBitVec (@unpackSign .binary64 u.toBitVec)).apply m * 2 ^ e := by
    intro m e
    rw [Binary.toRat_trim, Binary.toRat_eq, apply_sign_of_bits]
  rw [parts]
  unfold toRat? Binary.ofFloat? UnpackedFloat.unpack
  simp only [hu, full, empty, digitless]
  split_ifs with special undefined small zero
  · rfl
  · rfl
  · rw [Option.map_some, value, zero, apply_sign_of_bits, partsValue?]
    simp [withSign]
  · rw [Option.map_some, value, partsValue?, mantissa, exponent, small]
    rfl
  · rw [Option.map_some, value, partsValue?, digits, exponent]
    congr 3
    

theorem partsValue?_eq_zero {u : UnpackedFloat} (h : partsValue? u = some 0) : ∃ s, u = .zero s := by
  cases u with
  | zero s => exact ⟨s, rfl⟩
  | finite s m e hm =>
    have zero : (s.apply m : ℚ) * 2 ^ e = 0 := Option.some.inj h
    rw [mul_eq_zero_iff_right (two_zpow_pos e).ne'] at zero
    cases s <;> simp [Sign.apply, hm.ne'] at zero
  | infinity s => cases h
  | notANumber => cases h

/-- Zero stands before the parts of a positive value. -/
theorem zero_lt_parts (s : Sign) {u : UnpackedFloat} {q : ℚ} (h : partsValue? u = some q)
    (hq : 0 < q) : UnpackedFloat.lt (.zero s) u = true := by
  cases u with
  | zero t =>
    cases h
    exact absurd hq (lt_irrefl 0)
  | finite t m e hm =>
    cases t with
    | positive => rfl
    | negative =>
      obtain rfl : -(m : ℚ) * 2 ^ e = q := by simpa [Sign.apply] using Option.some.inj h
      have := mul_nonneg (Nat.cast_nonneg m) (two_zpow_pos e).le
      rw [neg_mul] at hq
      exact absurd hq (by linarith)
  | infinity t => cases h
  | notANumber => cases h

theorem toRat?_abs_of_zero {x : Float} (h : toRat? x = some 0) : toRat? x.abs = some 0 := by
  rw [toRat?_eq] at h
  obtain ⟨s, parts⟩ := partsValue?_eq_zero h
  rw [toRat?_eq, unpack_abs, parts]
  rfl

end Double

/-! ## Quantities -/

namespace Quantity

open Float.Model

/-- The exact value of a finite quantity. -/
def exactValue? : Quantity → Option ℚ
  | whole n => some n
  | measure x => Double.toRat? x

/-- A double that zero stands before is larger than a double with the value zero. -/
theorem abs_lt_of_versus {x y : Float} (hx : Double.toRat? x = some 0)
    (hy : compare?.versus 0 y = some .lt) : x.abs < y := by
  rw [Double.toRat?_eq] at hx
  obtain ⟨s, zero⟩ := Double.partsValue?_eq_zero hx
  rw [Double.lt_iff, Double.unpack_abs, zero]
  unfold compare?.versus at hy
  cases hq : Double.toRat? y with
  | some q =>
    rw [hq] at hy
    rw [Double.toRat?_eq] at hq
    refine Double.zero_lt_parts .positive hq ?_
    by_contra h
    simp [h] at hy
  | none =>
    have nan : y.isNaN = y.toModel.unpack.isNaN := rfl
    have below : y < 0 ↔ UnpackedFloat.lt y.toModel.unpack (.zero .positive) = true :=
      Double.lt_iff y 0
    simp only [hq, nan, below] at hy
    rw [Double.toRat?_eq] at hq
    cases parts : y.toModel.unpack with
    | infinity t =>
      rw [parts] at hy
      cases t with
      | positive => rfl
      | negative => cases hy
    | notANumber =>
      rw [parts] at hy
      cases hy
    | zero t =>
      rw [parts] at hq
      cases hq
    | finite t m e hm =>
      rw [parts] at hq
      cases hq

variable {p : Quantity} {q : ℚ}

/-- A quantity stands on the same side of zero as its exact value. -/
theorem compare?_zero (h : p.exactValue? = some q) :
    let side := if 0 < q then Ordering.lt else if q < 0 then .gt else .eq
    (whole 0).compare? p = some side ∧ p.compare? (whole 0) = some side.swap := by
  cases p with
  | whole n =>
    cases h
    change some (compare 0 n) = some _ ∧ some (compare n 0) = some _
    simp only [Int.cast_pos, Int.cast_lt_zero]
    rcases lt_trichotomy n 0 with negative | rfl | positive
    · rw [if_neg negative.not_gt, if_pos negative, compare_gt_iff_gt.2 negative,
        compare_lt_iff_lt.2 negative]
      exact ⟨rfl, rfl⟩
    · exact ⟨rfl, rfl⟩
    · rw [if_pos positive, compare_lt_iff_lt.2 positive, compare_gt_iff_gt.2 positive]
      exact ⟨rfl, rfl⟩
  | measure x =>
    have value : Double.toRat? x = some q := h
    change compare?.versus 0 x = _ ∧ (compare?.versus 0 x).map Ordering.swap = _
    unfold compare?.versus
    rw [value, Int.cast_zero]
    exact ⟨rfl, rfl⟩

theorem less_zero_iff (h : p.exactValue? = some q) : p.less (.whole 0) = true ↔ q < 0 := by
  rw [less, (compare?_zero h).2]
  rcases lt_trichotomy q 0 with negative | rfl | positive
  · simp [negative, negative.not_gt]
  · simp
  · simp [positive, positive.not_gt]

theorem zero_lessEqual_iff (h : p.exactValue? = some q) : (whole 0).lessEqual p = true ↔ 0 ≤ q := by
  rw [lessEqual, less, equal, (compare?_zero h).1]
  rcases lt_trichotomy q 0 with negative | rfl | positive
  · simp [negative, negative.not_gt]
  · simp
  · simp [positive, positive.le]

/-- What is zero is within each bound that zero stands before. -/
theorem abs_less_of_zero (h : p.exactValue? = some 0) {bound : Quantity}
    (positive : (whole 0).less bound = true) : p.abs.less bound = true := by
  cases p with
  | whole n =>
    obtain rfl : n = 0 := by simpa [exactValue?] using h
    exact positive
  | measure x =>
    have value : Double.toRat? x = some 0 := h
    cases bound with
    | whole n =>
      have above : 0 < n := by
        have order : compare 0 n = .lt := by simpa [less, compare?] using positive
        exact compare_lt_iff_lt.1 order
      have above : (0 : ℚ) < n := by exact_mod_cast above
      simp [less, abs, compare?, compare?.versus, Double.toRat?_abs_of_zero value, above,
        above.not_gt]
    | measure y =>
      have below : x.abs < y := abs_lt_of_versus value (by simpa [less, compare?] using positive)
      simp [less, abs, compare?, below]

end Quantity

namespace Value

variable {v w : Value}

theorem less_of_quantity {p q : Quantity} (hv : v.quantity? = some p) (hw : w.quantity? = some q) :
    v.less w = .ok (p.less q) := by
  unfold less before
  cases v <;> simp_all [quantity?]

theorem less_whole (m n : ℤ) : (whole m).less (whole n) = .ok (decide (m < n)) := by
  rw [less_of_quantity rfl rfl, Quantity.less, Quantity.compare?, Except.ok.injEq, Bool.eq_iff_iff]
  simp [compare_lt_iff_lt]

theorem lessEqual_of_quantity {p q : Quantity} (hv : v.quantity? = some p)
    (hw : w.quantity? = some q) : v.lessEqual w = .ok (p.lessEqual q) := by
  unfold lessEqual before
  cases v <;> simp_all [quantity?]

theorem exists_quantity_of_less_whole {n : ℤ} (h : (whole n).less w = .ok true) :
    ∃ q, w.quantity? = some q ∧ (Quantity.whole n).less q = true := by
  cases hq : w.quantity? with
  | some q =>
    rw [less_of_quantity rfl hq] at h
    exact ⟨q, rfl, Except.ok.inj h⟩
  | none =>
    unfold less before at h
    cases w <;> simp_all [quantity?, whole]

end Value

namespace Numerical

variable {v w bound : Value} {q : ℚ}

theorem exactValue?_eq_some_iff :
    exactValue? v = some q ↔ ∃ p, v.quantity? = some p ∧ p.exactValue? = some q := by
  unfold exactValue?
  cases hp : v.quantity? with
  | none => simp
  | some p => cases p <;> simp [Quantity.exactValue?]

/-- A value stands before zero if its exact value does. -/
theorem less_zero_iff (h : exactValue? v = some q) :
    ∃ below, v.less (.whole 0) = .ok below ∧ (below = true ↔ q < 0) := by
  obtain ⟨p, hp, hq⟩ := exactValue?_eq_some_iff.1 h
  exact ⟨_, Value.less_of_quantity hp rfl, Quantity.less_zero_iff hq⟩

theorem atLeast_zero_iff (h : exactValue? v = some q) :
    v.atLeast (.whole 0) = .ok true ↔ 0 ≤ q := by
  obtain ⟨p, hp, hq⟩ := exactValue?_eq_some_iff.1 h
  have : v.atLeast (.whole 0) = .ok ((Quantity.whole 0).lessEqual p) := by
    rw [Value.atLeast, hp]
    rfl
  rw [this, Except.ok.injEq, Quantity.zero_lessEqual_iff hq]

/-- What is zero is within each bound above zero. -/
theorem isWithin_of_zero (h : exactValue? v = some 0)
    (positive : (Value.whole 0).less bound = .ok true) : isWithin v bound = .ok true := by
  obtain ⟨p, hp, hq⟩ := exactValue?_eq_some_iff.1 h
  obtain ⟨t, ht, above⟩ := Value.exists_quantity_of_less_whole positive
  have size : v.abs = .ok (.number p.abs) := by
    rw [Value.abs, hp]
  rw [isWithin, size, ok_bind, Value.less_of_quantity rfl ht, Quantity.abs_less_of_zero hq above]

end Numerical

end Reckoner
