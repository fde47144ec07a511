-- The digits, the exponent and the sign that the bits of a double show, against its value. A double
-- that is rounded to some places has the value of the decimal that its digits name.
import Reckoner.Proofs.Decimal.Nearest

namespace Reckoner

/-! ## Digits and exponent -/

/-- The digits and the exponent of a double: all 53 digits, or the smallest exponent. Only under a
power of two the doubles are closer below. -/
structure DoubleParts.IsForm (d : DoubleParts) : Prop where
  few : d.man < 2 ^ 53
  low : -1074 ≤ d.exp
  high : d.exp ≤ 971
  digits : 2 ^ 52 ≤ d.man ∨ d.exp = -1074
  narrow : d.narrowBelow = true ↔ d.man = 2 ^ 52 ∧ -1074 < d.exp

theorem DoubleParts.isForm_ofBits {bits : ℕ} (finite : bits >>> 52 % 2048 ≠ 2047) :
    (ofBits bits).IsForm := by
  have bound : bits % 2 ^ 52 < 2 ^ 52 := Nat.mod_lt _ (Nat.two_pow_pos 52)
  have range : bits >>> 52 % 2048 < 2048 := Nat.mod_lt _ (by decide)
  unfold ofBits
  dsimp only
  generalize bits % 2 ^ 52 = f at *
  generalize bits >>> 52 % 2048 = e at *
  split_ifs with zero
  · constructor <;> simp
    omega
  · constructor <;> simp
    all_goals omega

/-- The value as the quotient of its parts. -/
theorem DoubleParts.quotient_value (d : DoubleParts) :
    0 < d.quotient.2 ∧ (d.quotient.1 : ℚ) / d.quotient.2 = d.man * 2 ^ d.exp := by
  refine ⟨Nat.two_pow_pos _, ?_⟩
  unfold quotient
  dsimp only
  push_cast
  rcases le_total 0 d.exp with whole | part
  · obtain ⟨k, hk⟩ := Int.eq_ofNat_of_zero_le whole
    rw [hk, Int.toNat_natCast, show (-(k : ℤ)).toNat = 0 by omega, pow_zero, div_one, zpow_natCast]
  · obtain ⟨k, hk⟩ := Int.eq_ofNat_of_zero_le (neg_nonneg.2 part)
    rw [hk, Int.toNat_natCast, show d.exp = -(k : ℤ) by omega,
      show (-(k : ℤ)).toNat = 0 by omega, pow_zero, mul_one, zpow_neg, zpow_natCast, div_eq_mul_inv]

namespace DoubleParts

variable {d e : DoubleParts}

theorem IsForm.exp_le (hd : d.IsForm) (he : e.IsForm)
    (same : (d.man : ℚ) * 2 ^ d.exp = e.man * 2 ^ e.exp) : e.exp ≤ d.exp := by
  by_contra less
  have many : 2 ^ 52 ≤ e.man := he.digits.resolve_right (by have := hd.low; omega)
  obtain ⟨k, hk⟩ : ∃ k : ℕ, e.exp = d.exp + (k + 1 : ℕ) := ⟨(e.exp - d.exp - 1).toNat, by omega⟩
  have units : (d.man : ℚ) = (e.man * 2 ^ (k + 1) : ℕ) := by
    rw [hk, Double.two_zpow_add, zpow_natCast] at same
    push_cast
    refine mul_right_cancel₀ (Double.two_zpow_pos d.exp).ne' ?_
    rw [same]
    ring
  have units : d.man = e.man * 2 ^ (k + 1) := by exact_mod_cast units
  have few := hd.few
  have twice : 2 ^ 52 * 2 ≤ e.man * 2 ^ (k + 1) :=
    Nat.mul_le_mul many (Nat.le_self_pow (Nat.succ_ne_zero k) 2)
  omega

/-- The digits and the exponent of a double are known by its value. -/
theorem IsForm.unique (hd : d.IsForm) (he : e.IsForm)
    (same : (d.man : ℚ) * 2 ^ d.exp = e.man * 2 ^ e.exp) : d.man = e.man ∧ d.exp = e.exp := by
  have exp : d.exp = e.exp :=
    le_antisymm (he.exp_le hd same.symm) (hd.exp_le he same)
  rw [exp] at same
  exact ⟨by exact_mod_cast mul_right_cancel₀ (Double.two_zpow_pos _).ne' same, exp⟩

theorem ofBits_injective {m n : ℕ} (hm : m < 2 ^ 64) (hn : n < 2 ^ 64)
    (sign : 2 ^ 63 ≤ m ↔ 2 ^ 63 ≤ n) (man : (ofBits m).man = (ofBits n).man)
    (exp : (ofBits m).exp = (ofBits n).exp) : m = n := by
  have form : ∀ k : ℕ, (ofBits k).man =
      (if k >>> 52 % 2048 = 0 then 0 else 2 ^ 52) + k % 2 ^ 52 ∧
      (ofBits k).exp = if k >>> 52 % 2048 = 0 then -1074 else (k >>> 52 % 2048 : ℕ) - 1075 := by
    intro k
    unfold ofBits
    dsimp only
    split_ifs <;> simp
  rw [(form m).1, (form n).1] at man
  rw [(form m).2, (form n).2] at exp
  rw [Nat.shiftRight_eq_div_pow, Nat.shiftRight_eq_div_pow] at man exp
  split_ifs at man exp <;> omega

end DoubleParts

namespace Double

open Float.Model Float.Model.UnpackedFloat

/-- The digits and the exponent of a double. -/
def partsOf (x : Float) : DoubleParts := .ofBits x.toBits.toNat

variable {x y : Float} {v : ℚ}

theorem partsOf_value (hx : toRat? x = some v) : (partsOf x).IsForm ∧
    (withSign (decide (2 ^ 63 ≤ x.toBits.toNat)) (partsOf x).man : ℤ) *
      2 ^ (partsOf x).exp = v := by
  have trimmed : ∀ b : Binary, b.trim.toRat = b.man * 2 ^ b.exp := fun b => by
    rw [Binary.toRat_trim, Binary.toRat_eq]
  unfold toRat? Binary.ofFloat? at hx
  dsimp only at hx
  have finite : x.toBits.toNat >>> 52 % 2048 ≠ 2047 := by
    intro full
    rw [if_pos full] at hx
    cases hx
  refine ⟨DoubleParts.isForm_ofBits finite, ?_⟩
  rw [if_neg finite] at hx
  unfold partsOf DoubleParts.ofBits
  dsimp only
  split_ifs at hx ⊢ with zero
  · rw [Option.map_some, Option.some.injEq, trimmed] at hx
    exact hx
  · rw [Option.map_some, Option.some.injEq, trimmed, add_comm] at hx
    exact hx

theorem partsOf_abs (hx : toRat? x = some v) :
    ((partsOf x).man : ℚ) * 2 ^ (partsOf x).exp = |v| := by
  rw [← (partsOf_value hx).2, abs_mul, abs_of_pos (two_zpow_pos _)]
  unfold withSign
  split_ifs <;> simp

theorem isNegative_of_neg (hx : toRat? x = some v) (hv : v < 0) : isNegative x = true := by
  have value := (partsOf_value hx).2
  unfold isNegative
  rw [not_isNaN_of_value hx, Bool.not_false, Bool.and_true, decide_eq_true_iff]
  by_contra positive
  rw [decide_eq_false positive, withSign, if_neg Bool.false_ne_true] at value
  have : (0 : ℚ) ≤ v := by
    rw [← value]
    exact mul_nonneg (by exact_mod_cast Nat.zero_le _) (two_zpow_pos _).le
  exact absurd hv (not_lt.2 this)

theorem isNegative_of_pos (hx : toRat? x = some v) (hv : 0 < v) : isNegative x = false := by
  have value := (partsOf_value hx).2
  unfold isNegative
  rw [not_isNaN_of_value hx, Bool.not_false, Bool.and_true, decide_eq_false_iff_not]
  intro negative
  rw [decide_eq_true negative, withSign, if_pos rfl, Int.cast_neg, neg_mul] at value
  have : v ≤ 0 := by
    rw [← value]
    exact neg_nonpos.2 (mul_nonneg (by exact_mod_cast Nat.zero_le _) (two_zpow_pos _).le)
  exact absurd hv (not_lt.2 this)

theorem toRat?_zero : toRat? 0 = some 0 := by decide +kernel

theorem isZero_iff_of_value (hx : toRat? x = some v) : isZero x = true ↔ v = 0 :=
  beq_iff_of_values hx toRat?_zero

/-- A double is known by its value and its sign. -/
theorem eq_of_value (hx : toRat? x = some v) (hy : toRat? y = some v)
    (sign : isNegative x = isNegative y) : x = y := by
  have same : x.toBits.toNat = y.toBits.toNat := by
    obtain ⟨man, exp⟩ := (partsOf_value hx).1.unique (partsOf_value hy).1
      ((partsOf_abs hx).trans (partsOf_abs hy).symm)
    refine DoubleParts.ofBits_injective x.toBits.toNat_lt y.toBits.toNat_lt ?_ man exp
    unfold isNegative at sign
    rw [not_isNaN_of_value hx, not_isNaN_of_value hy, Bool.not_false, Bool.and_true,
      Bool.and_true, decide_eq_decide] at sign
    exact sign
  obtain ⟨⟨bits, _⟩⟩ := x
  obtain ⟨⟨bits', _⟩⟩ := y
  obtain rfl : bits = bits' := UInt64.toNat_inj.1 same
  rfl

/-! ## Places -/

theorem roundScaled_near (p places : ℕ) {q : ℕ} (hq : 0 < q) :
    |(roundScaled p q places : ℚ) - (p : ℚ) / q * 10 ^ places| ≤ 1 / 2 := by
  have near := roundQuotient_near (p * 10 ^ places) q hq
  have positive : (0 : ℚ) < q := by exact_mod_cast hq
  unfold roundScaled
  rw [if_pos (Int.natCast_nonneg places), Int.toNat_natCast]
  generalize roundQuotient (p * 10 ^ places) q = r at near ⊢
  have above : 2 * ((r : ℚ) * q) ≤ 2 * (p * 10 ^ places) + q := by exact_mod_cast near.1
  have below : 2 * ((p : ℚ) * 10 ^ places) ≤ 2 * (r * q) + q := by exact_mod_cast near.2
  have units : (r : ℚ) - p / q * 10 ^ places = (r * q - p * 10 ^ places) / q := by
    field_simp
  rw [units, abs_le, le_div_iff₀ positive, div_le_iff₀ positive]
  constructor <;> linarith

/-- A number of places names the decimal whose last digit stands there. -/
theorem ofDecimal_rounds {n : ℕ} (h0 : n ≠ 0) (place : ℤ) (range : place.natAbs ≤ 2000)
    (short : place + (natText n).length ≤ 400) :
    Rounds ((n : ℚ) * 10 ^ place) (ofDecimal n place) := by
  have sign : (if decide (place < 0) then -(place.natAbs : ℤ) else place.natAbs) = place := by
    by_cases negative : place < 0
    · rw [decide_eq_true negative, if_pos rfl]
      omega
    · rw [decide_eq_false negative, if_neg Bool.false_ne_true]
      omega
  have rounds := ofScientific_rounds h0 (decide (place < 0)) range
  rw [sign] at rounds
  unfold ofDecimal
  rwa [if_neg h0, if_neg (not_lt.2 short)]

theorem withSignOf_value {w : ℚ} (hy : toRat? y = some w) :
    toRat? (withSignOf x y) = some (if isNegative x then -w else w) := by
  unfold withSignOf
  split_ifs
  · exact toRat?_neg hy
  · exact hy

theorem ofDecimal_zero (place : ℤ) : ofDecimal 0 place = 0 := rfl

/-- A decimal with few digits and places has a double near it. -/
theorem ofDecimal_near {n places : ℕ} (h0 : n ≠ 0) (few : n < 10 ^ 9) (range : places ≤ 300) :
    ∃ r, toRat? (ofDecimal n (-(places : ℤ))) = some r ∧ IsNear r (n / 10 ^ places) := by
  have short : (natText n).length ≤ 9 := (Nat.length_repr_le_iff (by decide)).2 few
  have rounds := ofDecimal_rounds h0 (-(places : ℤ)) (by omega) (by omega)
  rw [zpow_neg, zpow_natCast, ← div_eq_mul_inv] at rounds
  refine rounds.near (by positivity) ?_
  calc (n : ℚ) / 10 ^ places
    _ ≤ n := div_le_self (Nat.cast_nonneg n) (one_le_pow₀ (by norm_num))
    _ ≤ 10 ^ 9 := by exact_mod_cast few.le
    _ ≤ 2 ^ 1000 := (by norm_num : (10 : ℚ) ^ 9 ≤ 2 ^ 30).trans
      (pow_le_pow_right₀ one_le_two (by decide))

/-- A double next to a decimal with few places is rounded to it. -/
theorem roundTo_near {n : ℤ} {places : ℕ} (hx : toRat? x = some v)
    (close : |v * 10 ^ places - n| < 1 / 2) (few : n.natAbs < 10 ^ 9) (range : places ≤ 300) :
    ∃ r, toRat? (roundTo places x) = some r ∧ IsNear r (n / 10 ^ places) := by
  have zero := isZero_iff_of_value hx
  have shape : roundTo places x = if isZero x then x else withSignOf x (ofDecimal
      (roundScaled (partsOf x).quotient.1 (partsOf x).quotient.2 places) (-(places : ℤ))) := by
    unfold roundTo
    rw [not_isNaN_of_value hx, not_isInf_of_value hx, Bool.false_or, Bool.false_or]
    rfl
  have nearest : roundScaled (partsOf x).quotient.1 (partsOf x).quotient.2 places = n.natAbs := by
    obtain ⟨positive, value⟩ := (partsOf x).quotient_value
    have near := roundScaled_near (partsOf x).quotient.1 places positive
    rw [value, partsOf_abs hx] at near
    generalize roundScaled (partsOf x).quotient.1 (partsOf x).quotient.2 places = r at near ⊢
    have sizes : |(|v|) * 10 ^ places - (|(n : ℚ)|)| < 1 / 2 := by
      rw [← abs_of_pos (by positivity : (0 : ℚ) < 10 ^ places), ← abs_mul]
      exact (abs_abs_sub_abs_le _ _).trans_lt close
    rw [Int.cast_abs.symm, Int.abs_eq_natAbs, Int.cast_natCast] at sizes
    obtain ⟨low, high⟩ := abs_le.1 near
    obtain ⟨low', high'⟩ := abs_lt.1 sizes
    have above : (r : ℚ) < n.natAbs + 1 := by linarith
    have below : (n.natAbs : ℚ) < r + 1 := by linarith
    have above : r < n.natAbs + 1 := by exact_mod_cast above
    have below : n.natAbs < r + 1 := by exact_mod_cast below
    omega
  have scale : (0 : ℚ) < 10 ^ places := by positivity
  obtain ⟨low, high⟩ := abs_lt.1 close
  rw [shape]
  rcases lt_trichotomy n 0 with negative | rfl | positive
  · have least : (n : ℚ) ≤ -1 := by exact_mod_cast (by omega : n ≤ -1)
    have side : v < 0 := by
      by_contra other
      linarith [mul_nonneg (not_lt.1 other) scale.le]
    obtain ⟨r, value, near⟩ := ofDecimal_near (by omega) few range
    have opposite : (n : ℚ) / 10 ^ places = -((n.natAbs : ℕ) / 10 ^ places) := by
      rw [← neg_div, Nat.cast_natAbs, abs_of_neg negative, Int.cast_neg, neg_neg]
    rw [if_neg (mt zero.1 side.ne), nearest, withSignOf_value value, isNegative_of_neg hx side,
      if_pos rfl, opposite]
    exact ⟨-r, rfl, near.neg⟩
  · rw [Int.cast_zero, zero_div]
    refine ⟨0, ?_, isNear_self 0⟩
    split_ifs with none
    · rw [hx, zero.1 none]
    · rw [nearest, Int.natAbs_zero, ofDecimal_zero, withSignOf_value toRat?_zero, neg_zero,
        ite_self]
  · have least : (1 : ℚ) ≤ n := by exact_mod_cast (by omega : 1 ≤ n)
    have side : 0 < v := by
      by_contra other
      linarith [mul_nonpos_of_nonpos_of_nonneg (not_lt.1 other) scale.le]
    obtain ⟨r, value, near⟩ := ofDecimal_near (by omega) few range
    have same : (n : ℚ) / 10 ^ places = (n.natAbs : ℕ) / 10 ^ places := by
      rw [Nat.cast_natAbs, abs_of_pos positive]
    rw [if_neg (mt zero.1 side.ne'), nearest, withSignOf_value value, isNegative_of_pos hx side,
      if_neg Bool.false_ne_true, same]
    exact ⟨r, rfl, near⟩

end Double
end Reckoner
