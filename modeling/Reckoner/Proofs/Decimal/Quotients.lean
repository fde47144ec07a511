-- Doubles that lie apart from zero, and what is divided by them: how large the quotients get, and
-- the third side of a triangle. The sizes of a double are told by its bits.
import Reckoner.Proofs.Decimal.Bounded
import Reckoner.Proofs.Number.Value
import Reckoner.Value.Apply

namespace Reckoner

namespace Double

open Float.Model Float.Model.UnpackedFloat

/-! ## Doubles in their form -/

/-- A finite double that was taken apart has 53 digits, or fewer under the smallest exponent. -/
def IsCanonical : UnpackedFloat → Prop
  | .finite _ m e _ => m < 2 ^ 53 ∧ e < 972 ∧ (2 ^ 52 ≤ m ∧ -1074 ≤ e ∨ e = -1074)
  | _ => True

/-- A double without an exponent of its own has the digits as they are. -/
theorem unpack_subnormal (s : Sign) {m : BitVec 52} (h : m ≠ 0#52) :
    ∃ n e hm, UnpackedFloat.unpack .binary64 (packComponents .binary64 s 0#11 m) =
      .finite s n e hm ∧ n = m.toNat ∧ e = -1074 := by
  have ones : 0#11 ≠ -1#11 := by decide
  unfold UnpackedFloat.unpack
  simp only [unpackMantissa_packComponents, unpackExponent_packComponents, sign_packComponents,
    ones, h, if_false, if_true, dite_false]
  refine ⟨_, _, ?_, rfl, rfl, rfl⟩
  exact BitVec.toNat_pos_of_ne_zero h

theorem unpack_canonical (b : BitVec Format.binary64.numBits) :
    IsCanonical (UnpackedFloat.unpack .binary64 b) := by
  have bias : Format.binary64.exponentBias = 1023 := rfl
  have exponent : (unpackExponent b).toNat < 2 ^ 11 := (unpackExponent b).isLt
  have mantissa : (unpackMantissa b).toNat < 2 ^ 52 := (unpackMantissa b).isLt
  unfold UnpackedFloat.unpack
  dsimp only
  split_ifs with ones none zero none
  · trivial
  · trivial
  · trivial
  · rw [zero]
    exact ⟨by omega, by decide, .inr rfl⟩
  · have low : (unpackExponent b).toNat ≠ 0 := by
      intro h
      exact zero (BitVec.eq_of_toNat_eq h)
    have high : (unpackExponent b).toNat ≠ 2047 := by
      intro h
      exact ones (BitVec.eq_of_toNat_eq h)
    have implicit := toNat_implicit (unpackMantissa b)
    refine ⟨?_, ?_, .inl ⟨?_, ?_⟩⟩ <;> omega

/-- A double in its form comes back as it was put together. -/
theorem unpack_pack_finite {s : Sign} {m : Nat} {e : Int} {hm : 0 < m}
    (h : IsCanonical (.finite s m e hm)) :
    UnpackedFloat.unpack .binary64 (UnpackedFloat.pack .binary64 (.finite s m e hm)) =
      .finite s m e hm := by
  obtain ⟨high, top, digits⟩ := h
  by_cases low : 2 ^ 52 ≤ m
  · exact unpack_pack_normal s hm low high (by omega) top
  · obtain rfl : e = -1074 := by omega
    have few : m.log2 < 52 := (Nat.log2_lt hm.ne').2 (by omega)
    have value : (BitVec.ofNat 52 m).toNat = m := by
      rw [BitVec.toNat_ofNat, Nat.mod_eq_of_lt (by omega)]
    have positive : BitVec.ofNat 52 m ≠ 0#52 := by
      intro h
      have := congrArg BitVec.toNat h
      rw [value] at this
      exact hm.ne' this
    unfold UnpackedFloat.pack
    dsimp only
    rw [if_neg (by decide), if_neg (by change m.log2 + 1 ≠ 53; omega)]
    obtain ⟨n, e, hm', unpacked, hn, rfl⟩ := unpack_subnormal s positive
    obtain rfl : n = m := hn.trans value
    exact unpacked

/-! ## Order -/

theorem lt_iff (x y : Float) : x < y ↔ UnpackedFloat.lt x.toModel.unpack y.toModel.unpack = true := by
  change decide (x.toModel < y.toModel) = true ↔ _
  rw [decide_eq_true_iff]
  rfl

theorem lt_finite_iff {m n : Nat} {e f : Int} (hm : 0 < m) (hn : 0 < n) :
    UnpackedFloat.lt (.finite .positive m e hm) (.finite .positive n f hn) = true ↔
      e < f ∨ e = f ∧ m < n := by
  unfold UnpackedFloat.lt UnpackedFloat.compare
  rw [beq_iff_eq, Option.some_inj, Ordering.then_eq_lt, compare_lt_iff_lt, compare_eq_iff_eq,
    compare_lt_iff_lt]

/-- Of two doubles in their form the larger one does not come first in the order. -/
theorem size_le_of_not_lt {m n : Nat} {e f : Int} (hm : 0 < m) (hn : 0 < n)
    (h : IsCanonical (.finite .positive m e hm)) (h' : IsCanonical (.finite .positive n f hn))
    (lt : ¬ UnpackedFloat.lt (.finite .positive m e hm) (.finite .positive n f hn) = true) :
    (n : ℚ) * 2 ^ f ≤ m * 2 ^ e := by
  obtain ⟨-, -, digits⟩ := h
  obtain ⟨few, -, bottom⟩ := h'
  rw [lt_finite_iff] at lt
  rcases lt_trichotomy e f with less | rfl | more
  · exact absurd (.inl less) lt
  · have : ¬ m < n := fun fewer => lt (.inr ⟨rfl, fewer⟩)
    have : (n : ℚ) ≤ m := by exact_mod_cast not_lt.1 this
    exact mul_le_mul_of_nonneg_right this (two_zpow_pos e).le
  · -- the larger exponent is not the smallest one, so its digits are full
    have full : 2 ^ 52 ≤ m := by omega
    have few : (n : ℚ) ≤ 2 ^ (53 : Int) := by exact_mod_cast few.le
    have full : (2 : ℚ) ^ (52 : Int) ≤ m := by exact_mod_cast full
    calc (n : ℚ) * 2 ^ f
      _ ≤ 2 ^ (53 : Int) * 2 ^ f := mul_le_mul_of_nonneg_right few (two_zpow_pos f).le
      _ ≤ 2 ^ (52 : Int) * 2 ^ e := by
        rw [← two_zpow_add, ← two_zpow_add]
        exact two_zpow_mono (by omega)
      _ ≤ m * 2 ^ e := mul_le_mul_of_nonneg_right full (two_zpow_pos e).le

theorem lt_asymm {m n : Nat} {e f : Int} {hm : 0 < m} {hn : 0 < n}
    (lt : UnpackedFloat.lt (.finite .positive m e hm) (.finite .positive n f hn) = true) :
    ¬ UnpackedFloat.lt (.finite .positive n f hn) (.finite .positive m e hm) = true := by
  rw [lt_finite_iff] at *
  omega

/-! ## Quotients -/

/-- The quotient of two doubles that were taken apart is undefined, or not above a power of two in
size. -/
def Within (k : Int) : UnpackedFloat → UnpackedFloat → Prop
  | .notANumber, _ | _, .notANumber => True
  | .infinity _, _ | .finite .., .zero _ => False
  | .zero _, _ | .finite .., .infinity _ => True
  | .finite _ m e _, .finite _ n f _ => (m : ℚ) * 2 ^ e ≤ 2 ^ k * (n * 2 ^ f)

theorem lt_two_zpow_totalExponent {m : Nat} (hm : m ≠ 0) (e : Int) :
    2 ^ (totalExponent m e - 1) ≤ (m : ℚ) * 2 ^ e ∧ (m : ℚ) * 2 ^ e < 2 ^ totalExponent m e := by
  have low : ((2 ^ m.log2 : Nat) : ℚ) ≤ m := by exact_mod_cast Nat.log2_self_le hm
  have high : (m : ℚ) < (2 ^ (m.log2 + 1) : Nat) := by exact_mod_cast Nat.lt_log2_self
  have total : totalExponent m e - 1 = m.log2 + e := by
    unfold totalExponent
    ring
  have total' : totalExponent m e = (m.log2 + 1 : Nat) + e := by
    unfold totalExponent
    push_cast
    ring
  rw [total, total', two_zpow_add, two_zpow_add, zpow_natCast, zpow_natCast]
  push_cast at low high
  exact ⟨mul_le_mul_of_nonneg_right low (two_zpow_pos e).le,
    mul_lt_mul_of_pos_right high (two_zpow_pos e)⟩

theorem div_finite {m n : Nat} {e f k : Int} {s : Sign} (hm : 0 < m) (hn : 0 < n) (hk : 0 ≤ k)
    (h : (m : ℚ) * 2 ^ e ≤ 2 ^ k * (n * 2 ^ f)) :
    PartsAtMost k (roundWithAccuracy .binary64 s (divCore .binary64 m e n f).1
      (divCore .binary64 m e n f).2.1 (divCore .binary64 m e n f).2.2) := by
  apply roundWithAccuracy_atMost hk
  have target := targetExponent_eq (totalExponent m e - totalExponent n f)
  change ((m <<< (e - f - min (e - f) _).toNat / n + slack (accuracyOfFraction
    (m <<< (e - f - min (e - f) _).toNat % n) n) : Nat) : ℚ) * 2 ^ min (e - f) _ ≤ 2 ^ k
  rw [target]
  generalize ht : min (e - f) (max (totalExponent m e - totalExponent n f - 53) (-1074)) = t
  have shifted := decreaseExponent_value m (t := t) (e := e - f) (by omega)
  change ((m <<< (e - f - t).toNat : Nat) : ℚ) * 2 ^ t = _ at shifted
  generalize m <<< (e - f - t).toNat = a at *
  have positive : (0 : ℚ) < n := by exact_mod_cast hn
  have value : (a : ℚ) * 2 ^ t ≤ 2 ^ k * n := by
    rw [shifted, zpow_sub₀ two_ne_zero, ← mul_div_assoc, div_le_iff₀ (two_zpow_pos f)]
    linarith
  have whole : ((a / n : Nat) : ℚ) * n ≤ a := by exact_mod_cast Nat.div_mul_le_self a n
  unfold accuracyOfFraction
  split_ifs with rest
  · change ((a / n : Nat) : ℚ) * 2 ^ t ≤ 2 ^ k
    refine le_of_mul_le_mul_right ?_ positive
    calc ((a / n : Nat) : ℚ) * 2 ^ t * n = (a / n : Nat) * n * 2 ^ t := by ring
      _ ≤ a * 2 ^ t := mul_le_mul_of_nonneg_right whole (two_zpow_pos t).le
      _ ≤ 2 ^ k * n := value
  · have strict : ((a / n : Nat) : ℚ) * n < a := by
      refine lt_of_le_of_ne whole ?_
      intro eq
      apply rest
      have eq : a / n * n = a := by exact_mod_cast eq
      exact Nat.mod_eq_zero_of_dvd ⟨a / n, by rw [mul_comm, eq]⟩
    have below : ((a / n : Nat) : ℚ) * 2 ^ t < 2 ^ k := by
      refine lt_of_mul_lt_mul_right ?_ positive.le
      calc ((a / n : Nat) : ℚ) * 2 ^ t * n = (a / n : Nat) * n * 2 ^ t := by ring
        _ < a * 2 ^ t := mul_lt_mul_of_pos_right strict (two_zpow_pos t)
        _ ≤ 2 ^ k * n := value
    -- the exponent of the quotient leaves room for 53 digits
    have unit : t ≤ k := by
      have low := (lt_two_zpow_totalExponent hm.ne' e).1
      have high := (lt_two_zpow_totalExponent hn.ne' f).2
      have : (2 : ℚ) ^ (totalExponent m e - 1) < 2 ^ (k + totalExponent n f) := by
        rw [two_zpow_add]
        exact (low.trans h).trans_lt (mul_lt_mul_of_pos_left high (two_zpow_pos k))
      rw [zpow_lt_zpow_iff_right₀ one_lt_two] at this
      omega
    exact succ_units_le below unit

theorem atMost_div {x y : Float} {k : Int} (h : Within k x.toModel.unpack y.toModel.unpack)
    (hk : 0 ≤ k) (top : k < 972) : AtMost k (x / y) := by
  apply pack_atMost (u := UnpackedFloat.div .binary64 x.toModel.unpack y.toModel.unpack) _ hk top
  revert h
  cases x.toModel.unpack with
  | infinity s =>
    cases y.toModel.unpack with
    | notANumber => exact fun _ => trivial
    | _ => exact False.elim
  | notANumber =>
    intro
    cases y.toModel.unpack <;> trivial
  | zero s =>
    intro
    cases y.toModel.unpack <;> trivial
  | finite s m e hm =>
    cases y.toModel.unpack with
    | zero t => exact False.elim
    | infinity t | notANumber => exact fun _ => trivial
    | finite t n f hn => exact div_finite hm hn hk

/-! ## Sizes from below -/

/-- A double that was taken apart is undefined or infinite, or not below a power of two in size. -/
def PartsAtLeast (k : Int) : UnpackedFloat → Prop
  | .zero _ => False
  | .infinity _ | .notANumber => True
  | .finite _ m e _ => 2 ^ k ≤ (m : ℚ) * 2 ^ e

/-- The double is undefined or infinite, or not below a power of two in size. So it is not zero. -/
def AtLeast (k : Int) (x : Float) : Prop := PartsAtLeast k x.toModel.unpack

theorem AtLeast.mono {j k : Int} {x : Float} (h : AtLeast k x) (hj : j ≤ k) : AtLeast j x := by
  unfold AtLeast at *
  cases hu : x.toModel.unpack <;> rw [hu] at h
  case finite => exact (two_zpow_mono hj).trans h
  all_goals exact h

theorem AtLeast.ne_zero {k : Int} {x : Float} (h : AtLeast k x) : (x == 0) = false := by
  unfold AtLeast at h
  change UnpackedFloat.beq x.toModel.unpack (0 : Float).toModel.unpack = false
  change UnpackedFloat.beq _ (.zero .positive) = false
  cases hu : x.toModel.unpack with
  | zero s =>
    rw [hu] at h
    exact h.elim
  | notANumber => rfl
  | infinity s => cases s <;> rfl
  | finite s m e hm => cases s <;> rfl

/-- The quotient by a double apart from zero. -/
theorem AtMost.div {x y : Float} {j k : Int} (hx : AtMost j x) (hy : AtLeast k y) (hk : k ≤ j)
    (top : j - k < 972) : AtMost (j - k) (x / y) := by
  apply atMost_div _ (by omega) top
  unfold AtMost at hx
  unfold AtLeast at hy
  revert hx hy
  cases x.toModel.unpack with
  | infinity s => exact fun h => h.elim
  | notANumber => exact fun _ _ => trivial
  | zero s => cases y.toModel.unpack <;> exact fun _ _ => trivial
  | finite s m e hm =>
    cases y.toModel.unpack with
    | infinity t | notANumber => exact fun _ _ => trivial
    | zero t => exact fun _ h => h.elim
    | finite t n f hn =>
      intro hx hy
      calc (m : ℚ) * 2 ^ e ≤ 2 ^ j := hx
        _ = 2 ^ (j - k) * 2 ^ k := by rw [← two_zpow_add, sub_add_cancel]
        _ ≤ 2 ^ (j - k) * (n * 2 ^ f) := mul_le_mul_of_nonneg_left hy (two_zpow_pos _).le

/-- What has 53 digits or more, and is not too small, is rounded to 53 digits. -/
theorem roundWithAccuracy_atLeast (s : Sign) {m : Nat} {e k : Int} (acc : Accuracy)
    (digits : 2 ^ 52 ≤ m) (bottom : -1022 ≤ k) (h : 2 ^ k ≤ (m : ℚ) * 2 ^ e) :
    ∃ n f hn, roundWithAccuracy .binary64 s m e acc = .finite s n f hn ∧ 2 ^ 52 ≤ n ∧
      n < 2 ^ 53 ∧ -1074 ≤ f ∧ 2 ^ k ≤ (n : ℚ) * 2 ^ f := by
  have hm : m ≠ 0 := by omega
  have log : 52 ≤ m.log2 := (Nat.le_log2 hm).2 digits
  have total : totalExponent m e = m.log2 + 1 + e := rfl
  have large : k < totalExponent m e := by
    have := h.trans_lt (lt_two_zpow_totalExponent hm e).2
    rwa [zpow_lt_zpow_iff_right₀ one_lt_two] at this
  obtain ⟨j, r, n, f, parts, outcome⟩ := exists_roundingParts s m e acc
  have shift := parts.shift_eq
  have low : 2 ^ 52 ≤ m / 2 ^ j := kept_digits (e := e) hm (by omega)
  have rounded := parts.low
  have carried := parts.carried
  have full : 2 ^ 52 ≤ n := by omega
  rcases outcome with ⟨-, zero⟩ | ⟨hn, finite⟩
  · omega
  · refine ⟨n, f, hn, finite, full, parts.few, by omega, ?_⟩
    have full : (2 : ℚ) ^ (52 : Int) ≤ n := by exact_mod_cast full
    calc (2 : ℚ) ^ k ≤ 2 ^ (52 + f) := two_zpow_mono (by omega)
      _ = 2 ^ (52 : Int) * 2 ^ f := two_zpow_add _ _
      _ ≤ n * 2 ^ f := mul_le_mul_of_nonneg_right full (two_zpow_pos _).le

/-- A double that is not too small has 53 digits. -/
theorem full_digits {s : Sign} {m : Nat} {e k : Int} {hm : 0 < m}
    (form : IsCanonical (.finite s m e hm)) (h : 2 ^ k ≤ (m : ℚ) * 2 ^ e) (hk : -1000 ≤ k) :
    2 ^ 52 ≤ m := by
  obtain ⟨high, -, ⟨full, -⟩ | rfl⟩ := form
  · exact full
  · exfalso
    have few : (m : ℚ) < 2 ^ (53 : Int) := by exact_mod_cast high
    have small : (2 : ℚ) ^ k < 2 ^ (53 + -1074 : Int) := by
      rw [two_zpow_add]
      exact h.trans_lt (mul_lt_mul_of_pos_right few (two_zpow_pos _))
    rw [zpow_lt_zpow_iff_right₀ one_lt_two] at small
    omega

/-- The outcome of an operation is undefined or infinite, or has 53 digits and is not below a power
of two in size. -/
def RoundedAtLeast (k : Int) : UnpackedFloat → Prop
  | .zero _ => False
  | .infinity _ | .notANumber => True
  | .finite _ m e _ => 2 ^ 52 ≤ m ∧ m < 2 ^ 53 ∧ -1074 ≤ e ∧ 2 ^ k ≤ (m : ℚ) * 2 ^ e

/-- What has all its digits is put together without a loss. -/
theorem pack_atLeast {u : UnpackedFloat} {k : Int} (h : RoundedAtLeast k u) :
    PartsAtLeast k (UnpackedFloat.unpack .binary64 (UnpackedFloat.pack .binary64 u)) := by
  cases u with
  | zero s => exact h.elim
  | notANumber => trivial
  | infinity s => cases s <;> trivial
  | finite s m e hm =>
    obtain ⟨low, high, bottom, size⟩ := h
    rcases lt_or_ge e 972 with inside | past
    · rw [unpack_pack_normal s hm low high (by omega) inside]
      exact size
    · -- past the largest double it is infinite
      have bias : Format.binary64.exponentBias = 1023 := rfl
      unfold UnpackedFloat.pack
      dsimp only
      rw [if_pos (by omega)]
      cases s <;> trivial

/-- The product of doubles apart from zero. -/
theorem AtLeast.mul {x y : Float} {j k : Int} (hx : AtLeast j x) (hy : AtLeast k y)
    (hj : -1000 ≤ j) (hjk : -1000 ≤ j + k) : AtLeast (j + k) (x * y) := by
  apply pack_atLeast (u := UnpackedFloat.mul .binary64 x.toModel.unpack y.toModel.unpack)
  have form : IsCanonical x.toModel.unpack := unpack_canonical _
  unfold AtLeast at hx hy
  revert hx hy form
  cases x.toModel.unpack with
  | zero s => exact fun h => h.elim
  | notANumber =>
    intros
    cases y.toModel.unpack <;> trivial
  | infinity s =>
    cases y.toModel.unpack with
    | zero t => exact fun _ h => h.elim
    | _ => exact fun _ _ _ => trivial
  | finite s m e hm =>
    cases y.toModel.unpack with
    | zero t => exact fun _ h => h.elim
    | notANumber | infinity t => exact fun _ _ _ => trivial
    | finite t n f hn =>
      intro hx hy form
      have digits : 2 ^ 52 ≤ m * n :=
        (full_digits form hx hj).trans (Nat.le_mul_of_pos_right m hn)
      have size : 2 ^ (j + k) ≤ ((m * n : Nat) : ℚ) * 2 ^ (e + f) := by
        rw [two_zpow_add, two_zpow_add]
        push_cast
        rw [mul_mul_mul_comm]
        exact mul_le_mul hx hy (two_zpow_pos k).le (by positivity)
      obtain ⟨p, g, hp, rounded, low, high, bottom, least⟩ :=
        roundWithAccuracy_atLeast (s * t) .exact digits (by omega) size
      change RoundedAtLeast (j + k) (roundWithAccuracy .binary64 (s * t) (m * n) (e + f) .exact)
      rw [rounded]
      exact ⟨low, high, bottom, least⟩

/-! ## Sides of a triangle -/

theorem unpack_abs (x : Float) : x.abs.toModel.unpack = x.toModel.unpack.abs := by
  have form : IsCanonical x.toModel.unpack := unpack_canonical _
  change UnpackedFloat.unpack .binary64 (UnpackedFloat.pack .binary64 x.toModel.unpack.abs) = _
  revert form
  cases x.toModel.unpack with
  | finite s m e hm => exact fun form => unpack_pack_finite (s := .positive) form
  | notANumber => exact fun _ => rfl
  | infinity s =>
    intro
    unfold UnpackedFloat.abs UnpackedFloat.pack packedInfinity UnpackedFloat.unpack
    simp
  | zero s =>
    intro
    unfold UnpackedFloat.abs UnpackedFloat.pack packedZero UnpackedFloat.unpack
    simp

theorem within_abs {u : UnpackedFloat} (h : u.isInf = false) : Within 0 u u.abs := by
  cases u with
  | infinity s => cases h
  | finite s m e hm =>
    change (m : ℚ) * 2 ^ e ≤ 2 ^ (0 : Int) * (m * 2 ^ e)
    rw [zpow_zero, one_mul]
  | _ => trivial

theorem within_of_lt {u v : UnpackedFloat} (formU : IsCanonical u) (formV : IsCanonical v)
    (h : UnpackedFloat.lt u.abs v.abs = true) : Within 0 u v.abs := by
  cases u with
  | notANumber | zero s => cases v <;> trivial
  | infinity s => cases v <;> cases h
  | finite s m e hm =>
    cases v with
    | zero t => cases h
    | notANumber | infinity t => trivial
    | finite t n f hn =>
      have size := size_le_of_not_lt hn hm formV formU (lt_asymm h)
      change (m : ℚ) * 2 ^ e ≤ 2 ^ (0 : Int) * (n * 2 ^ f)
      rwa [zpow_zero, one_mul]

theorem within_of_not_lt {u v : UnpackedFloat} (formU : IsCanonical u) (formV : IsCanonical v)
    (h : ¬ UnpackedFloat.lt u.abs v.abs = true) (hv : v.isInf = false)
    (h0 : UnpackedFloat.beq u.abs (.zero .positive) = false) : Within 0 v u.abs := by
  cases v with
  | notANumber | zero t => cases u <;> trivial
  | infinity t => cases hv
  | finite t n f hn =>
    cases u with
    | zero s => cases h0
    | notANumber | infinity s => trivial
    | finite s m e hm =>
      have size := size_le_of_not_lt hm hn formU formV h
      change (n : ℚ) * 2 ^ f ≤ 2 ^ (0 : Int) * (m * 2 ^ e)
      rwa [zpow_zero, one_mul]

/-- Neither of two doubles is larger than the one of them that comes later in the order. -/
theorem within_larger {x y m : Float} (hx : x.isInf = false) (hy : y.isInf = false)
    (hm : (if x.abs < y.abs then y.abs else x.abs) = m) (h0 : (m == 0) = false) :
    Within 0 x.toModel.unpack m.toModel.unpack ∧ Within 0 y.toModel.unpack m.toModel.unpack := by
  have formX : IsCanonical x.toModel.unpack := unpack_canonical _
  have formY : IsCanonical y.toModel.unpack := unpack_canonical _
  change UnpackedFloat.beq m.toModel.unpack (.zero .positive) = false at h0
  split_ifs at hm with order <;> rw [lt_iff, unpack_abs, unpack_abs] at order <;> subst hm <;>
    rw [unpack_abs] at *
  · exact ⟨within_of_lt formX formY order, within_abs hy⟩
  · exact ⟨within_abs hx, within_of_not_lt formX formY order hy h0⟩

theorem hypotenuse_atMost {x y : Float} {k : Int} (hx : AtMost k x) (hy : AtMost k y) (hk : 0 ≤ k)
    (top : k + 1 < 972) : AtMost (k + 1) (hypotenuse x y) := by
  unfold hypotenuse
  dsimp only
  generalize hm : (if x.abs < y.abs then y.abs else x.abs) = m
  have large : AtMost k m := by
    rw [← hm]
    split_ifs
    · exact hy.abs hk (by omega)
    · exact hx.abs hk (by omega)
  split_ifs with infinite zero
  · rw [hx.not_isInf, hy.not_isInf] at infinite
    cases infinite
  · trivial
  · obtain ⟨first, second⟩ :=
      within_larger hx.not_isInf hy.not_isInf hm (Bool.eq_false_iff.2 zero)
    have first := atMost_div first le_rfl (by decide)
    have second := atMost_div second le_rfl (by decide)
    have squares := (first.mul first le_rfl le_rfl (by decide)).add
      (second.mul second le_rfl le_rfl (by decide)) le_rfl (by decide)
    have root := (squares.mono (k := 2 * 1) (by decide)).sqrt (by decide) (by decide)
    exact large.mul root hk (by decide) top

/-! ## Sizes from bits -/

/-- The sizes of a double are told by the bits of its exponent. -/
theorem ofBits_sizes {u : UInt64} {p : Nat} (exponent : u.toNat / 2 ^ 52 % 2 ^ 11 = p) (low : 0 < p)
    (high : p < 2047) : AtLeast (p - 1023) (Float.ofBits u) ∧ AtMost (p - 1022) (Float.ofBits u) := by
  have bits : (@unpackExponent Format.binary64 u.toBitVec).toNat = p := by
    rw [← exponent]
    simp [unpackExponent, Nat.shiftRight_eq_div_pow]
  have ones : @unpackExponent Format.binary64 u.toBitVec ≠ -1#_ := by
    intro h
    rw [h] at bits
    exact high.ne' bits
  have zero : @unpackExponent Format.binary64 u.toBitVec ≠ 0#_ := by
    intro h
    rw [h] at bits
    exact low.ne bits
  have mantissa : (@unpackMantissa Format.binary64 u.toBitVec).toNat < 2 ^ 52 :=
    (@unpackMantissa Format.binary64 u.toBitVec).isLt
  obtain ⟨n, e, hm, unpacked, hn, he⟩ := unpack_normal zero ones
  generalize Sign.ofBitVec (@unpackSign Format.binary64 u.toBitVec) = s at unpacked
  have form := unpack_canonical u.toBitVec
  rw [unpacked] at form
  have whole : (Float.ofBits u).toModel.unpack = .finite s n e hm := by
    change UnpackedFloat.unpack .binary64 (UnpackedFloat.pack .binary64
      (UnpackedFloat.unpack .binary64 u.toBitVec)) = _
    rw [unpacked, unpack_pack_finite form]
  have least : (2 : ℚ) ^ (52 : Int) ≤ n := by exact_mod_cast (by omega : 2 ^ 52 ≤ n)
  have most : (n : ℚ) ≤ 2 ^ (53 : Int) := by exact_mod_cast (by omega : n ≤ 2 ^ 53)
  unfold AtLeast AtMost
  rw [whole]
  constructor
  · calc (2 : ℚ) ^ (p - 1023 : Int) = 2 ^ (52 : Int) * 2 ^ e := by
          rw [← two_zpow_add]
          congr 1
          omega
      _ ≤ n * 2 ^ e := mul_le_mul_of_nonneg_right least (two_zpow_pos e).le
  · calc (n : ℚ) * 2 ^ e ≤ 2 ^ (53 : Int) * 2 ^ e :=
          mul_le_mul_of_nonneg_right most (two_zpow_pos e).le
      _ = 2 ^ (p - 1022 : Int) := by
          rw [← two_zpow_add]
          congr 1
          omega

theorem toFloat_zero {b : Binary} (h : b.man = 0) (k : Int) : AtMost k b.toFloat := by
  have bits : Binary.doubleBits 0 b.exp = 0 := by simp [Binary.doubleBits]
  unfold Binary.toFloat
  rw [h, Int.natAbs_zero, bits]
  trivial

/-- A binary fraction between powers of two has a double between them. -/
theorem toFloat_sizes {b : Binary} {j k : Int} (low : (2 : ℝ) ^ j ≤ |b.toReal|)
    (high : |b.toReal| < 2 ^ k) (bottom : -900 ≤ j) (top : k ≤ 900) :
    AtLeast j b.toFloat ∧ AtMost (k + 1) b.toFloat := by
  have h0 : b.man ≠ 0 := by
    intro h
    rw [Binary.toReal_eq_zero.2 h, abs_zero] at low
    exact absurd low (not_le.2 (Binary.two_zpow_pos j))
  have least := low.trans_lt (Binary.abs_toReal_lt b)
  have most := (Binary.le_abs_toReal h0).trans_lt high
  rw [zpow_lt_zpow_iff_right₀ one_lt_two] at least most
  unfold Binary.magnitude at least most
  have bits := doubleBits_bounds (e := b.exp) (Int.natAbs_ne_zero.2 h0) (by omega) (by omega)
  generalize hq : (b.exp + bitLength b.man.natAbs + 1022).toNat = q at bits
  have next : (b.exp + bitLength b.man.natAbs + 1023).toNat = q + 1 := by omega
  rw [next] at bits
  unfold Binary.toFloat
  dsimp only
  generalize Binary.doubleBits b.man.natAbs b.exp = d at *
  generalize hu : UInt64.ofNat (if b.man < 0 then d + 1 <<< 63 else d) = u
  have exponent : u.toNat / 2 ^ 52 % 2 ^ 11 = q ∨ u.toNat / 2 ^ 52 % 2 ^ 11 = q + 1 := by
    rw [← hu, UInt64.toNat_ofNat']
    split_ifs <;> omega
  rcases exponent with exponent | exponent
  · obtain ⟨h1, h2⟩ := ofBits_sizes exponent (by omega) (by omega)
    exact ⟨h1.mono (by omega), h2.mono (by omega)⟩
  · obtain ⟨h1, h2⟩ := ofBits_sizes exponent (by omega) (by omega)
    exact ⟨h1.mono (by omega), h2.mono (by omega)⟩

end Double

end Reckoner
