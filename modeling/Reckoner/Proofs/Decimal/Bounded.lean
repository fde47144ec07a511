-- How large sums, products, quotients and roots of doubles get. Bounds are powers of two, so
-- rounding to a double does not step over them.
import Mathlib
import Reckoner.Proofs.Decimal.Finite

namespace Reckoner

namespace Double

open Float.Model Float.Model.UnpackedFloat

/-! ## Sizes -/

/-- A double that was taken apart is undefined, or not above a power of two in size. -/
def PartsAtMost (k : Int) : UnpackedFloat → Prop
  | .infinity _ => False
  | .notANumber | .zero _ => True
  | .finite _ m e _ => (m : ℚ) * 2 ^ e ≤ 2 ^ k

/-- The double is undefined, or not above a power of two in size. So it is not infinite. -/
def AtMost (k : Int) (x : Float) : Prop := PartsAtMost k x.toModel.unpack

theorem AtMost.not_isInf {k : Int} {x : Float} (h : AtMost k x) : x.isInf = false := by
  unfold AtMost at h
  unfold Float.isInf Float.Model.isInf
  cases hu : x.toModel.unpack with
  | infinity s =>
    rw [hu] at h
    exact h.elim
  | _ => rfl

theorem two_zpow_pos (k : Int) : (0 : ℚ) < 2 ^ k := zpow_pos two_pos k

theorem two_zpow_mono {j k : Int} (h : j ≤ k) : (2 : ℚ) ^ j ≤ 2 ^ k :=
  zpow_le_zpow_right₀ one_le_two h

theorem two_zpow_add (j k : Int) : (2 : ℚ) ^ (j + k) = 2 ^ j * 2 ^ k := zpow_add₀ two_ne_zero j k

theorem PartsAtMost.mono {j k : Int} {u : UnpackedFloat} (h : PartsAtMost j u) (hk : j ≤ k) :
    PartsAtMost k u := by
  cases u with
  | finite s m e hm => exact le_trans h (two_zpow_mono hk)
  | _ => exact h

theorem AtMost.mono {j k : Int} {x : Float} (h : AtMost j x) (hk : j ≤ k) : AtMost k x :=
  PartsAtMost.mono h hk

/-- A whole number of units below a power of two that is a multiple of the unit leaves room for one
more unit. -/
theorem succ_units_le {n : Nat} {e k : Int} (h : (n : ℚ) * 2 ^ e < 2 ^ k) (he : e ≤ k) :
    ((n + 1 : Nat) : ℚ) * 2 ^ e ≤ 2 ^ k := by
  obtain ⟨d, rfl⟩ := Int.le.dest he
  rw [two_zpow_add, mul_comm, zpow_natCast] at *
  have few : (n : ℚ) < 2 ^ d := lt_of_mul_lt_mul_left h (two_zpow_pos e).le
  have few : n < 2 ^ d := by exact_mod_cast few
  refine mul_le_mul_of_nonneg_left ?_ (two_zpow_pos e).le
  exact_mod_cast few

/-! ## Rounding -/

theorem shift_mantissa (x : ExtendedMantissa) (k : Nat) :
    (x >>> k).mantissa = x.mantissa / 2 ^ k := by
  induction k with
  | zero => simp [HShiftRight.hShiftRight, Nat.repeat]
  | succ k ih =>
    change (x >>> k).mantissa / 2 = _
    rw [ih, Nat.div_div_eq_div_mul, pow_succ]

/-- Nothing but zeros is shifted out where no mark is left. -/
theorem shift_exact_iff (x : ExtendedMantissa) (k : Nat) :
    ((x >>> k).roundBit || (x >>> k).stickyBit) = false ↔
      2 ^ k ∣ x.mantissa ∧ (x.roundBit || x.stickyBit) = false := by
  induction k with
  | zero => simp [HShiftRight.hShiftRight, Nat.repeat]
  | succ k ih =>
    change (((x >>> k).mantissa % 2 != 0) || ((x >>> k).roundBit || (x >>> k).stickyBit)) = false ↔ _
    rw [Bool.or_eq_false_iff, ih, shift_mantissa, ← and_assoc]
    refine and_congr_left fun _ => ?_
    constructor
    · rintro ⟨even, c, hc⟩
      rw [hc, Nat.mul_div_cancel_left _ (Nat.two_pow_pos k)] at even
      rw [hc, pow_succ]
      exact Nat.mul_dvd_mul_left _ (Nat.dvd_of_mod_eq_zero (by simpa using even))
    · rintro ⟨c, hc⟩
      rw [pow_succ, mul_assoc] at hc
      rw [hc, Nat.mul_div_cancel_left _ (Nat.two_pow_pos k)]
      exact ⟨by simp, Nat.dvd_mul_right _ _⟩

theorem le_roundedMantissa (x : ExtendedMantissa) : x.mantissa ≤ x.roundedMantissa := by
  rcases x with ⟨m, r, s⟩
  cases r <;> cases s <;>
    simp [ExtendedMantissa.roundedMantissa, ExtendedMantissa.accuracy, Accuracy.roundToNearestEven]

theorem roundedMantissa_le (x : ExtendedMantissa) : x.roundedMantissa ≤ x.mantissa + 1 := by
  rcases x with ⟨m, r, s⟩
  cases r <;> cases s <;>
    simp [ExtendedMantissa.roundedMantissa, ExtendedMantissa.accuracy, Accuracy.roundToNearestEven]
  omega

theorem roundedMantissa_exact {x : ExtendedMantissa} (h : (x.roundBit || x.stickyBit) = false) :
    x.roundedMantissa = x.mantissa := by
  rcases x with ⟨m, r, s⟩
  rw [Bool.or_eq_false_iff] at h
  obtain ⟨rfl, rfl⟩ := h
  rfl

/-- How far a value may lie above its mantissa. -/
def slack : Accuracy → Nat
  | .exact => 0
  | .inexact _ => 1

theorem ofMantissaAndAccuracy_mantissa (m : Nat) (acc : Accuracy) :
    (ExtendedMantissa.ofMantissaAndAccuracy m acc).mantissa = m := by
  cases acc with
  | exact => rfl
  | inexact o => cases o <;> rfl

theorem marks_iff (m : Nat) (acc : Accuracy) :
    ((ExtendedMantissa.ofMantissaAndAccuracy m acc).roundBit ||
      (ExtendedMantissa.ofMantissaAndAccuracy m acc).stickyBit) = false ↔ slack acc = 0 := by
  cases acc with
  | exact => exact iff_of_true rfl rfl
  | inexact o => cases o <;> simp [ExtendedMantissa.ofMantissaAndAccuracy, slack]

/-- The exponent of a double with 53 digits. -/
theorem targetExponent_eq (t : Int) : Format.binary64.targetExponent t = max (t - 53) (-1074) := rfl

/-- The mantissa is shifted to the exponent of a double, if that is not below its own. -/
theorem shiftToTargetExponent_eq (m : Nat) (e : Int) (acc : Accuracy) :
    ∃ k : Nat, shiftToTargetExponent .binary64 m e acc =
        (ExtendedMantissa.ofMantissaAndAccuracy m acc >>> k, e + k) ∧
      k = (max (totalExponent m e - 53) (-1074) - e).toNat :=
  ⟨(Format.binary64.targetExponent (totalExponent m e) - e).toNat, rfl, rfl⟩

/-- What is shifted to an exponent above the smallest one keeps 53 digits. -/
theorem kept_digits {m : Nat} {e : Int} {k : Nat} (hm : m ≠ 0)
    (target : e + k = totalExponent m e - 53) : 2 ^ 52 ≤ m / 2 ^ k := by
  unfold totalExponent at target
  rw [Nat.le_div_iff_mul_le (Nat.two_pow_pos k), ← pow_add]
  refine le_trans ?_ (Nat.log2_self_le hm)
  exact Nat.pow_le_pow_right two_pos (by omega)

/-- What is shifted to the exponent of a double keeps 53 digits at most. -/
theorem kept_lt {m : Nat} {e : Int} {k : Nat}
    (target : k = (max (totalExponent m e - 53) (-1074) - e).toNat) : m / 2 ^ k < 2 ^ 53 := by
  unfold totalExponent at target
  rw [Nat.div_lt_iff_lt_mul (Nat.two_pow_pos k), ← pow_add]
  exact Nat.lt_log2_self.trans_le (Nat.pow_le_pow_right two_pos (by omega))

theorem units_eq (n k : Nat) (e : Int) : (n : ℚ) * 2 ^ (e + k) = ((n * 2 ^ k : Nat) : ℚ) * 2 ^ e := by
  rw [two_zpow_add, zpow_natCast]
  push_cast
  ring

/-- What rounding leaves has 53 digits, or is the next power of two, which loses its last zero. -/
theorem carry_eq {r : Nat} {t : Int} (hr : r ≤ 2 ^ 53) (ht : -1074 ≤ t) :
    ∃ n f, (shiftToTargetExponent .binary64 r t .exact).1.mantissa = n ∧
      (shiftToTargetExponent .binary64 r t .exact).2 = f ∧ (n : ℚ) * 2 ^ f = r * 2 ^ t ∧
      n < 2 ^ 53 ∧ (f = t ∧ n = r ∨ f = t + 1 ∧ n = 2 ^ 52) := by
  obtain ⟨i, shifted, shift⟩ := shiftToTargetExponent_eq r t .exact
  have total : totalExponent r t = r.log2 + 1 + t := rfl
  rw [shifted]
  dsimp only
  rw [shift_mantissa, ofMantissaAndAccuracy_mantissa]
  rcases hr.lt_or_eq with few | rfl
  · have log : r.log2 ≤ 52 := by
      rcases eq_or_ne r 0 with rfl | h0
      · decide
      · exact Nat.lt_succ_iff.1 ((Nat.log2_lt h0).2 few)
    obtain rfl : i = 0 := by omega
    exact ⟨_, _, rfl, rfl, by simp, by simpa using few, .inl ⟨by simp, by simp⟩⟩
  · have log : (2 ^ 53).log2 = 53 := Nat.log2_two_pow
    obtain rfl : i = 1 := by omega
    refine ⟨_, _, rfl, rfl, ?_, by decide, .inr ⟨rfl, by decide⟩⟩
    rw [Nat.cast_one, two_zpow_add]
    norm_num
    ring

/-- The parts that rounding goes through: the mantissa is shifted by some places and rounded, and
where that takes one digit more, the last zero goes. -/
structure RoundingParts (m : Nat) (e : Int) (acc : Accuracy) (shift rounded n : Nat) (f : Int) :
    Prop where
  shift_eq : shift = (max (totalExponent m e - 53) (-1074) - e).toNat
  rounded_eq : rounded = (ExtendedMantissa.ofMantissaAndAccuracy m acc >>> shift).roundedMantissa
  value : (n : ℚ) * 2 ^ f = rounded * 2 ^ (e + shift)
  few : n < 2 ^ 53
  carried : f = e + shift ∧ n = rounded ∨ f = e + shift + 1 ∧ n = 2 ^ 52

namespace RoundingParts

variable {m shift rounded n : Nat} {e f : Int} {acc : Accuracy}

/-- The digits that are kept are 53 at most. -/
theorem kept (h : RoundingParts m e acc shift rounded n f) : m / 2 ^ shift < 2 ^ 53 :=
  kept_lt h.shift_eq

theorem low (h : RoundingParts m e acc shift rounded n f) : m / 2 ^ shift ≤ rounded := by
  have least := le_roundedMantissa (ExtendedMantissa.ofMantissaAndAccuracy m acc >>> shift)
  rwa [shift_mantissa, ofMantissaAndAccuracy_mantissa, ← h.rounded_eq] at least

end RoundingParts

/-- Rounding goes through these parts, and puts a double together from the last ones. -/
theorem exists_roundingParts (s : Sign) (m : Nat) (e : Int) (acc : Accuracy) :
    ∃ shift rounded n f, RoundingParts m e acc shift rounded n f ∧
      (roundWithAccuracy .binary64 s m e acc = .zero s ∧ n = 0 ∨
        ∃ hn, roundWithAccuracy .binary64 s m e acc = .finite s n f hn) := by
  obtain ⟨j, first, shift⟩ := shiftToTargetExponent_eq m e acc
  have kept := kept_lt shift
  have high := roundedMantissa_le (ExtendedMantissa.ofMantissaAndAccuracy m acc >>> j)
  rw [shift_mantissa, ofMantissaAndAccuracy_mantissa] at high
  unfold roundWithAccuracy
  rw [first]
  dsimp only
  generalize hr : (ExtendedMantissa.ofMantissaAndAccuracy m acc >>> j).roundedMantissa = r at *
  obtain ⟨n, f, hn, hf, value, few, carried⟩ :=
    carry_eq (r := r) (t := e + j) (by omega) (by omega)
  generalize shiftToTargetExponent .binary64 r (e + j) .exact = last at *
  obtain rfl := hn
  obtain rfl := hf
  refine ⟨j, r, _, _, ⟨shift, hr.symm, value, few, carried⟩, ?_⟩
  split_ifs with zero
  · exact .inl ⟨rfl, zero⟩
  · exact .inr ⟨Nat.pos_of_ne_zero zero, rfl⟩

/-- Rounding does not step over a power of two. -/
theorem roundWithAccuracy_atMost {s : Sign} {m : Nat} {e k : Int} {acc : Accuracy} (hk : 0 ≤ k)
    (h : ((m + slack acc : Nat) : ℚ) * 2 ^ e ≤ 2 ^ k) :
    PartsAtMost k (roundWithAccuracy .binary64 s m e acc) := by
  obtain ⟨j, r, n, f, parts, outcome⟩ := exists_roundingParts s m e acc
  have target : j = 0 ∨ e + j = max (totalExponent m e - 53) (-1074) := by
    have := parts.shift_eq
    omega
  set x := ExtendedMantissa.ofMantissaAndAccuracy m acc with hx
  have mantissa : (x >>> j).mantissa = m / 2 ^ j := by
    rw [shift_mantissa, hx, ofMantissaAndAccuracy_mantissa]
  have rounded : (r : ℚ) * 2 ^ (e + j) ≤ 2 ^ k := by
    rw [parts.rounded_eq]
    by_cases marks : ((x >>> j).roundBit || (x >>> j).stickyBit) = false
    · -- nothing is lost
      obtain ⟨⟨c, hc⟩, whole⟩ := (shift_exact_iff x j).1 marks
      rw [hx, ofMantissaAndAccuracy_mantissa] at hc
      rw [(marks_iff m acc).1 whole, Nat.add_zero] at h
      rw [roundedMantissa_exact marks, mantissa, units_eq, hc,
        Nat.mul_div_cancel_left _ (Nat.two_pow_pos j), mul_comm c, ← hc]
      exact h
    · -- the kept digits lie below the value, so one more unit stays within the bound
      have below : m / 2 ^ j * 2 ^ j < m + slack acc := by
        have le : m / 2 ^ j * 2 ^ j ≤ m := Nat.div_mul_le_self m (2 ^ j)
        refine lt_of_le_of_ne (le.trans (Nat.le_add_right _ _)) fun eq => marks ?_
        refine (shift_exact_iff x j).2 ⟨?_, (marks_iff m acc).2 (by omega)⟩
        rw [hx, ofMantissaAndAccuracy_mantissa]
        exact ⟨m / 2 ^ j, by rw [Nat.mul_comm]; omega⟩
      have strict : ((m / 2 ^ j : Nat) : ℚ) * 2 ^ (e + j) < 2 ^ k := by
        rw [units_eq]
        refine lt_of_lt_of_le ?_ h
        exact mul_lt_mul_of_pos_right (by exact_mod_cast below) (two_zpow_pos e)
      have units : e + j ≤ k := by
        by_contra hlt
        have none : m / 2 ^ j = 0 := by
          have one : ((m / 2 ^ j : Nat) : ℚ) * 2 ^ (e + j) < 1 * 2 ^ (e + j) := by
            rw [one_mul]
            exact strict.trans_le (two_zpow_mono (by omega))
          have few := lt_of_mul_lt_mul_right one (two_zpow_pos _).le
          exact Nat.lt_one_iff.1 (by exact_mod_cast few)
        rcases target with rfl | target
        · -- the value is at least one unit
          have unit : 1 ≤ m + slack acc := by omega
          have whole : (1 : ℚ) * 2 ^ e ≤ 2 ^ k := by
            refine le_trans (mul_le_mul_of_nonneg_right ?_ (two_zpow_pos e).le) h
            exact_mod_cast unit
          rw [one_mul, zpow_le_zpow_iff_right₀ one_lt_two] at whole
          simp only [Nat.cast_zero] at hlt
          omega
        · have total : e + j = totalExponent m e - 53 := by omega
          rcases eq_or_ne m 0 with rfl | hm
          · simp [totalExponent] at total
            omega
          · have := kept_digits hm total
            omega
      refine le_trans ?_ (succ_units_le strict units)
      refine mul_le_mul_of_nonneg_right ?_ (two_zpow_pos _).le
      exact_mod_cast mantissa ▸ roundedMantissa_le (x >>> j)
  rcases outcome with ⟨zero, -⟩ | ⟨hn, finite⟩
  · rw [zero]
    trivial
  · rw [finite]
    exact parts.value.trans_le rounded

/-! ## Putting doubles together -/

theorem toNat_implicit (m : BitVec 52) : (1#1 ++ m).toNat = 2 ^ 52 + m.toNat := by
  rw [BitVec.toNat_append, ← Nat.shiftLeft_add_eq_or_of_lt m.isLt]
  simp [Nat.shiftLeft_eq]

/-- Doubles without an exponent of their own are below one. -/
theorem unpack_atMost_of_small {b : BitVec Format.binary64.numBits} {k : Int} (hk : 0 ≤ k)
    (h : unpackExponent b = 0#_) : PartsAtMost k (UnpackedFloat.unpack .binary64 b) := by
  unfold UnpackedFloat.unpack
  dsimp only
  rw [if_neg (by rw [h]; decide), if_pos h]
  split_ifs with hm
  · trivial
  · rw [h]
    have small : ((unpackMantissa b).toNat : ℚ) ≤ 2 ^ (52 : Int) := by
      have := (unpackMantissa b).isLt
      exact_mod_cast this.le
    calc ((unpackMantissa b).toNat : ℚ) * 2 ^ (_ : Int)
      _ ≤ 2 ^ (52 : Int) * 2 ^ (-1074 : Int) := mul_le_mul small le_rfl (two_zpow_pos _).le (by simp)
      _ ≤ 2 ^ k := by
        rw [← two_zpow_add]
        exact two_zpow_mono (by omega)

theorem sign_packComponents (s : Sign) (x : BitVec 11) (m : BitVec 52) :
    Sign.ofBitVec (unpackSign (packComponents .binary64 s x m)) = s := by
  have bit : unpackSign (packComponents .binary64 s x m) = s.toBitVec := by
    change (s.toBitVec ++ x ++ m).extractLsb' 63 1 = s.toBitVec
    rw [BitVec.extractLsb'_append_eq_of_le (by decide),
      BitVec.extractLsb'_append_eq_of_le (by decide)]
    cases s <;> rfl
  rw [bit]
  cases s <;> rfl

/-- A double with an exponent of its own has the digits before which a one was left out. -/
theorem unpack_normal {b : BitVec Format.binary64.numBits} (h0 : unpackExponent b ≠ 0#_)
    (h1 : unpackExponent b ≠ -1#_) :
    ∃ n e hm, UnpackedFloat.unpack .binary64 b = .finite (Sign.ofBitVec (unpackSign b)) n e hm ∧
      n = 2 ^ 52 + (unpackMantissa b).toNat ∧ e = (unpackExponent b).toNat - 1075 := by
  have bias : Format.binary64.exponentBias = 1023 := rfl
  have implicit := toNat_implicit (unpackMantissa b)
  unfold UnpackedFloat.unpack
  dsimp only
  rw [if_neg h1, if_neg h0]
  refine ⟨_, _, by rw [implicit]; positivity, rfl, implicit, ?_⟩
  rw [bias]
  push_cast
  ring

/-- A double with 53 digits comes back as it was put together. -/
theorem unpack_pack_normal (s : Sign) {m : Nat} {e : Int} (hm : 0 < m) (low : 2 ^ 52 ≤ m)
    (high : m < 2 ^ 53) (bottom : -1075 < e) (top : e < 972) :
    UnpackedFloat.unpack .binary64 (UnpackedFloat.pack .binary64 (.finite s m e hm)) =
      .finite s m e hm := by
  have digits : m.log2 + 1 = Format.binary64.mantissaBits := by
    have : m.log2 = 52 := (Nat.log2_eq_iff hm.ne').2 ⟨low, high⟩
    rw [this]
    rfl
  have bias : Format.binary64.exponentBias = 1023 := rfl
  unfold UnpackedFloat.pack
  dsimp only
  rw [if_pos digits]
  generalize hb : (e + (Format.binary64.exponentBias : Int) + (52 : Nat)).toNat = b
  have positive : 0 < b := by omega
  have bounded : b < 2047 := by omega
  have biased : (BitVec.ofNat 11 b).toNat = b := by
    rw [BitVec.toNat_ofNat, Nat.mod_eq_of_lt (by omega)]
  rw [if_neg (by omega)]
  have zero : BitVec.ofNat 11 b ≠ 0#11 := by
    intro h
    have := congrArg BitVec.toNat h
    rw [biased] at this
    exact positive.ne' this
  have ones : BitVec.ofNat 11 b ≠ -1#11 := by
    intro h
    have := congrArg BitVec.toNat h
    rw [biased] at this
    exact bounded.ne this
  have parts := @unpack_normal
    (packComponents .binary64 s (BitVec.ofNat 11 b) (BitVec.ofNat 52 m))
  simp only [sign_packComponents, unpackMantissa_packComponents, unpackExponent_packComponents]
    at parts
  obtain ⟨n, e', hm', unpacked, hn, he⟩ := parts zero ones
  obtain rfl : n = m := by
    rw [hn, BitVec.toNat_ofNat]
    omega
  obtain rfl : e' = e := by omega
  exact unpacked

theorem pack_atMost {u : UnpackedFloat} {k : Int} (h : PartsAtMost k u) (hk : 0 ≤ k) (top : k < 972) :
    PartsAtMost k (UnpackedFloat.unpack .binary64 (UnpackedFloat.pack .binary64 u)) := by
  cases u with
  | infinity s => exact h.elim
  | notANumber => trivial
  | zero s =>
    refine unpack_atMost_of_small hk ?_
    unfold UnpackedFloat.pack packedZero
    exact unpackExponent_packComponents
  | finite s m e hm =>
    have exponent : e ≤ k := by
      have one : (1 : ℚ) * 2 ^ e ≤ 2 ^ k := by
        refine le_trans (mul_le_mul_of_nonneg_right ?_ (two_zpow_pos e).le) h
        exact_mod_cast hm
      rwa [one_mul, zpow_le_zpow_iff_right₀ one_lt_two] at one
    by_cases normal : m.log2 = 52 ∧ -1075 < e
    · have digits := (Nat.log2_eq_iff hm.ne').1 normal.1
      rw [unpack_pack_normal s hm digits.1 digits.2 normal.2 (by omega)]
      exact h
    · -- without 53 digits, or below the exponents, no exponent is put in
      refine unpack_atMost_of_small hk ?_
      have bias : Format.binary64.exponentBias = 1023 := rfl
      unfold UnpackedFloat.pack
      dsimp only
      generalize hb : (e + (Format.binary64.exponentBias : Int) + (52 : Nat)).toNat = b
      rw [if_neg (by omega)]
      split_ifs with digits
      · have few : m.log2 = 52 := by simpa [Format.mantissaBits] using digits
        have zero : b = 0 := by omega
        rw [unpackExponent_packComponents, zero]
      · exact unpackExponent_packComponents

/-! ## Operations -/

theorem decreaseExponent_value (m : Nat) {e t : Int} (h : t ≤ e) :
    ((decreaseExponent m e t).1 : ℚ) * 2 ^ t = m * 2 ^ e := by
  obtain ⟨d, rfl⟩ := Int.le.dest h
  have shift : (t + d - t).toNat = d := by omega
  change ((m <<< (t + d - t).toNat : Nat) : ℚ) * 2 ^ t = _
  rw [shift, Nat.shiftLeft_eq, ← units_eq]

theorem round_atMost {s : Sign} {m : Nat} {e k : Int} (hk : 0 ≤ k) (h : (m : ℚ) * 2 ^ e ≤ 2 ^ k) :
    PartsAtMost k (UnpackedFloat.round .binary64 s m e) := by
  refine roundWithAccuracy_atMost hk ?_
  change ((m <<< (e - Format.binary64.targetExponent (totalExponent m e)).toNat : Nat) : ℚ) *
    2 ^ (e - (e - Format.binary64.targetExponent (totalExponent m e)).toNat) ≤ _
  generalize (e - Format.binary64.targetExponent (totalExponent m e)).toNat = d
  have back := units_eq m d (e - d)
  rw [sub_add_cancel] at back
  rw [Nat.shiftLeft_eq, ← back]
  exact h

theorem normalize_atMost {n : Int} {e k : Int} {s : Sign} (hk : 0 ≤ k)
    (h : (n.natAbs : ℚ) * 2 ^ e ≤ 2 ^ k) : PartsAtMost k (UnpackedFloat.normalize .binary64 n e s) := by
  unfold UnpackedFloat.normalize
  split
  · refine round_atMost hk ?_
    rwa [show (-n).toNat = n.natAbs by have := ‹compare n 0 = .lt›; rw [compare_lt_iff_lt] at this; omega]
  · trivial
  · refine round_atMost hk ?_
    rwa [show n.toNat = n.natAbs by have := ‹compare n 0 = .gt›; rw [compare_gt_iff_gt] at this; omega]

theorem natAbs_apply (s : Sign) (n : Int) : (s.apply n).natAbs = n.natAbs := by
  cases s <;> simp [Sign.apply]

/-- Two signed mantissas under one exponent add up to no more than their sizes do. -/
theorem signed_atMost {m n : Nat} {e f k : Int} (s t : Sign) (hm : (m : ℚ) * 2 ^ e ≤ 2 ^ k)
    (hn : (n : ℚ) * 2 ^ f ≤ 2 ^ k) :
    ((s.apply (decreaseExponent m e (min e f)).1 +
      t.apply (decreaseExponent n f (min e f)).1).natAbs : ℚ) * 2 ^ min e f ≤ 2 ^ (k + 1) := by
  have first := decreaseExponent_value m (min_le_left e f)
  have second := decreaseExponent_value n (min_le_right e f)
  generalize (decreaseExponent m e (min e f)).1 = a at *
  generalize (decreaseExponent n f (min e f)).1 = b at *
  have sizes := Int.natAbs_add_le (s.apply a) (t.apply b)
  rw [natAbs_apply, natAbs_apply, Int.natAbs_natCast, Int.natAbs_natCast] at sizes
  have sizes : ((s.apply a + t.apply b).natAbs : ℚ) ≤ a + b := by exact_mod_cast sizes
  calc ((s.apply a + t.apply b).natAbs : ℚ) * 2 ^ min e f
    _ ≤ (a + b) * 2 ^ min e f := mul_le_mul_of_nonneg_right sizes (two_zpow_pos _).le
    _ = m * 2 ^ e + n * 2 ^ f := by rw [add_mul, first, second]
    _ ≤ 2 ^ k + 2 ^ k := add_le_add hm hn
    _ = 2 ^ (k + 1) := by
      rw [two_zpow_add]
      ring

theorem PartsAtMost.add {u v : UnpackedFloat} {k : Int} (hu : PartsAtMost k u)
    (hv : PartsAtMost k v) (hk : 0 ≤ k) :
    PartsAtMost (k + 1) (UnpackedFloat.add .binary64 u v) := by
  cases u with
  | infinity s => exact hu.elim
  | notANumber => cases v <;> trivial
  | zero s =>
    cases v with
    | infinity t => exact hv.elim
    | notANumber => trivial
    | zero t => cases s <;> cases t <;> trivial
    | finite t n f hn => exact hv.mono (by omega)
  | finite s m e hm =>
    cases v with
    | infinity t => exact hv.elim
    | notANumber => trivial
    | zero t => exact hu.mono (by omega)
    | finite t n f hn =>
      apply normalize_atMost (by omega)
      exact signed_atMost s t hu hv

theorem PartsAtMost.neg {u : UnpackedFloat} {k : Int} (h : PartsAtMost k u) :
    PartsAtMost k u.neg := by
  cases u <;> exact h

/-- A difference is a sum with the opposite. -/
theorem sub_eq_add_neg (u v : UnpackedFloat) :
    UnpackedFloat.sub .binary64 u v = UnpackedFloat.add .binary64 u v.neg := by
  cases u <;> cases v <;> try rfl
  rename_i t n f hn
  cases t <;> simp [UnpackedFloat.sub, UnpackedFloat.add, UnpackedFloat.neg, Sign.apply]; rfl

theorem sqrt_value {m : Nat} {e t : Int} (h : 2 * t ≤ e) :
    ((m <<< (e - 2 * t).toNat : Nat) : ℚ) * (2 ^ t) ^ 2 = m * 2 ^ e := by
  rw [← zpow_natCast, ← zpow_mul, mul_comm t]
  exact decreaseExponent_value m h

/-- The whole part of a root, and one more unit where something is left, stays within a power of
two. -/
theorem root_atMost {n : Nat} {t k : Int} (hn : 0 < n) (h : (n : ℚ) * (2 ^ t) ^ 2 ≤ (2 ^ k) ^ 2) :
    (Nat.sqrt n : ℚ) * 2 ^ t ≤ 2 ^ k ∧
      (n - Nat.sqrt n * Nat.sqrt n ≠ 0 → ((Nat.sqrt n + 1 : Nat) : ℚ) * 2 ^ t ≤ 2 ^ k) := by
  have below := Nat.sqrt_le' n
  constructor
  · have root : (Nat.sqrt n : ℚ) ^ 2 ≤ n := by exact_mod_cast below
    apply le_of_sq_le_sq _ (two_zpow_pos k).le
    rw [mul_pow]
    exact (mul_le_mul_of_nonneg_right root (by positivity)).trans h
  · intro left
    have root : (Nat.sqrt n : ℚ) ^ 2 < n := by
      have : Nat.sqrt n ^ 2 ≠ n := by
        rw [pow_two]
        omega
      exact_mod_cast lt_of_le_of_ne below this
    have strict : (Nat.sqrt n : ℚ) * 2 ^ t < 2 ^ k := by
      apply lt_of_pow_lt_pow_left₀ 2 (two_zpow_pos k).le
      rw [mul_pow]
      exact (mul_lt_mul_of_pos_right root (by positivity)).trans_le h
    have unit : (1 : ℚ) * 2 ^ t < 2 ^ k := by
      have one : 1 ≤ Nat.sqrt n := Nat.sqrt_pos.2 hn
      exact (mul_le_mul_of_nonneg_right (by exact_mod_cast one) (two_zpow_pos t).le).trans_lt strict
    rw [one_mul, zpow_lt_zpow_iff_right₀ one_lt_two] at unit
    exact succ_units_le strict unit.le

section Operations

variable {x y : Float} {j k : Int}

theorem AtMost.neg (h : AtMost k x) (hk : 0 ≤ k) (top : k < 972) : AtMost k (-x) := by
  refine pack_atMost (u := x.toModel.unpack.neg) ?_ hk top
  unfold AtMost at h
  cases hu : x.toModel.unpack <;> rw [hu] at h <;> exact h

theorem AtMost.abs (h : AtMost k x) (hk : 0 ≤ k) (top : k < 972) : AtMost k x.abs := by
  refine pack_atMost (u := x.toModel.unpack.abs) ?_ hk top
  unfold AtMost at h
  cases hu : x.toModel.unpack <;> rw [hu] at h <;> exact h

theorem AtMost.mul (hx : AtMost j x) (hy : AtMost k y) (hj : 0 ≤ j) (hk : 0 ≤ k)
    (top : j + k < 972) : AtMost (j + k) (x * y) := by
  refine pack_atMost (u := UnpackedFloat.mul .binary64 x.toModel.unpack y.toModel.unpack) ?_
    (by omega) top
  unfold AtMost at hx hy
  cases hu : x.toModel.unpack with
  | infinity s =>
    rw [hu] at hx
    exact hx.elim
  | notANumber => cases y.toModel.unpack <;> trivial
  | zero s =>
    cases hv : y.toModel.unpack with
    | infinity t =>
      rw [hv] at hy
      exact hy.elim
    | _ => trivial
  | finite s m e hm =>
    cases hv : y.toModel.unpack with
    | infinity t =>
      rw [hv] at hy
      exact hy.elim
    | notANumber | zero t => trivial
    | finite t n f hn =>
      rw [hu] at hx
      rw [hv] at hy
      refine roundWithAccuracy_atMost (by omega) ?_
      have product := mul_le_mul hx hy (by positivity) (two_zpow_pos j).le
      rw [← two_zpow_add] at product
      refine le_trans (le_of_eq ?_) product
      rw [two_zpow_add]
      push_cast [slack]
      ring

theorem AtMost.add (hx : AtMost k x) (hy : AtMost k y) (hk : 0 ≤ k) (top : k + 1 < 972) :
    AtMost (k + 1) (x + y) := pack_atMost (PartsAtMost.add hx hy hk) (by omega) top

theorem AtMost.sub (hx : AtMost k x) (hy : AtMost k y) (hk : 0 ≤ k) (top : k + 1 < 972) :
    AtMost (k + 1) (x - y) := by
  apply pack_atMost (u := UnpackedFloat.sub .binary64 x.toModel.unpack y.toModel.unpack) _
    (by omega) top
  rw [sub_eq_add_neg]
  exact PartsAtMost.add hx (PartsAtMost.neg hy) hk

theorem AtMost.sqrt (h : AtMost (2 * k) x) (hk : 0 ≤ k) (top : k < 972) : AtMost k x.sqrt := by
  apply pack_atMost (u := UnpackedFloat.sqrt .binary64 x.toModel.unpack) _ hk top
  unfold AtMost at h
  cases hu : x.toModel.unpack with
  | infinity s =>
    rw [hu] at h
    exact h.elim
  | notANumber | zero s => trivial
  | finite s m e hm =>
    rw [hu] at h
    cases s with
    | negative => trivial
    | positive =>
      apply roundWithAccuracy_atMost hk
      generalize ht : min (e.ediv 2) (Format.binary64.targetExponent
        ((totalExponent m e + 1).ediv 2)) = t
      have half : 2 * t ≤ e := by
        have : t ≤ e / 2 := ht ▸ min_le_left _ _
        omega
      have value := sqrt_value (m := m) half
      generalize hn : m <<< (e - 2 * t).toNat = n at *
      have positive : 0 < n := by
        rw [← hn, Nat.shiftLeft_eq]
        positivity
      obtain ⟨whole, more⟩ := root_atMost (k := k) positive (by
        rw [value, ← zpow_natCast, ← zpow_mul, mul_comm k]
        exact h)
      split_ifs with rest
      · exact whole
      · exact more rest
      · exact more rest

end Operations

end Double

end Reckoner
