-- Doubles that are finite, by their bits, and the bits of the double closest to a whole number.
import Reckoner.Decimal.Double
import Reckoner.Proofs.Number.Bits

namespace Reckoner

namespace Double

open Float.Model Float.Model.UnpackedFloat

/-! ## Exponents in bits -/

theorem unpack_isFinite {spec : Format} {b : BitVec spec.numBits}
    (h : unpackExponent b ≠ -1#_) : (UnpackedFloat.unpack spec b).isFinite = true := by
  unfold UnpackedFloat.unpack
  dsimp only
  rw [if_neg h]
  by_cases hz : unpackExponent b = 0#_
  · rw [if_pos hz]
    by_cases hm : unpackMantissa b = 0#_
    · rw [dif_pos hm]
      rfl
    · rw [dif_neg hm]
      rfl
  · rw [if_neg hz]
    rfl

theorem exponent_pack_finite (s : Sign) (m : Nat) {e : Int} (hm : 0 < m) (he : e < 972) :
    unpackExponent (UnpackedFloat.pack Format.binary64 (.finite s m e hm)) ≠ -1#_ := by
  have biased : (e + Format.binary64.exponentBias + 52).toNat < 2047 := by
    have : Format.binary64.exponentBias = 1023 := rfl
    omega
  unfold UnpackedFloat.pack
  dsimp only
  rw [if_neg (by omega)]
  split_ifs
  · rw [unpackExponent_packComponents]
    intro h
    have h := congrArg BitVec.toNat h
    rw [BitVec.toNat_ofNat, Nat.mod_eq_of_lt (by omega),
      show (-1#11 : BitVec 11).toNat = 2047 by decide] at h
    omega
  · rw [unpackExponent_packComponents]
    decide

/-- Taken apart and put together again, a finite double stays finite. -/
theorem exponent_pack_unpack {b : BitVec Format.binary64.numBits} (h : unpackExponent b ≠ -1#_) :
    unpackExponent (UnpackedFloat.pack Format.binary64 (UnpackedFloat.unpack Format.binary64 b)) ≠
      -1#_ := by
  have lt : (unpackExponent b).toNat < 2047 := by
    have bound : (unpackExponent b).toNat < 2 ^ 11 := (unpackExponent b).isLt
    have ne : (unpackExponent b).toNat ≠ 2047 := fun hb =>
      h (BitVec.eq_of_toNat_eq (by rw [hb]; rfl))
    omega
  have bias : Format.binary64.exponentBias = 1023 := rfl
  unfold UnpackedFloat.unpack
  dsimp only
  rw [if_neg h]
  by_cases hz : unpackExponent b = 0#_
  · rw [if_pos hz]
    by_cases hm : unpackMantissa b = 0#_
    · rw [dif_pos hm]
      unfold UnpackedFloat.pack packedZero
      rw [unpackExponent_packComponents]
      decide
    · rw [dif_neg hm, hz]
      exact exponent_pack_finite _ _ _ (by decide)
  · rw [if_neg hz]
    exact exponent_pack_finite _ _ _ (by omega)

/-- A double is finite unless all bits of its exponent are set. -/
theorem ofBits_isFinite {u : UInt64} (h : u.toNat / 2 ^ 52 % 2 ^ 11 ≠ 2047) :
    (Float.ofBits u).isFinite = true := by
  have exponent : @unpackExponent Format.binary64 u.toBitVec ≠ -1#_ := by
    intro hc
    apply h
    have hc := congrArg BitVec.toNat hc
    simpa [unpackExponent, Nat.shiftRight_eq_div_pow] using hc
  exact unpack_isFinite (exponent_pack_unpack exponent)

theorem not_isInf_of_isFinite {x : Float} (h : x.isFinite) : x.isInf = false := by
  unfold Float.isFinite Float.Model.isFinite at h
  unfold Float.isInf Float.Model.isInf
  cases hu : x.toModel.unpack with
  | infinity s =>
    rw [hu] at h
    cases h
  | _ => rfl

/-! ## Whole numbers -/

/-- The digits that a double keeps are 53, or one more unit. -/
theorem kept_digits_bounds {n : Nat} (h : n ≠ 0) :
    2 ^ 52 ≤ (if bitLength n ≤ 53 then n <<< (53 - bitLength n)
      else Binary.roundShift .nearest n (bitLength n - 53)) ∧
    (if bitLength n ≤ 53 then n <<< (53 - bitLength n)
      else Binary.roundShift .nearest n (bitLength n - 53)) ≤ 2 ^ 53 := by
  have positive := bitLength_pos h
  have low : 2 ^ (bitLength n - 1) ≤ n := two_pow_le_of_lt_bitLength (by omega)
  have high := lt_two_pow_bitLength n
  generalize bitLength n = len at *
  split_ifs with few
  · rw [Nat.shiftLeft_eq]
    constructor
    · calc 2 ^ 52 = 2 ^ (len - 1) * 2 ^ (53 - len) := by rw [← pow_add]; congr 1; omega
        _ ≤ n * 2 ^ (53 - len) := Nat.mul_le_mul_right _ low
    · calc n * 2 ^ (53 - len) ≤ 2 ^ len * 2 ^ (53 - len) := Nat.mul_le_mul_right _ high.le
        _ = 2 ^ 53 := by rw [← pow_add]; congr 1; omega
  · have bounds := Binary.roundShift_bounds .nearest n (len - 53)
    have quotient : 2 ^ 52 ≤ n / 2 ^ (len - 53) := by
      rw [Nat.le_div_iff_mul_le (Nat.two_pow_pos _), ← pow_add]
      convert low using 2
      omega
    have quotient' : n / 2 ^ (len - 53) < 2 ^ 53 := by
      rw [Nat.div_lt_iff_lt_mul (Nat.two_pow_pos _), ← pow_add]
      convert high using 2
      omega
    omega

/-- The bits of a double are its digits after the place of the first one. -/
theorem doubleBits_bounds {n : Nat} {e : Int} (h : n ≠ 0) (bottom : -1000 ≤ e + bitLength n)
    (top : e + bitLength n ≤ 1000) :
    (e + bitLength n + 1022).toNat * 2 ^ 52 ≤ Binary.doubleBits n e ∧
      Binary.doubleBits n e ≤ (e + bitLength n + 1023).toNat * 2 ^ 52 := by
  have kept := kept_digits_bounds h
  unfold Binary.doubleBits
  generalize bitLength n = len at *
  simp only [h, decide_false, Bool.false_or, decide_eq_true_eq]
  have normal : -1022 ≤ e + (len : Int) - 1 := by omega
  rw [if_neg (by omega), if_neg (by omega)]
  simp only [normal, if_true]
  have shift : (e + (len : Int) - 1 - 52 ≤ e) ↔ len ≤ 53 := by omega
  have up : (e - (e + (len : Int) - 1 - 52)).toNat = 53 - len := by omega
  have down : (e + (len : Int) - 1 - 52 - e).toNat = len - 53 := by omega
  simp only [shift, up, down]
  rw [Nat.shiftLeft_eq]
  generalize (if len ≤ 53 then n <<< (53 - len) else Binary.roundShift .nearest n (len - 53)) = d at *
  have first : (e + (len : Int) + 1022).toNat = (e + len - 1 + 1022).toNat + 1 := by omega
  have second : (e + (len : Int) + 1023).toNat = (e + len - 1 + 1022).toNat + 2 := by omega
  rw [first, second]
  generalize hp : (e + (len : Int) - 1 + 1022).toNat = p
  have : p + 2 ≤ 2047 := by omega
  rw [Nat.shiftLeft_eq]
  have cap : p * 2 ^ 52 + d ≤ 2047 * 2 ^ 52 := by omega
  rw [min_eq_left cap]
  omega

/-- A whole number whose bits stay below those of the infinite double has a finite one. -/
theorem ofInt_isFinite_of_bits {n : Int} (h : Binary.doubleBits n.natAbs 0 < 2047 * 2 ^ 52) :
    ∃ x, ofInt? n = some x ∧ x.isFinite = true := by
  have finite : (Binary.ofInt n).toFloat.isFinite = true := by
    unfold Binary.toFloat Binary.ofInt
    apply ofBits_isFinite
    generalize Binary.doubleBits n.natAbs 0 = k at *
    rw [UInt64.toNat_ofNat']
    split_ifs <;> omega
  refine ⟨_, ?_, finite⟩
  simp [ofInt?, not_isInf_of_isFinite finite]

end Double

end Reckoner
