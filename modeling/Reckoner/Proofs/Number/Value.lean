-- The real numbers that binary fractions stand for. Sums, differences and products are exact, and
-- comparison is right; rounding and division are off by little, in proportion to the value.
import Mathlib
import Reckoner.Proofs.Number.Bits
import Reckoner.Proofs.Number.Near

namespace Reckoner

namespace Binary

/-! ## Values -/

/-- The real number that a binary fraction stands for. -/
noncomputable def toReal (b : Binary) : ℝ := b.man * (2 : ℝ) ^ b.exp

theorem two_zpow_pos (e : Int) : (0 : ℝ) < 2 ^ e := by positivity

theorem two_zpow_add (d e : Int) : (2 : ℝ) ^ (d + e) = 2 ^ d * 2 ^ e :=
  zpow_add₀ two_ne_zero d e

theorem toReal_eq_zero {b : Binary} : b.toReal = 0 ↔ b.man = 0 := by
  simp [toReal, (two_zpow_pos b.exp).ne']

theorem toReal_pos {b : Binary} : 0 < b.toReal ↔ 0 < b.man := by
  rw [toReal, mul_pos_iff_of_pos_right (two_zpow_pos b.exp), Int.cast_pos]

@[simp]
theorem toReal_zero : zero.toReal = 0 := by simp [toReal, zero]

@[simp]
theorem toReal_ofInt (n : Int) : (ofInt n).toReal = n := by simp [toReal, ofInt]

theorem abs_toReal (b : Binary) : |b.toReal| = b.man.natAbs * (2 : ℝ) ^ b.exp := by
  rw [toReal, abs_mul, abs_of_pos (two_zpow_pos b.exp), Nat.cast_natAbs, Int.cast_abs]

/-- The factor that gives a size its sign. -/
def signFactor (negative : Bool) : ℝ := if negative then -1 else 1

theorem abs_signFactor (negative : Bool) : |signFactor negative| = 1 := by
  cases negative <;> simp [signFactor]

@[simp]
theorem natAbs_withSign (negative : Bool) (n : Nat) : (withSign negative n).natAbs = n := by
  cases negative <;> simp [withSign]

theorem cast_withSign (negative : Bool) (n : Nat) :
    (withSign negative n : ℝ) = signFactor negative * n := by
  cases negative <;> simp [withSign, signFactor]

theorem cast_eq_signFactor (n : Int) : (n : ℝ) = signFactor (decide (n < 0)) * n.natAbs := by
  rcases lt_or_ge n 0 with h | h
  · rw [decide_eq_true h, Nat.cast_natAbs, Int.cast_abs, abs_of_neg (by exact_mod_cast h)]
    simp [signFactor]
  · rw [decide_eq_false (not_lt.2 h), Nat.cast_natAbs, Int.cast_abs,
      abs_of_nonneg (by exact_mod_cast h)]
    simp [signFactor]

@[simp]
theorem toReal_trim (b : Binary) : b.trim.toReal = b.toReal := by
  unfold trim
  split_ifs with h
  · rw [toReal_zero, toReal, h, Int.cast_zero, zero_mul]
  · obtain ⟨m, hm⟩ := two_pow_trailingZeros_dvd (Int.natAbs_ne_zero.2 h)
    set t := trailingZeros b.man.natAbs
    have quotient : b.man.natAbs >>> t = m := by
      rw [Nat.shiftRight_eq_div_pow, hm, Nat.mul_div_cancel_left _ (Nat.two_pow_pos t)]
    have man : (b.man : ℝ) = signFactor (decide (b.man < 0)) * (2 ^ t * m) := by
      rw [cast_eq_signFactor, hm]
      push_cast
      rfl
    simp only [toReal, quotient]
    rw [cast_withSign, man, two_zpow_add, zpow_natCast]
    ring

@[simp]
theorem toReal_neg (b : Binary) : b.neg.toReal = -b.toReal := by simp [toReal, neg]

@[simp]
theorem toReal_abs (b : Binary) : b.abs.toReal = |b.toReal| := by
  rw [abs_toReal]
  simp [toReal, abs]

@[simp]
theorem man_scale (b : Binary) (k : Int) : (b.scale k).man = b.man := rfl

@[simp]
theorem toReal_scale (b : Binary) (k : Int) : (b.scale k).toReal = b.toReal * 2 ^ k := by
  rw [toReal, toReal, scale, two_zpow_add, mul_assoc]

theorem two_zpow_toNat {d : Int} (h : 0 ≤ d) : (2 : ℝ) ^ d.toNat = 2 ^ d := by
  rw [← zpow_natCast, Int.toNat_of_nonneg h]

@[simp]
theorem toReal_add (a b : Binary) : (add a b).toReal = a.toReal + b.toReal := by
  unfold add
  split_ifs with h
  · have := two_zpow_toNat (Int.sub_nonneg.2 h)
    rw [toReal_trim]
    simp only [toReal]
    push_cast
    rw [this, zpow_sub₀ two_ne_zero]
    field_simp
  · have := two_zpow_toNat (Int.sub_nonneg.2 (not_le.1 h).le)
    rw [toReal_trim]
    simp only [toReal]
    push_cast
    rw [this, zpow_sub₀ two_ne_zero]
    field_simp

@[simp]
theorem toReal_sub (a b : Binary) : (sub a b).toReal = a.toReal - b.toReal := by
  rw [sub, toReal_add, toReal_neg, sub_eq_add_neg]

@[simp]
theorem toReal_mul (a b : Binary) : (mul a b).toReal = a.toReal * b.toReal := by
  rw [mul, toReal_trim]
  simp only [toReal]
  push_cast
  rw [two_zpow_add]
  ring

/-! ## Sizes -/

theorem abs_toReal_lt (b : Binary) : |b.toReal| < 2 ^ b.magnitude := by
  have below : (b.man.natAbs : ℝ) < 2 ^ bitLength b.man.natAbs := by
    exact_mod_cast lt_two_pow_bitLength b.man.natAbs
  rw [abs_toReal, magnitude, add_comm, two_zpow_add, zpow_natCast]
  exact mul_lt_mul_of_pos_right below (two_zpow_pos _)

theorem le_abs_toReal {b : Binary} (h : b.man ≠ 0) : 2 ^ (b.magnitude - 1) ≤ |b.toReal| := by
  have positive := bitLength_pos (Int.natAbs_ne_zero.2 h)
  have above : (2 : ℝ) ^ (bitLength b.man.natAbs - 1) ≤ b.man.natAbs := by
    exact_mod_cast two_pow_le_of_lt_bitLength (Nat.sub_lt positive one_pos)
  have exponent : b.magnitude - 1 = (bitLength b.man.natAbs - 1 : Nat) + b.exp := by
    rw [magnitude]
    omega
  rw [abs_toReal, exponent, two_zpow_add, zpow_natCast]
  exact mul_le_mul_of_nonneg_right above (two_zpow_pos _).le

/-- A value other than zero is one unit of its exponent at least. -/
theorem two_zpow_exp_le {b : Binary} (h : b.man ≠ 0) : 2 ^ b.exp ≤ |b.toReal| := by
  have one : (1 : ℝ) ≤ b.man.natAbs := by
    exact_mod_cast Nat.one_le_iff_ne_zero.2 (Int.natAbs_ne_zero.2 h)
  rw [abs_toReal]
  exact le_mul_of_one_le_left (two_zpow_pos _).le one

/-! ## Rounding -/

/-- If dropping bits is off by a part `c` of the last bit, rounding is off by that part of a bit
after the ones that are kept. -/
theorem round_near_of {mode : Rounding} {c : ℝ} (hc : 0 ≤ c)
    (h : ∀ n shift : Nat, shift ≠ 0 →
      |(roundShift mode n shift : ℝ) * 2 ^ shift - n| ≤ c * 2 ^ shift)
    (prec : Nat) (b : Binary) :
    Near (c * 2 ^ (1 - prec : Int)) (round mode prec b).toReal b.toReal := by
  unfold round
  simp only
  split_ifs with hl
  · rw [toReal_trim]
    exact .refl (by positivity) _
  · rw [not_le] at hl
    set n := b.man.natAbs with hn
    have dropped := h n (bitLength n - prec) (by omega)
    have least : (2 : ℝ) ^ (bitLength n - 1) ≤ n := by
      exact_mod_cast two_pow_le_of_lt_bitLength (Nat.sub_lt (by omega) one_pos)
    have kept : (2 : ℝ) ^ (bitLength n - prec) = 2 ^ (1 - prec : Int) * 2 ^ (bitLength n - 1) := by
      rw [← zpow_natCast, ← zpow_natCast, ← two_zpow_add]
      congr 1
      omega
    have value : (trim ⟨withSign (decide (b.man < 0)) (roundShift mode n (bitLength n - prec)),
        b.exp + (bitLength n - prec : Nat)⟩).toReal - b.toReal =
        signFactor (decide (b.man < 0)) * ((roundShift mode n (bitLength n - prec) : ℝ) *
          2 ^ (bitLength n - prec) - n) * 2 ^ b.exp := by
      rw [toReal_trim]
      simp only [toReal]
      rw [cast_withSign, cast_eq_signFactor b.man, two_zpow_add, zpow_natCast]
      ring
    rw [Near, value, abs_mul, abs_mul, abs_signFactor, one_mul, abs_of_pos (two_zpow_pos _),
      abs_toReal, ← mul_assoc]
    refine mul_le_mul_of_nonneg_right (dropped.trans ?_) (two_zpow_pos _).le
    rw [kept, ← hn, mul_assoc]
    exact mul_le_mul_of_nonneg_left (mul_le_mul_of_nonneg_left least (two_zpow_pos _).le) hc

/-- To the nearest, rounding is off by half of the last bit that is kept. -/
theorem round_nearest_near (prec : Nat) (b : Binary) :
    Near (2 ^ (-prec : Int)) (round .nearest prec b).toReal b.toReal := by
  have dropped : ∀ n shift : Nat, shift ≠ 0 →
      |(roundShift .nearest n shift : ℝ) * 2 ^ shift - n| ≤ 1 / 2 * 2 ^ shift := by
    intro n shift hs
    obtain ⟨h1, h2⟩ := roundShift_nearest n hs
    have half : (1 / 2 : ℝ) * 2 ^ shift = 2 ^ (shift - 1) := by
      obtain ⟨m, rfl⟩ := Nat.exists_eq_succ_of_ne_zero hs
      rw [Nat.succ_sub_one, pow_succ]
      ring
    rw [half, abs_le]
    have h1 : (n : ℝ) ≤ roundShift .nearest n shift * 2 ^ shift + 2 ^ (shift - 1) := by
      exact_mod_cast h1
    have h2 : (roundShift .nearest n shift : ℝ) * 2 ^ shift ≤ n + 2 ^ (shift - 1) := by
      exact_mod_cast h2
    constructor <;> linarith
  have half : (1 / 2 : ℝ) * 2 ^ (1 - prec : Int) = 2 ^ (-prec : Int) := by
    rw [sub_eq_add_neg, two_zpow_add, zpow_one]
    ring
  have bound := round_near_of (by norm_num) dropped prec b
  rwa [half] at bound

/-- In any mode, rounding is off by the last bit that is kept. -/
theorem round_near (mode : Rounding) (prec : Nat) (b : Binary) :
    Near (2 ^ (1 - prec : Int)) (round mode prec b).toReal b.toReal := by
  have dropped : ∀ n shift : Nat, shift ≠ 0 →
      |(roundShift mode n shift : ℝ) * 2 ^ shift - n| ≤ 1 * 2 ^ shift := by
    intro n shift _
    obtain ⟨h1, h2⟩ := roundShift_bounds mode n shift
    have parts := Nat.div_add_mod n (2 ^ shift)
    have rest := Nat.mod_lt n (Nat.two_pow_pos shift)
    have least := Nat.mul_le_mul_right (2 ^ shift) h1
    have most := Nat.mul_le_mul_right (2 ^ shift) h2
    rw [mul_comm] at parts
    rw [add_mul, one_mul] at most
    have low : n ≤ roundShift mode n shift * 2 ^ shift + 2 ^ shift := by linarith
    have high : roundShift mode n shift * 2 ^ shift ≤ n + 2 ^ shift := by
      linarith [Nat.zero_le (n % 2 ^ shift)]
    have low : (n : ℝ) ≤ roundShift mode n shift * 2 ^ shift + 2 ^ shift := by exact_mod_cast low
    have high : (roundShift mode n shift : ℝ) * 2 ^ shift ≤ n + 2 ^ shift := by exact_mod_cast high
    rw [one_mul, abs_le]
    constructor <;> linarith
  have bound := round_near_of zero_le_one dropped prec b
  rwa [one_mul] at bound

/-- What was close before rounding is off by two units of the last bit at most. -/
theorem round_of_near (mode : Rounding) {prec : Nat} {b : Binary} {x : ℝ}
    (h : Near (2 ^ (-prec - 3 : Int)) b.toReal x) :
    Near (2 ^ (2 - prec : Int)) (round mode prec b).toReal x := by
  have spare : (2 : ℝ) ^ (-prec - 3 : Int) = 2 ^ (1 - prec : Int) / 16 := by
    rw [show (-prec - 3 : Int) = 1 - prec + -4 by omega, two_zpow_add]
    norm_num
    ring
  have double : (2 : ℝ) ^ (2 - prec : Int) = 2 ^ (1 - prec : Int) * 2 := by
    rw [show (2 - prec : Int) = 1 - prec + 1 by omega, two_zpow_add, zpow_one]
  have large : (2 : ℝ) ^ (1 - prec : Int) ≤ 2 := by
    calc (2 : ℝ) ^ (1 - prec : Int) ≤ 2 ^ (1 : Int) := zpow_le_zpow_right₀ one_le_two (by omega)
      _ = 2 := zpow_one 2
  refine (h.trans (round_near mode prec b) (two_zpow_pos _).le).mono ?_
  rw [spare, double]
  nlinarith [two_zpow_pos (1 - prec : Int)]

/-! ## Lengths of mantissas -/

theorem natAbs_trim_le (b : Binary) : b.trim.man.natAbs ≤ b.man.natAbs := by
  unfold trim
  split_ifs with h
  · exact Nat.zero_le _
  · rw [natAbs_withSign, Nat.shiftRight_eq_div_pow]
    exact Nat.div_le_self _ _

/-- Rounding up can take one bit more than was asked for. -/
theorem bitLength_round (mode : Rounding) (prec : Nat) (b : Binary) :
    bitLength (round mode prec b).man.natAbs ≤ prec + 1 := by
  unfold round
  simp only
  split_ifs with h
  · exact (bitLength_mono (natAbs_trim_le b)).trans (by omega)
  · refine (bitLength_mono (natAbs_trim_le _)).trans ?_
    rw [natAbs_withSign, bitLength_le_iff]
    set n := b.man.natAbs
    have kept : n / 2 ^ (bitLength n - prec) < 2 ^ prec := by
      rw [Nat.div_lt_iff_lt_mul (Nat.two_pow_pos _), ← pow_add]
      refine (lt_two_pow_bitLength n).trans_le (Nat.pow_le_pow_right two_pos ?_)
      omega
    have := (roundShift_bounds mode n (bitLength n - prec)).2
    have := Nat.one_le_two_pow (n := prec)
    rw [pow_succ]
    omega

theorem bitLength_one_le (prec : Nat) : bitLength 1 ≤ prec + 1 := by
  rw [bitLength_le_iff]
  exact Nat.one_lt_two_pow (Nat.succ_ne_zero prec)

/-! ## Order -/

/-- A value that is off by less than itself keeps its sign. -/
theorem sign_of_abs_sub_lt {x y : ℝ} (h : |y - x| < |x|) : SignType.sign y = SignType.sign x := by
  rw [abs_lt] at h
  rcases lt_trichotomy x 0 with hx | rfl | hx
  · rw [abs_of_neg hx] at h
    rw [sign_neg hx, sign_neg (by linarith)]
  · rw [abs_zero] at h
    linarith
  · rw [abs_of_pos hx] at h
    rw [sign_pos hx, sign_pos (by linarith)]

theorem sign_toReal (b : Binary) : SignType.sign b.toReal = SignType.sign b.man := by
  rcases lt_trichotomy b.man 0 with h | h | h
  · have : b.toReal < 0 := mul_neg_of_neg_of_pos (Int.cast_lt_zero.2 h) (two_zpow_pos _)
    rw [sign_neg h, sign_neg this]
  · rw [toReal_eq_zero.2 h, h, sign_zero, sign_zero]
  · rw [sign_pos h, sign_pos (toReal_pos.2 h)]

theorem sign_round {prec : Nat} (hp : prec ≠ 0) (b : Binary) :
    SignType.sign (round .nearest prec b).toReal = SignType.sign b.toReal := by
  have bound := round_nearest_near prec b
  rcases eq_or_ne b.toReal 0 with h | h
  · rw [h] at bound ⊢
    rw [bound.eq_zero]
  · apply sign_of_abs_sub_lt
    refine bound.trans_lt (mul_lt_of_lt_one_left (abs_pos.2 h) ?_)
    exact zpow_lt_one_of_neg₀ one_lt_two (by omega)

/-- What lies far below another value does not change the sign of their sum. -/
theorem abs_lt_of_magnitude {a b : Binary} (ha : a.man ≠ 0) (h : b.magnitude ≤ a.exp) :
    |b.toReal| < |a.toReal| :=
  calc |b.toReal| < 2 ^ b.magnitude := abs_toReal_lt b
    _ ≤ 2 ^ a.exp := zpow_le_zpow_right₀ one_le_two h
    _ ≤ |a.toReal| := two_zpow_exp_le ha

theorem sign_addTiny {prec : Nat} (hp : prec ≠ 0) {a b : Binary} (ha : a.man ≠ 0)
    (h : b.magnitude + (prec + 4 : Nat) < a.exp) :
    SignType.sign (addTiny .nearest prec a b).toReal = SignType.sign (a.toReal + b.toReal) := by
  have whole : SignType.sign (a.toReal + b.toReal) = SignType.sign a.toReal := by
    apply sign_of_abs_sub_lt
    rw [add_sub_cancel_left]
    exact abs_lt_of_magnitude ha (by omega)
  have unit : |((b.man.sign : Int) : ℝ)| ≤ 1 := by
    rcases Int.sign_trichotomy b.man with hs | hs | hs <;> simp [hs]
  have shifted : (⟨a.man * 2 ^ (prec + 4) + b.man.sign, a.exp - (prec + 4 : Nat)⟩ : Binary).toReal -
      a.toReal = b.man.sign * 2 ^ (a.exp - (prec + 4 : Nat)) := by
    have power : (2 : ℝ) ^ a.exp = 2 ^ (prec + 4) * 2 ^ (a.exp - (prec + 4 : Nat)) := by
      rw [← zpow_natCast, ← two_zpow_add]
      congr 1
      omega
    simp only [toReal]
    rw [power]
    push_cast
    ring
  rw [addTiny, sign_round hp, whole]
  apply sign_of_abs_sub_lt
  rw [shifted, abs_mul, abs_of_pos (two_zpow_pos _)]
  calc |((b.man.sign : Int) : ℝ)| * 2 ^ (a.exp - (prec + 4 : Nat))
      ≤ 1 * 2 ^ (a.exp - (prec + 4 : Nat)) :=
        mul_le_mul_of_nonneg_right unit (two_zpow_pos _).le
    _ < 2 ^ a.exp := by
        rw [one_mul]
        exact zpow_lt_zpow_right₀ one_lt_two (by omega)
    _ ≤ |a.toReal| := two_zpow_exp_le ha

/-- However few bits are kept, a rounded sum has the sign of the sum. -/
theorem sign_addRounded {prec : Nat} (hp : prec ≠ 0) (a b : Binary) :
    SignType.sign (addRounded .nearest prec a b).toReal = SignType.sign (a.toReal + b.toReal) := by
  unfold addRounded
  split_ifs with ha hb hba hab
  · rw [sign_round hp, toReal_eq_zero.2 ha, zero_add]
  · rw [sign_round hp, toReal_eq_zero.2 hb, add_zero]
  · exact sign_addTiny hp ha hba
  · rw [add_comm]
    exact sign_addTiny hp hb hab
  · rw [sign_round hp, toReal_add]

/-- The order of binary fractions is the one of their values. -/
theorem lt_iff (a b : Binary) : lt a b = true ↔ a.toReal < b.toReal := by
  have sign := sign_addRounded four_ne_zero a b.neg
  rw [toReal_neg, ← sub_eq_add_neg, sign_toReal] at sign
  unfold lt cmp
  rw [beq_iff_eq, Std.compare_eq_lt, ← sign_eq_neg_one_iff, sign, sign_eq_neg_one_iff, sub_neg]

/-! ## Quotients -/

/-- Twice a whole quotient, and one for what the division leaves over, is off from twice the
quotient by one at most. -/
theorem twice_quotient (s : Nat) {q : Nat} (hq : 0 < q) :
    |((2 * (s / q) + if s % q = 0 then 0 else 1 : Nat) : ℝ) - 2 * (s / q : ℝ)| ≤ 1 := by
  have hq' : (0 : ℝ) < q := by exact_mod_cast hq
  have quotient : (s : ℝ) / q = (s / q : Nat) + (s % q : Nat) / q := by
    rw [add_div' _ _ _ hq'.ne']
    congr 1
    exact_mod_cast (Nat.div_add_mod' s q).symm
  have nonneg : (0 : ℝ) ≤ (s % q : Nat) / q := by positivity
  have below : ((s % q : Nat) : ℝ) / q ≤ 1 := by
    rw [div_le_one hq']
    exact_mod_cast (Nat.mod_lt s hq).le
  rw [quotient]
  split_ifs with h
  · rw [h]
    simp
  · push_cast
    rw [abs_le]
    constructor <;> linarith

/-- The quotient of two numbers is no less than the lengths of the numbers tell. -/
theorem two_zpow_le_quotient {n q : Nat} (hn : n ≠ 0) (hq : 0 < q) :
    (2 : ℝ) ^ (bitLength n - 1 - bitLength q : Int) ≤ n / q := by
  have hq' : (0 : ℝ) < q := by exact_mod_cast hq
  have least : (2 : ℝ) ^ (bitLength n - 1) ≤ n := by
    exact_mod_cast two_pow_le_of_lt_bitLength (Nat.sub_lt (bitLength_pos hn) one_pos)
  have most : (q : ℝ) ≤ 2 ^ bitLength q := by exact_mod_cast (lt_two_pow_bitLength q).le
  have exponent : (bitLength n - 1 - bitLength q : Int) =
      (bitLength n - 1 : Nat) + -(bitLength q : Int) := by
    have := bitLength_pos hn
    omega
  rw [exponent, two_zpow_add, zpow_neg, zpow_natCast, zpow_natCast, ← div_eq_mul_inv]
  exact div_le_div₀ (by positivity) least hq' most

/-- A quotient kept to some bits is off by two units of the last one at most. -/
theorem ofQuotient_near (mode : Rounding) (prec : Nat) (p : Int) {q : Nat} (hq : 0 < q) :
    Near (2 ^ (2 - prec : Int)) (ofQuotient mode prec p q).toReal (p / q) := by
  have hq' : (0 : ℝ) < q := by exact_mod_cast hq
  unfold ofQuotient
  simp only [Nat.shiftLeft_eq]
  set n := p.natAbs with hn
  set shift := prec + 3 + bitLength q - bitLength n with hshift
  set x : Binary := ⟨withSign (decide (p < 0)) (2 * (n * 2 ^ shift / q) +
    if n * 2 ^ shift % q = 0 then 0 else 1), -(shift : Int) - 1⟩ with hx
  have value : x.toReal - p / q = signFactor (decide (p < 0)) *
      (((2 * (n * 2 ^ shift / q) + if n * 2 ^ shift % q = 0 then 0 else 1 : Nat) : ℝ) -
        2 * ((n * 2 ^ shift : Nat) / q : ℝ)) * 2 ^ (-(shift : Int) - 1) := by
    have unit : (2 : ℝ) * 2 ^ shift * 2 ^ (-(shift : Int) - 1) = 1 := by
      rw [← zpow_natCast, mul_comm 2, ← zpow_add_one₀ two_ne_zero, ← two_zpow_add]
      ring_nf
      rw [zpow_zero]
    simp only [hx, toReal]
    rw [cast_withSign, cast_eq_signFactor p, ← hn]
    push_cast
    calc _ = signFactor (decide (p < 0)) * (2 * (n * 2 ^ shift / q : Nat) +
          if n * 2 ^ shift % q = 0 then 0 else 1) * 2 ^ (-(shift : Int) - 1) -
          signFactor (decide (p < 0)) * (n / q) * (2 * 2 ^ shift * 2 ^ (-(shift : Int) - 1)) := by
            rw [unit]
            ring
      _ = _ := by ring
  have off : |x.toReal - p / q| ≤ 2 ^ (-(shift : Int) - 1) := by
    rw [value, abs_mul, abs_mul, abs_signFactor, one_mul, abs_of_pos (two_zpow_pos _)]
    exact mul_le_of_le_one_left (two_zpow_pos _).le (twice_quotient _ hq)
  have unrounded : Near (2 ^ (-prec - 3 : Int)) x.toReal (p / q) := by
    rcases eq_or_ne n 0 with h0 | h0
    · have hp : p = 0 := Int.natAbs_eq_zero.1 h0
      have hx0 : x.toReal = 0 := by
        simp [hx, toReal, h0, withSign, hp]
      rw [hx0, hp, Int.cast_zero, zero_div]
      exact .refl (two_zpow_pos _).le 0
    · have size : |(p : ℝ) / q| = n / q := by
        rw [abs_div, abs_of_pos hq', hn, Nat.cast_natAbs, Int.cast_abs]
      refine off.trans ?_
      rw [size]
      calc (2 : ℝ) ^ (-(shift : Int) - 1)
          ≤ 2 ^ (-prec - 3 + (bitLength n - 1 - bitLength q) : Int) :=
            zpow_le_zpow_right₀ one_le_two (by omega)
        _ = 2 ^ (-prec - 3 : Int) * 2 ^ (bitLength n - 1 - bitLength q : Int) := two_zpow_add _ _
        _ ≤ 2 ^ (-prec - 3 : Int) * (n / q) :=
            mul_le_mul_of_nonneg_left (two_zpow_le_quotient h0 hq) (two_zpow_pos _).le
  exact round_of_near mode unrounded

/-- A rational number kept to some bits is off by two units of the last one at most. -/
theorem ofRat_near (mode : Rounding) (prec : Nat) (q : ℚ) :
    Near (2 ^ (2 - prec : Int)) (ofRat mode prec q).toReal q := by
  have h := ofQuotient_near mode prec q.num q.den_pos
  have value : (q.num : ℝ) / q.den = q := by exact_mod_cast Rat.num_div_den q
  rwa [value] at h

theorem div_near (mode : Rounding) (prec : Nat) (a : Binary) {b : Binary} (hb : b.man ≠ 0) :
    Near (2 ^ (2 - prec : Int)) (div mode prec a b).toReal (a.toReal / b.toReal) := by
  have near := ofQuotient_near mode prec (if b.man < 0 then -a.man else a.man)
    (Int.natAbs_pos.2 hb)
  have quotient : ((if b.man < 0 then -a.man else a.man : Int) : ℝ) / b.man.natAbs =
      a.man / b.man := by
    rw [Nat.cast_natAbs, Int.cast_abs]
    split_ifs with h
    · rw [abs_of_neg (by exact_mod_cast h), Int.cast_neg, neg_div_neg_eq]
    · rw [abs_of_nonneg (by exact_mod_cast not_lt.1 h)]
  have value : a.toReal / b.toReal = a.man / b.man * 2 ^ (a.exp - b.exp) := by
    rw [toReal, toReal, zpow_sub₀ two_ne_zero]
    field_simp
  rw [quotient] at near
  unfold div
  simp only
  rw [toReal_trim, value]
  have scaled := near.mul_right (2 ^ (a.exp - b.exp))
  convert scaled using 1
  rw [toReal, toReal, add_sub_assoc, two_zpow_add, mul_assoc]

theorem bitLength_div (mode : Rounding) (prec : Nat) (a b : Binary) :
    bitLength (div mode prec a b).man.natAbs ≤ prec + 1 :=
  (bitLength_mono (natAbs_trim_le _)).trans (bitLength_round mode prec _)

end Binary

end Reckoner
