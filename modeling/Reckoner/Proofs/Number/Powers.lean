-- How far a power of a binary fraction is off. Squaring adds up the errors of what is squared, so
-- a power has one error at most for each unit of its exponent.
import Mathlib
import Reckoner.Proofs.Number.Exponential

namespace Reckoner

namespace Binary

/-! ## Multiplying up -/

/-- The value of a mantissa with its exponent. -/
noncomputable def pairValue (p : Nat × Int) : ℝ := (⟨p.1, p.2⟩ : Binary).toReal

theorem pairValue_eq (p : Nat × Int) : pairValue p = p.1 * (2 : ℝ) ^ p.2 := by
  rw [pairValue, toReal, Int.cast_natCast]

theorem pairValue_mul (p q : Nat × Int) :
    pairValue (p.1 * q.1, p.2 + q.2) = pairValue p * pairValue q := by
  simp only [pairValue_eq]
  rw [two_zpow_add]
  push_cast
  ring

/-- Keeping the leading bits is rounding. -/
theorem leadingBits_near (up : Bool) (work n : ℕ) (e : Int) :
    Near (2 ^ (1 - work : Int)) (pairValue (leadingBits up work n e)) (pairValue (n, e)) := by
  set mode : Rounding := if up then .awayFromZero else .towardZero with hmode
  have rounded : (round mode work ⟨n, e⟩).toReal = pairValue (leadingBits up work n e) := by
    unfold round leadingBits
    simp only [Int.natAbs_natCast]
    split_ifs with h hup <;> rw [toReal_trim]
    · simp [toReal, pairValue]
    all_goals
      rw [decide_eq_false (by omega), hmode]
      simp [toReal, pairValue, withSign, hup]
  have near := round_near mode work ⟨n, e⟩
  rwa [rounded] at near

variable {up : Bool} {work : ℕ} {δ : ℝ}

/-- A product kept to the leading bits has the errors of both factors and one more. -/
theorem leadingBits_mul_near (up : Bool) (hδ : δ = 2 ^ (1 - work : Int)) {a d : ℕ}
    {p q : Nat × Int} {P Q : ℝ}
    (hp : Near ((1 + δ) ^ d - 1) (pairValue p) P) (hq : Near ((1 + δ) ^ a - 1) (pairValue q) Q)
    {e : Int} (he : e = p.2 + q.2) :
    Near ((1 + δ) ^ (d + a + 1) - 1) (pairValue (leadingBits up work (p.1 * q.1) e))
      (P * Q) := by
  have positive : 0 ≤ δ := hδ ▸ (two_zpow_pos _).le
  have product := hp.mul_errors hq positive
  rw [← pairValue_mul, ← he] at product
  exact product.trans_errors (hδ ▸ leadingBits_near up work (p.1 * q.1) e).one_error positive

/-- The bits of an exponent that are left count as many errors of the base as they stand for. -/
theorem powBits_near (hδ : δ = 2 ^ (1 - work : Int)) (fuel : ℕ) :
    ∀ {n a d : ℕ} {base done : Nat × Int} {B D : ℝ}, n < 2 ^ fuel →
      Near ((1 + δ) ^ a - 1) (pairValue base) B → Near ((1 + δ) ^ d - 1) (pairValue done) D →
      Near ((1 + δ) ^ (d + n * (a + 1)) - 1) (pairValue (powBits up work fuel n base done))
        (D * B ^ n) := by
  induction fuel with
  | zero =>
    intro n a d base done B D hn _ hd
    obtain rfl : n = 0 := by simpa using hn
    simpa [powBits] using hd
  | succ fuel ih =>
    intro n a d base done B D hn hb hd
    have square := leadingBits_mul_near up hδ hb hb (two_mul base.2)
    have parts := Nat.div_add_mod n 2
    unfold powBits
    extract_lets done'
    have next : Near ((1 + δ) ^ (d + n % 2 * (a + 1)) - 1) (pairValue done')
        (D * B ^ (n % 2)) := by
      unfold done'
      split_ifs with h
      · rw [h, pow_one, one_mul]
        exact leadingBits_mul_near up hδ hd hb rfl
      · rw [Nat.mod_two_ne_one.1 h, pow_zero, mul_one, zero_mul]
        exact hd
    split_ifs with h
    · rwa [Nat.mod_eq_of_lt (by omega)] at next
    · have below : n / 2 < 2 ^ fuel := by
        rw [Nat.div_lt_iff_lt_mul two_pos, ← pow_succ]
        exact hn
      have step := ih below square next
      have count : d + n % 2 * (a + 1) + n / 2 * (a + a + 1 + 1) = d + n * (a + 1) := by
        conv_rhs => rw [← parts]
        ring
      have value : D * B ^ (n % 2) * (B * B) ^ (n / 2) = D * B ^ n := by
        conv_rhs => rw [← parts, pow_add, pow_mul]
        ring
      rwa [count, value] at step

/-! ## Whole powers -/

theorem toReal_eq_signFactor (b : Binary) :
    b.toReal = signFactor (decide (b.man < 0)) * pairValue (b.man.natAbs, b.exp) := by
  rw [toReal, cast_eq_signFactor, pairValue_eq, mul_assoc]

theorem toReal_withSign (negative : Bool) (p : Nat × Int) :
    (⟨withSign negative p.1, p.2⟩ : Binary).toReal = signFactor negative * pairValue p := by
  rw [toReal, cast_withSign, pairValue_eq, mul_assoc]

theorem signFactor_pow (negative : Bool) (n : ℕ) :
    signFactor negative ^ n = signFactor (negative && n % 2 == 1) := by
  cases negative
  · simp [signFactor]
  · rcases Nat.mod_two_eq_zero_or_one n with h | h
    · simp [signFactor, h, (Nat.even_iff.2 h).neg_one_pow]
    · simp [signFactor, h, (Nat.odd_iff.2 h).neg_one_pow]

theorem pairValue_pow (m : ℕ) (e : Int) (n : ℕ) :
    pairValue (m ^ n, e * n) = pairValue (m, e) ^ n := by
  simp only [pairValue_eq]
  rw [zpow_mul, zpow_natCast, mul_pow]
  push_cast
  rfl

/-- A power other than a negative one is off by two units of the last bit at most. -/
theorem powNat_near (mode : Rounding) (prec : ℕ) (b : Binary) (n : ℕ) :
    Near (2 ^ (2 - prec : Int)) (powNat mode prec b n).toReal (b.toReal ^ n) := by
  have half : (2 : ℝ) ^ (1 - prec : Int) ≤ 2 ^ (2 - prec : Int) :=
    zpow_le_zpow_right₀ one_le_two (by omega)
  rw [← toReal_trim b, toReal_eq_signFactor b.trim, mul_pow, signFactor_pow]
  unfold powNat
  extract_lets c m negative
  change Near _ _ (signFactor negative * pairValue (m, c.exp) ^ n)
  split_ifs with h0 h1 hexact
  · have even : negative = false := by simp [negative, h0]
    rw [even, h0, pow_zero, toReal_ofInt]
    simpa [signFactor] using Near.refl (two_zpow_pos _).le 1
  · have power := pairValue_pow 1 c.exp n
    rw [one_pow] at power
    rw [toReal_withSign negative (1, c.exp * n), power, h1]
    exact .refl (two_zpow_pos _).le _
  · rw [← pairValue_pow, ← toReal_withSign negative (m ^ n, c.exp * n)]
    exact (round_near mode prec _).mono half
  · set work := prec + 4 * bitLength n + 4
    set δ : ℝ := 2 ^ (1 - work : Int) with hδ
    have positive : 0 ≤ δ := (two_zpow_pos _).le
    have near : Near ((1 + δ) ^ (0 + n * (0 + 1)) - 1)
        (pairValue (powBits (mode == .awayFromZero) work (bitLength n) n (m, c.exp) (1, 0)))
        (1 * pairValue (m, c.exp) ^ n) :=
      powBits_near hδ _ (lt_two_pow_bitLength n) (by simpa using Near.refl le_rfl _)
        (by simpa [pairValue_eq] using Near.refl le_rfl 1)
    rw [zero_add, zero_add, mul_one, one_mul] at near
    have few : n * δ ≤ 2 ^ (-prec - 4 : Int) := by
      have size : (n : ℝ) ≤ 2 ^ (bitLength n : Int) := by
        rw [zpow_natCast]
        exact_mod_cast (lt_two_pow_bitLength n).le
      calc n * δ ≤ 2 ^ (bitLength n : Int) * 2 ^ (1 - work : Int) :=
            mul_le_mul_of_nonneg_right size positive
        _ = 2 ^ (bitLength n + (1 - work) : Int) := (two_zpow_add _ _).symm
        _ ≤ 2 ^ (-prec - 4 : Int) := zpow_le_zpow_right₀ one_le_two (by
            have := bitLength_pos h0
            omega)
    have small : (2 : ℝ) ^ (-prec - 4 : Int) ≤ 1 :=
      zpow_le_one_of_nonpos₀ one_le_two (by omega)
    have double : (2 : ℝ) ^ (-prec - 3 : Int) = 2 * 2 ^ (-prec - 4 : Int) := by
      rw [← zpow_one_add₀ two_ne_zero]
      congr 1
      ring
    refine round_of_near mode ?_
    rw [toReal_withSign negative (powBits _ _ _ _ _ _)]
    rw [mul_comm (signFactor _), mul_comm (signFactor _)]
    refine (near.mono ?_).mul_right _
    rw [double]
    linarith [Near.errors_le positive (few.trans small)]

/-- A whole power of a value other than zero is off by a few units of the last bit at most. -/
theorem powInt_near (mode : Rounding) (prec : ℕ) {b : Binary} (hb : b.man ≠ 0) (n : Int) :
    Near (6 * 2 ^ (-prec : Int)) (powInt mode prec b n).toReal (b.toReal ^ n) := by
  have value : b.toReal ≠ 0 := fun h => hb (toReal_eq_zero.1 h)
  have four : (2 : ℝ) ^ (2 - prec : Int) = 4 * 2 ^ (-prec : Int) := by
    rw [sub_eq_add_neg, two_zpow_add]
    norm_num
  have positive := two_zpow_pos (-prec : Int)
  unfold powInt
  split_ifs with h h1
  · have near := powNat_near mode prec b n.toNat
    rw [← zpow_natCast, Int.toNat_of_nonneg h] at near
    exact near.mono (by linarith)
  · have near := div_near mode prec (ofInt 1) hb
    rw [toReal_ofInt, Int.cast_one, one_div] at near
    rw [h1, zpow_neg_one]
    exact near.mono (by linarith)
  · have inner := powNat_near mode.forDivisor (prec + 5) b n.natAbs
    set p := powNat mode.forDivisor (prec + 5) b n.natAbs
    have eighth : (2 : ℝ) ^ (2 - (prec + 5 : ℕ) : Int) = 2 ^ (-prec : Int) / 8 := by
      rw [show (2 - (prec + 5 : ℕ) : Int) = -prec + -3 by push_cast; ring, two_zpow_add]
      norm_num
      ring
    have le_one : (2 : ℝ) ^ (-prec : Int) ≤ 1 := zpow_le_one_of_nonpos₀ one_le_two (by omega)
    rw [eighth] at inner
    have nonzero : p.man ≠ 0 := fun h0 =>
      inner.ne_zero (by linarith) (pow_ne_zero _ value) (toReal_eq_zero.2 h0)
    have outer := div_near mode prec (ofInt 1) nonzero
    rw [toReal_ofInt, Int.cast_one, one_div, four] at outer
    have inverse : (b.toReal ^ n.natAbs)⁻¹ = b.toReal ^ n := by
      rw [← zpow_natCast, ← zpow_neg]
      congr 1
      omega
    have both := (inner.inv (by linarith)).trans outer (by linarith)
    rw [inverse] at both
    refine both.mono ?_
    nlinarith

theorem bitLength_powNat (mode : Rounding) (prec : Nat) (b : Binary) (n : Nat) :
    bitLength (powNat mode prec b n).man.natAbs ≤ prec + 1 := by
  unfold powNat
  extract_lets c m negative
  split_ifs
  · exact bitLength_one_le prec
  · cases negative <;> exact bitLength_one_le prec
  · exact bitLength_round mode prec _
  · exact bitLength_round mode prec _

theorem bitLength_powInt (mode : Rounding) (prec : Nat) (b : Binary) (n : Int) :
    bitLength (powInt mode prec b n).man.natAbs ≤ prec + 1 := by
  unfold powInt
  split_ifs
  · exact bitLength_powNat mode prec b _
  · exact bitLength_div mode prec _ _
  · exact bitLength_div mode prec _ _

/-! ## Powers with any exponent -/

/-- The logarithm of a value that is off by a small part is off by twice that part. -/
theorem log_near {x v δ : ℝ} (hv : 0 < v) (h : Near δ x v) (hδ : δ ≤ 1 / 2) :
    |Real.log x - Real.log v| ≤ 2 * δ := by
  have hx : 0 < x := h.pos (by linarith) hv
  have nonneg : 0 ≤ δ := by
    rw [Near, abs_of_pos hv] at h
    by_contra hn
    have := (abs_nonneg _).trans h
    nlinarith
  have ratio : |x / v - 1| ≤ δ := by
    rw [Near, abs_of_pos hv] at h
    rw [div_sub_one hv.ne', abs_div, abs_of_pos hv, div_le_iff₀ hv]
    exact h
  obtain ⟨low, high⟩ := abs_le.1 ratio
  have positive : 0 < x / v := div_pos hx hv
  have upper := Real.log_le_sub_one_of_pos positive
  have lower := Real.one_sub_inv_le_log_of_pos positive
  have inverse : (x / v)⁻¹ ≤ 1 + 2 * δ := by
    rw [inv_le_comm₀ positive (by linarith)]
    refine le_trans ?_ (by linarith : 1 - δ ≤ x / v)
    rw [inv_le_iff_one_le_mul₀ (by linarith)]
    nlinarith
  rw [← Real.log_div hx.ne' hv.ne', abs_le]
  constructor <;> linarith

/-- Values below a power of two have no larger magnitude. -/
theorem magnitude_le {b : Binary} {k : Int} (hb : b.man ≠ 0) (h : |b.toReal| < 2 ^ k) :
    b.magnitude ≤ k := by
  have := (zpow_lt_zpow_iff_right₀ one_lt_two).1 ((le_abs_toReal hb).trans_lt h)
  omega

/-- The logarithm of a power, where the logarithm of the base, the base and the exponent are off by
little. -/
theorem exponent_near {x y l v w δ ε : ℝ} (unit : 0 < ε) (small : ε ≤ 1 / 256)
    (near : Near (ε / 2 ^ 62) l (Real.log x)) (close : |Real.log x - Real.log v| ≤ 2 * δ)
    (hδ : 2 ^ 8 * (δ * |w|) ≤ ε) (hyw : |y - w| * |Real.log v| ≤ 4 * ε) (hy : |y| ≤ 2 * |w|)
    (hl : |w * Real.log v| ≤ 232) : |y * l - w * Real.log v| ≤ 41 / 10 * ε := by
  have product : |y| * |Real.log x| ≤ 465 := by
    have size := abs_sub_abs_le_abs_sub (Real.log x) (Real.log v)
    rw [abs_mul] at hl
    calc |y| * |Real.log x| ≤ 2 * |w| * (|Real.log v| + 2 * δ) :=
          mul_le_mul hy (by linarith) (abs_nonneg _) (by positivity)
      _ = 2 * (|w| * |Real.log v|) + 4 * (δ * |w|) := by ring
      _ ≤ 465 := by linarith
  have first : |y * (l - Real.log x)| ≤ ε / 1000 := by
    rw [abs_mul]
    calc |y| * |l - Real.log x| ≤ |y| * (ε / 2 ^ 62 * |Real.log x|) :=
          mul_le_mul_of_nonneg_left near (abs_nonneg _)
      _ = ε / 2 ^ 62 * (|y| * |Real.log x|) := by ring
      _ ≤ ε / 2 ^ 62 * 465 := mul_le_mul_of_nonneg_left product (by positivity)
      _ ≤ ε / 1000 := by linarith
  have second : |y * (Real.log x - Real.log v)| ≤ ε / 64 := by
    rw [abs_mul]
    have := mul_le_mul hy close (abs_nonneg _) (by positivity)
    linarith
  have third : |(y - w) * Real.log v| ≤ 4 * ε := by
    rw [abs_mul]
    exact hyw
  have parts : y * l - w * Real.log v =
      y * (l - Real.log x) + y * (Real.log x - Real.log v) + (y - w) * Real.log v := by ring
  rw [parts]
  exact (abs_add_three _ _ _).trans (by linarith)

/-- A power found from the logarithm, where its own size, and the errors of base and exponent,
are moderate. -/
theorem power_near (mode : Rounding) {prec : ℕ} {x y : Binary} {v w δ : ℝ} (hp : prec ≤ 2 ^ 17)
    (hp' : 8 ≤ prec) (hx : bitLength x.man.natAbs ≤ 2 ^ 18)
    (hxk : bitLength x.magnitude.natAbs ≤ 2 ^ 10)
    (hyk : y.magnitude ≤ 2 ^ 10) (hv : 0 < v) (hxv : Near δ x.toReal v)
    (hδ : 2 ^ 8 * (δ * |w|) ≤ 2 ^ (-prec : Int)) (hδ' : δ ≤ 1 / 4)
    (hyw : |y.toReal - w| * |Real.log v| ≤ 4 * 2 ^ (-prec : Int)) (hy : |y.toReal| ≤ 2 * |w|)
    (hl : |w * Real.log v| ≤ 232) :
    Near (13 * 2 ^ (-prec : Int)) (power mode prec x y).toReal (Real.exp (w * Real.log v)) := by
  have spare : spareBits = 64 := rfl
  unfold power
  extract_lets wp
  have positive : 0 < x.toReal := hxv.pos (by linarith) hv
  have close := log_near hv hxv (by linarith)
  have near := ln_near .nearest wp (toReal_pos.1 positive) (by omega) hx (by omega)
  set L := ln .nearest wp x
  set ε : ℝ := 2 ^ (-prec : Int) with hε
  have unit : 0 < ε := two_zpow_pos _
  have small : ε ≤ 1 / 256 := by
    calc ε ≤ 2 ^ (-8 : Int) := zpow_le_zpow_right₀ one_le_two (by omega)
      _ = 1 / 256 := by norm_num
  have tiny : (2 : ℝ) ^ (2 - wp : Int) ≤ ε / 2 ^ 62 := by
    rw [le_div_iff₀ (by positivity), hε, ← zpow_natCast, ← two_zpow_add]
    exact zpow_le_zpow_right₀ one_le_two (by push_cast; omega)
  have off : |(mul y L).toReal - w * Real.log v| ≤ 41 / 10 * ε := by
    rw [toReal_mul]
    exact exponent_near unit small (near.mono tiny) close hδ hyw hy hl
  have top : (mul y L).man ≠ 0 → (mul y L).magnitude ≤ 2 ^ 18 := fun h => by
    have size := abs_sub_abs_le_abs_sub (mul y L).toReal (w * Real.log v)
    have eight : (2 : ℝ) ^ (8 : Int) = 256 := by norm_num
    have := magnitude_le (k := 8) h (by rw [eight]; linarith)
    omega
  have outer := exponential_near mode prec (by omega) top
  have four : (2 : ℝ) ^ (2 - prec : Int) = 4 * ε := by
    rw [sub_eq_add_neg, two_zpow_add, hε]
    norm_num
  rw [four] at outer
  refine ((exp_near off (by linarith)).trans outer (by positivity)).mono ?_
  nlinarith

end Binary

end Reckoner
