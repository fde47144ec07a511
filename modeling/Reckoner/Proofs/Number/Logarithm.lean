-- How far the logarithm of a binary fraction is off. The series loses a unit or two with each of
-- its terms, there are no more terms than bits, and the spare bits outweigh them all.
import Mathlib
import Reckoner.Number.Elementary
import Reckoner.Proofs.Number.Value

namespace Reckoner

namespace Binary

/-! ## The series -/

/-- The first terms of the series of the inverse hyperbolic tangent. -/
noncomputable def oddTerms (T : ℝ) (n : ℕ) : ℝ :=
  ∑ j ∈ Finset.range n, T ^ (2 * j + 1) / (2 * j + 1 : ℕ)

/-- What the first terms leave out is about as large as the next power. -/
theorem oddTerms_near {T : ℝ} (hT : |T| ≤ 1 / 4) (n : ℕ) :
    |oddTerms T n - Real.artanh T| ≤ 2 * |T| ^ (2 * n + 1) := by
  have inside : |T| < 1 := by linarith
  obtain ⟨low, high⟩ := abs_lt.1 inside
  have series := Real.hasSum_log_sub_log_of_abs_lt_one inside
  rw [← hasSum_nat_add_iff' n] at series
  have square : T ^ 2 ≤ 1 / 16 := by
    rw [← sq_abs]
    nlinarith [abs_nonneg T]
  have geometric : HasSum (fun k : ℕ => 2 * |T| ^ (2 * n + 1) * (1 / 16 : ℝ) ^ k)
      (2 * |T| ^ (2 * n + 1) * (1 - 1 / 16)⁻¹) :=
    (hasSum_geometric_of_lt_one (by norm_num) (by norm_num)).mul_left _
  have tail := HasSum.norm_le_of_bounded series geometric fun k => by
    have power : |T| ^ (2 * (k + n) + 1) ≤ |T| ^ (2 * n + 1) * (1 / 16) ^ k := by
      have split : |T| ^ (2 * (k + n) + 1) = |T| ^ (2 * n + 1) * (T ^ 2) ^ k := by
        rw [← sq_abs T, ← pow_mul, ← pow_add]
        congr 1
        ring
      rw [split]
      gcongr
    have part : 1 / (2 * ((k + n : ℕ) : ℝ) + 1) ≤ 1 := by
      rw [div_le_one (by positivity)]
      linarith [Nat.cast_nonneg (α := ℝ) (k + n)]
    rw [Real.norm_eq_abs, abs_mul, abs_pow, abs_mul, abs_two, abs_of_nonneg (by positivity)]
    calc 2 * (1 / (2 * ((k + n : ℕ) : ℝ) + 1)) * |T| ^ (2 * (k + n) + 1)
        ≤ 2 * 1 * (|T| ^ (2 * n + 1) * (1 / 16) ^ k) := by gcongr
      _ = 2 * |T| ^ (2 * n + 1) * (1 / 16) ^ k := by ring
  have total : Real.log (1 + T) - Real.log (1 - T) = 2 * Real.artanh T := by
    rw [Real.artanh_eq_half_log ⟨low.le, high.le⟩, Real.log_div (by linarith) (by linarith)]
    ring
  have twice : ∑ i ∈ Finset.range n, (2 : ℝ) * (1 / (2 * i + 1)) * T ^ (2 * i + 1) =
      2 * oddTerms T n := by
    rw [oddTerms, Finset.mul_sum]
    refine Finset.sum_congr rfl fun i _ => ?_
    push_cast
    ring
  rw [total, twice, Real.norm_eq_abs, ← mul_sub, abs_mul, abs_two, abs_sub_comm] at tail
  have := pow_nonneg (abs_nonneg T) (2 * n + 1)
  norm_num at tail
  linarith

theorem int_div_near (a : Int) {b : Int} (hb : 0 < b) :
    |((a / b : Int) : ℝ) - a / b| ≤ 1 := by
  have hb' : (0 : ℝ) < b := Int.cast_pos.2 hb
  have whole : (a : ℝ) = b * (a / b : Int) + (a % b : Int) := by
    exact_mod_cast (Int.mul_ediv_add_emod a b).symm
  have least : (0 : ℝ) ≤ (a % b : Int) := Int.cast_nonneg (Int.emod_nonneg a hb.ne')
  have most : ((a % b : Int) : ℝ) ≤ b := Int.cast_le.2 (Int.emod_lt_of_pos a hb).le
  have rest : ((a / b : Int) : ℝ) - a / b = -((a % b : Int) / b) := by
    rw [sub_eq_iff_eq_add, neg_add_eq_sub, ← sub_div, eq_div_iff hb'.ne']
    linarith
  rw [rest, abs_neg, abs_of_nonneg (by positivity), div_le_one hb']
  exact most

/-- One more term, from a power that is off by two units at most, is off by three. -/
theorem oddTerms_step {u T : ℝ} {k : ℕ} {p acc : Int}
    (hp : |(p : ℝ) - u * T ^ (2 * k + 1)| ≤ 2) (ha : |(acc : ℝ) - u * oddTerms T k| ≤ 3 * k) :
    |((acc + p / (2 * k + 1) : Int) : ℝ) - u * oddTerms T (k + 1)| ≤ 3 * (k + 1 : ℕ) := by
  have odd : (0 : ℝ) < 2 * k + 1 := by positivity
  have dropped : |((p / (2 * k + 1) : Int) : ℝ) - p / (2 * k + 1)| ≤ 1 := by
    exact_mod_cast int_div_near p (b := 2 * k + 1) (by positivity)
  have scaled : |(p : ℝ) / (2 * k + 1) - u * T ^ (2 * k + 1) / (2 * k + 1)| ≤ 2 := by
    rw [← sub_div, abs_div, abs_of_pos odd, div_le_iff₀ odd]
    linarith [Nat.cast_nonneg (α := ℝ) k]
  have parts : ((acc + p / (2 * k + 1) : Int) : ℝ) - u * oddTerms T (k + 1) =
      (acc - u * oddTerms T k) + (((p / (2 * k + 1) : Int) : ℝ) - p / (2 * k + 1)) +
        (p / (2 * k + 1) - u * T ^ (2 * k + 1) / (2 * k + 1)) := by
    rw [oddTerms, oddTerms, Finset.sum_range_succ]
    push_cast
    ring
  rw [parts]
  push_cast
  have := abs_add_three (acc - u * oddTerms T k)
    (((p / (2 * k + 1) : Int) : ℝ) - p / (2 * k + 1))
    (p / (2 * k + 1) - u * T ^ (2 * k + 1) / (2 * k + 1))
  linarith

/-- What a series loses in whole numbers, once its powers are used up. -/
theorem series_near {u T : ℝ} {n : ℕ} {r : Int} (hT : |T| ≤ 1 / 4) (hu : 0 ≤ u)
    (h : |(r : ℝ) - u * oddTerms T n| ≤ 3 * n) (hn : u * |T| ^ (2 * n + 1) ≤ 3) :
    |(r : ℝ) - u * Real.artanh T| ≤ 3 * n + 6 := by
  have tail := mul_le_mul_of_nonneg_left (oddTerms_near hT n) hu
  rw [← abs_of_nonneg hu, ← abs_mul, abs_of_nonneg hu, mul_sub] at tail
  have := abs_sub_le (r : ℝ) (u * oddTerms T n) (u * Real.artanh T)
  linarith

/-- A power as high as there are bits is less than a unit. -/
theorem power_used_up {T : ℝ} {wp n : ℕ} (hT : |T| ≤ 1 / 4) (hn : wp ≤ n) :
    (2 : ℝ) ^ wp * |T| ^ n ≤ 1 := by
  have below : |T| ≤ 1 / 2 := by linarith
  calc (2 : ℝ) ^ wp * |T| ^ n
      ≤ 2 ^ wp * (1 / 2) ^ n := by gcongr
    _ ≤ 2 ^ wp * (1 / 2) ^ wp := by
        refine mul_le_mul_of_nonneg_left ?_ (by positivity)
        exact pow_le_pow_of_le_one (by norm_num) (by norm_num) hn
    _ = 1 := by rw [← mul_pow]; norm_num

/-- The next power, from one that is off by two units at most. -/
theorem next_power_near {u T : ℝ} {k wp : ℕ} {power t2 : Int} (hu : u = 2 ^ wp) (hwp : 8 ≤ wp)
    (hT : |T| ≤ 1 / 4) (h2 : |(t2 : ℝ) - u * T ^ 2| ≤ 3)
    (hp : |(power : ℝ) - u * T ^ (2 * k + 1)| ≤ 2) :
    |(((power * t2) >>> wp : Int) : ℝ) - u * T ^ (2 * (k + 1) + 1)| ≤ 2 := by
  have large : 256 ≤ u := by
    rw [hu]
    calc (256 : ℝ) = 2 ^ 8 := by norm_num
      _ ≤ 2 ^ wp := pow_le_pow_right₀ one_le_two hwp
  have positive : 0 < u := by linarith
  have dropped : |(((power * t2) >>> wp : Int) : ℝ) - power * t2 / u| ≤ 1 := by
    have := int_div_near (power * t2) (b := 2 ^ wp) (by positivity)
    rw [Int.shiftRight_eq_div_pow, hu]
    exact_mod_cast this
  have ratio : |(t2 : ℝ) / u| ≤ 3 / 40 := by
    have square : T ^ 2 ≤ 1 / 16 := by
      rw [← sq_abs]
      nlinarith [abs_nonneg T]
    rw [abs_div, abs_of_pos positive, div_le_iff₀ positive]
    have := abs_sub_abs_le_abs_sub (t2 : ℝ) (u * T ^ 2)
    rw [abs_of_nonneg (by positivity : 0 ≤ u * T ^ 2)] at this
    nlinarith
  have small : |T ^ (2 * k + 1)| ≤ 1 / 4 := by
    rw [abs_pow]
    calc |T| ^ (2 * k + 1) ≤ |T| ^ 1 :=
          pow_le_pow_of_le_one (abs_nonneg T) (by linarith) (by omega)
      _ ≤ 1 / 4 := by rwa [pow_one]
  have parts : (power : ℝ) * t2 / u - u * T ^ (2 * (k + 1) + 1) =
      (power - u * T ^ (2 * k + 1)) * (t2 / u) + T ^ (2 * k + 1) * (t2 - u * T ^ 2) := by
    field_simp
    ring
  have off : |(power : ℝ) * t2 / u - u * T ^ (2 * (k + 1) + 1)| ≤ 2 * (3 / 40) + 1 / 4 * 3 := by
    rw [parts]
    refine (abs_add_le _ _).trans (add_le_add ?_ ?_)
    · rw [abs_mul]
      exact mul_le_mul hp ratio (abs_nonneg _) (by norm_num)
    · rw [abs_mul]
      exact mul_le_mul small h2 (abs_nonneg _) (by norm_num)
  have := abs_sub_le (((power * t2) >>> wp : Int) : ℝ) (power * t2 / u)
    (u * T ^ (2 * (k + 1) + 1))
  linarith

/-- The series ends after one term for each unit of fuel, or where the power that is left is
less than a unit. -/
theorem artanhTerms_near {T : ℝ} {t2 : Int} {wp : ℕ} (hwp : 8 ≤ wp) (hT : |T| ≤ 1 / 4)
    (h2 : |(t2 : ℝ) - 2 ^ wp * T ^ 2| ≤ 3) (fuel : ℕ) :
    ∀ (k : ℕ) (power acc : Int), |(power : ℝ) - 2 ^ wp * T ^ (2 * k + 1)| ≤ 2 →
      |(acc : ℝ) - 2 ^ wp * oddTerms T k| ≤ 3 * k →
      ∃ n ≤ k + fuel,
        |(artanhTerms fuel t2 wp k power acc : ℝ) - 2 ^ wp * oddTerms T n| ≤ 3 * n ∧
          (n = k + fuel ∨ (2 : ℝ) ^ wp * |T| ^ (2 * n + 1) ≤ 3) := by
  induction fuel with
  | zero => exact fun k power acc _ ha => ⟨k, le_rfl, ha, .inl rfl⟩
  | succ fuel ih =>
    intro k power acc hp ha
    unfold artanhTerms
    split_ifs with hend
    · refine ⟨k, by omega, ha, .inr ?_⟩
      have small : |(power : ℝ)| ≤ 1 := by
        simp only [Bool.or_eq_true, decide_eq_true_eq] at hend
        rcases hend with rfl | rfl <;> norm_num
      have := abs_sub_abs_le_abs_sub ((2 : ℝ) ^ wp * T ^ (2 * k + 1)) power
      rw [abs_sub_comm, abs_mul, abs_pow, abs_pow, abs_two] at this
      linarith
    · obtain ⟨n, hn, near, used⟩ := ih (k + 1) _ _ (next_power_near rfl hwp hT h2 hp)
        (oddTerms_step hp ha)
      exact ⟨n, by omega, near, used.imp (fun h => by omega) id⟩

/-! ## The logarithm of two -/

/-- The power of a whole number's inverse, as dropping at each step leaves it. -/
theorem quotient_power_near (w q k : ℕ) (hq : 0 < q) :
    |((2 ^ w / q ^ (2 * k + 1) : ℕ) : ℝ) - 2 ^ w * (1 / q : ℝ) ^ (2 * k + 1)| ≤ 1 := by
  have := int_div_near (2 ^ w) (b := (q : Int) ^ (2 * k + 1)) (by positivity)
  rw [one_div, inv_pow, ← div_eq_mul_inv, ← Int.cast_natCast, Int.natCast_div]
  push_cast at this ⊢
  exact this

theorem arctanTerms_near {q w : ℕ} (hq : 0 < q) (fuel : ℕ) :
    ∀ (k : ℕ) (acc : Int), |(acc : ℝ) - 2 ^ w * oddTerms (1 / q) k| ≤ 3 * k →
      ∃ n ≤ k + fuel,
        |(arctanTerms fuel false (q * q) (2 ^ w / q ^ (2 * k + 1)) k acc : ℝ) -
          2 ^ w * oddTerms (1 / q) n| ≤ 3 * n ∧
          (n = k + fuel ∨ (2 : ℝ) ^ w * |1 / (q : ℝ)| ^ (2 * n + 1) ≤ 3) := by
  induction fuel with
  | zero => exact fun k acc ha => ⟨k, le_rfl, ha, .inl rfl⟩
  | succ fuel ih =>
    intro k acc ha
    have near := quotient_power_near w q k hq
    unfold arctanTerms
    simp only [Bool.false_and, Bool.false_eq_true, if_false]
    split_ifs with hend
    · refine ⟨k, by omega, ha, .inr ?_⟩
      rw [hend, Nat.cast_zero, zero_sub, abs_neg, abs_mul, abs_pow, abs_pow, abs_two] at near
      linarith
    · have next : 2 ^ w / q ^ (2 * k + 1) / (q * q) = 2 ^ w / q ^ (2 * (k + 1) + 1) := by
        rw [Nat.div_div_eq_div_mul]
        congr 1
        ring
      rw [next]
      have step := oddTerms_step (k := k) (p := (2 ^ w / q ^ (2 * k + 1) : ℕ))
        (by exact_mod_cast near.trans one_le_two) ha
      obtain ⟨n, hn, near, used⟩ := ih (k + 1) _ step
      exact ⟨n, by omega, near, used.imp (fun h => by omega) id⟩

theorem artanhInverse_near {q w : ℕ} (hq : 4 ≤ q) :
    |(artanhInverse q w : ℝ) - 2 ^ w * Real.artanh (1 / q)| ≤ 3 * w + 12 := by
  have small : |1 / (q : ℝ)| ≤ 1 / 4 := by
    have : (4 : ℝ) ≤ q := by exact_mod_cast hq
    rw [abs_of_pos (by positivity)]
    exact one_div_le_one_div_of_le (by norm_num) this
  obtain ⟨n, hn, near, used⟩ := arctanTerms_near (q := q) (w := w) (by omega) (w + 2) 0 0
    (by simp [oddTerms])
  have power : (1 <<< w) / q = 2 ^ w / q ^ (2 * 0 + 1) := by
    rw [Nat.one_shiftLeft, mul_zero, zero_add, pow_one]
  have few : (n : ℝ) ≤ w + 2 := by exact_mod_cast (by omega : n ≤ w + 2)
  have used : (2 : ℝ) ^ w * |1 / (q : ℝ)| ^ (2 * n + 1) ≤ 3 :=
    used.elim (fun h => (power_used_up small (by omega)).trans (by norm_num)) id
  have := series_near small (by positivity) near used
  rw [artanhInverse, power]
  linarith

theorem artanh_eq_log {x : ℝ} (hx : 0 < x) :
    2 * Real.artanh ((x - 1) / (x + 1)) = Real.log x := by
  have low : -1 ≤ (x - 1) / (x + 1) := by
    rw [le_div_iff₀ (by linarith)]
    linarith
  have high : (x - 1) / (x + 1) ≤ 1 := by
    rw [div_le_one (by linarith)]
    linarith
  have ratio : (1 + (x - 1) / (x + 1)) / (1 - (x - 1) / (x + 1)) = x := by
    have : x + 1 ≠ 0 := by linarith
    field_simp
    ring
  rw [Real.artanh_eq_half_log ⟨low, high⟩, ratio]
  ring

/-- The logarithm of two from three numbers close to one. -/
theorem log_two_eq :
    18 * Real.artanh (1 / 26) - 2 * Real.artanh (1 / 4801) + 8 * Real.artanh (1 / 8749) =
      Real.log 2 := by
  have h1 := artanh_eq_log (x := 27 / 25) (by norm_num)
  have h2 := artanh_eq_log (x := 4802 / 4800) (by norm_num)
  have h3 := artanh_eq_log (x := 8750 / 8748) (by norm_num)
  norm_num at h1 h2 h3
  have product : ((27 / 25) ^ 9 * (4375 / 4374) ^ 4 : ℝ) = 2 * (2401 / 2400) := by norm_num
  have logs := congrArg Real.log product
  rw [Real.log_mul (by norm_num) (by norm_num), Real.log_mul (by norm_num) (by norm_num),
    Real.log_pow, Real.log_pow] at logs
  push_cast at logs
  linarith

/-- The sixteen bits that are dropped at the end take most of what the three series lose. -/
theorem ln2Fixed_near (wp : ℕ) : |(ln2Fixed wp : ℝ) - 2 ^ wp * Real.log 2| ≤ wp + 3 := by
  have first := artanhInverse_near (q := 26) (w := wp + 16) (by norm_num)
  have second := artanhInverse_near (q := 4801) (w := wp + 16) (by norm_num)
  have third := artanhInverse_near (q := 8749) (w := wp + 16) (by norm_num)
  have nonneg : (0 : ℝ) ≤ wp := Nat.cast_nonneg wp
  have dropped := int_div_near (18 * artanhInverse 26 (wp + 16) -
    2 * artanhInverse 4801 (wp + 16) + 8 * artanhInverse 8749 (wp + 16)) (b := 2 ^ 16)
    (by norm_num)
  have unit : (2 : ℝ) ^ (wp + 16) = 2 ^ wp * 65536 := by rw [pow_add]; norm_num
  unfold ln2Fixed
  simp only [Int.shiftRight_eq_div_pow]
  rw [← log_two_eq]
  push_cast at first second third dropped ⊢
  rw [unit] at first second third
  rw [abs_le] at *
  obtain ⟨a1, a2⟩ := first
  obtain ⟨b1, b2⟩ := second
  obtain ⟨c1, c2⟩ := third
  obtain ⟨d1, d2⟩ := dropped
  norm_num at d1 d2 a1 a2 b1 b2 c1 c2 ⊢
  constructor <;> linarith

/-! ## Any logarithm -/

theorem toFixed_near (b : Binary) (wp : ℕ) : |(toFixed b wp : ℝ) - 2 ^ wp * b.toReal| ≤ 1 := by
  have value : (2 : ℝ) ^ wp * b.toReal = b.man * 2 ^ (b.exp + wp) := by
    rw [toReal, two_zpow_add, zpow_natCast]
    ring
  unfold toFixed
  simp only
  rw [value]
  split_ifs with h
  · push_cast
    rw [two_zpow_toNat h, sub_self, abs_zero]
    exact zero_le_one
  · have unit : (2 : ℝ) ^ (b.exp + wp) = (2 ^ (-(b.exp + wp)).toNat)⁻¹ := by
      rw [two_zpow_toNat (by omega), zpow_neg, inv_inv]
    have := int_div_near b.man (b := 2 ^ (-(b.exp + wp)).toNat) (by positivity)
    rw [unit, ← div_eq_mul_inv]
    push_cast at this
    exact this

/-- The quotient in units `u` of two values, from whole numbers next to them. -/
theorem fixed_ratio_near {u x : ℝ} {f one : Int} {wp : ℕ} (hu : u = 2 ^ wp) (hwp : 8 ≤ wp)
    (hx : 3 / 4 ≤ x) (hone : (one : ℝ) = u) (hf : |(f : ℝ) - u * x| ≤ 1) :
    |(((f - one) <<< wp / (f + one) : Int) : ℝ) - u * ((x - 1) / (x + 1))| ≤ 2 := by
  have large : 256 ≤ u := by
    rw [hu]
    calc (256 : ℝ) = 2 ^ 8 := by norm_num
      _ ≤ 2 ^ wp := pow_le_pow_right₀ one_le_two hwp
  obtain ⟨low, high⟩ := abs_le.1 hf
  have sum : 0 < (f : ℝ) + u := by nlinarith
  have sum' : 0 < f + one := by
    rw [← hone] at sum
    exact_mod_cast sum
  have dropped := int_div_near ((f - one) <<< wp) sum'
  have scaled : (((f - one) <<< wp : Int) : ℝ) = (f - u) * u := by
    rw [Int.shiftLeft_eq]
    push_cast
    rw [hone, hu]
  rw [scaled, Int.cast_add, hone] at dropped
  have parts : (f - u) * u / (f + u) - u * ((x - 1) / (x + 1)) =
      2 * u * (f - u * x) / ((f + u) * (x + 1)) := by
    have : x + 1 ≠ 0 := by linarith
    field_simp
    ring
  have off : |(f - u) * u / (f + u) - u * ((x - 1) / (x + 1))| ≤ 1 := by
    have below : 0 < (f + u) * (x + 1) := mul_pos sum (by linarith)
    rw [parts, abs_div, abs_of_pos below, div_le_one below, abs_mul, abs_of_pos (by linarith)]
    nlinarith
  have := abs_sub_le (((f - one) <<< wp / (f + one) : Int) : ℝ)
    ((f - u) * u / (f + u)) (u * ((x - 1) / (x + 1)))
  linarith

/-- The logarithm of a value close to one, in units `2 ^ (-wp)`. -/
theorem lnSeries_near {m : Binary} {wp : ℕ} (hwp : 8 ≤ wp) (low : 3 / 4 ≤ m.toReal)
    (high : m.toReal ≤ 3 / 2) {one t : Int} (hone : (one : ℝ) = 2 ^ wp)
    (ht : t = (toFixed m wp - one) <<< wp / (toFixed m wp + one)) :
    |((2 * artanhTerms (wp + 8) ((t * t) >>> wp) wp 0 t 0 : Int) : ℝ) -
      2 ^ wp * Real.log m.toReal| ≤ 6 * wp + 60 := by
  set x := m.toReal
  set T := (x - 1) / (x + 1) with hT
  set u : ℝ := 2 ^ wp with hu
  have large : 256 ≤ u := by
    calc (256 : ℝ) = 2 ^ 8 := by norm_num
      _ ≤ 2 ^ wp := pow_le_pow_right₀ one_le_two hwp
  have first : |(t : ℝ) - u * T| ≤ 2 := by
    rw [ht]
    exact fixed_ratio_near hu hwp low hone (toFixed_near m wp)
  have small : |T| ≤ 1 / 4 := by
    rw [hT, abs_div, abs_of_pos (by linarith : 0 < x + 1), div_le_iff₀ (by linarith), abs_le]
    constructor <;> linarith
  have square : |(((t * t) >>> wp : Int) : ℝ) - u * T ^ 2| ≤ 3 := by
    have dropped : |(((t * t) >>> wp : Int) : ℝ) - t * t / u| ≤ 1 := by
      have := int_div_near (t * t) (b := 2 ^ wp) (by positivity)
      rw [Int.shiftRight_eq_div_pow, hu]
      exact_mod_cast this
    have parts : (t : ℝ) * t / u - u * T ^ 2 = (t - u * T) * ((t + u * T) / u) := by
      field_simp
      ring
    have ratio : |((t : ℝ) + u * T) / u| ≤ 1 := by
      have sum := abs_add_le ((t : ℝ) - u * T) (2 * (u * T))
      rw [abs_mul, abs_mul, abs_two, abs_of_pos (by linarith : 0 < u)] at sum
      rw [abs_div, abs_of_pos (by linarith : 0 < u), div_le_one (by linarith)]
      have same : (t : ℝ) - u * T + 2 * (u * T) = t + u * T := by ring
      rw [same] at sum
      nlinarith
    have off : |(t : ℝ) * t / u - u * T ^ 2| ≤ 2 := by
      rw [parts, abs_mul]
      nlinarith [abs_nonneg ((t : ℝ) - u * T), abs_nonneg (((t : ℝ) + u * T) / u)]
    have := abs_sub_le (((t * t) >>> wp : Int) : ℝ) (t * t / u) (u * T ^ 2)
    linarith
  obtain ⟨n, hn, near, used⟩ := artanhTerms_near hwp small square (wp + 8) 0 t 0
    (by simpa using first) (by simp [oddTerms])
  have few : (n : ℝ) ≤ wp + 8 := by exact_mod_cast (by omega : n ≤ wp + 8)
  have used : u * |T| ^ (2 * n + 1) ≤ 3 :=
    used.elim (fun h => (power_used_up small (by omega)).trans (by norm_num)) id
  have half := series_near small (by positivity) near used
  rw [← artanh_eq_log (by linarith : 0 < x), ← hT]
  push_cast
  rw [abs_le] at half ⊢
  constructor <;> linarith

/-- A value that is not one is off from one by a unit of its last bit at least. -/
theorem magnitude_sub_one {m : Binary} (low : 3 / 4 ≤ m.toReal) (high : m.toReal ≤ 3 / 2)
    (hm : m.toReal ≠ 1) : -(bitLength m.man.natAbs : Int) < (sub m (ofInt 1)).magnitude := by
  have positive : 0 < m.toReal := by linarith
  have above : -(bitLength m.man.natAbs : Int) ≤ m.exp := by
    have size := abs_toReal_lt m
    rw [abs_of_pos positive] at size
    have : (2 : ℝ) ^ (-1 : Int) < 2 ^ m.magnitude := by
      rw [zpow_neg_one]
      linarith
    have := (zpow_lt_zpow_iff_right₀ one_lt_two).1 this
    rw [magnitude] at this
    omega
  have whole : m.exp ≤ 0 := by
    by_contra h
    have size := two_zpow_exp_le (toReal_pos.1 positive).ne'
    rw [abs_of_pos positive] at size
    have : (2 : ℝ) ^ (1 : Int) ≤ 2 ^ m.exp := zpow_le_zpow_right₀ one_le_two (by omega)
    rw [zpow_one] at this
    linarith
  have difference : (sub m (ofInt 1)).toReal =
      ((m.man - 2 ^ (-m.exp).toNat : Int) : ℝ) * 2 ^ m.exp := by
    rw [toReal_sub, toReal_ofInt, toReal]
    push_cast
    rw [two_zpow_toNat (by omega), sub_mul, ← two_zpow_add, neg_add_cancel, zpow_zero]
  have nonzero : m.man - 2 ^ (-m.exp).toNat ≠ 0 := by
    intro h
    rw [h, Int.cast_zero, zero_mul, toReal_sub, toReal_ofInt, Int.cast_one] at difference
    exact hm (by linarith)
  have unit : (1 : ℝ) ≤ |((m.man - 2 ^ (-m.exp).toNat : Int) : ℝ)| := by
    rw [← Int.cast_abs]
    exact_mod_cast Int.one_le_abs nonzero
  have size := abs_toReal_lt (sub m (ofInt 1))
  rw [difference, abs_mul, abs_of_pos (two_zpow_pos _)] at size
  have : (2 : ℝ) ^ m.exp < 2 ^ (sub m (ofInt 1)).magnitude :=
    (le_mul_of_one_le_left (two_zpow_pos _).le unit).trans_lt size
  have := (zpow_lt_zpow_iff_right₀ one_lt_two).1 this
  omega

/-- The bits that a value next to one takes more. -/
def closeness (m : Binary) (k : Int) : ℕ :=
  if k = 0 then (-(sub m (ofInt 1)).magnitude).toNat else 0

theorem closeness_le {m : Binary} {k : Int} (low : 3 / 4 ≤ m.toReal) (high : m.toReal ≤ 3 / 2)
    (hne : m.toReal * 2 ^ k ≠ 1) : closeness m k ≤ bitLength m.man.natAbs := by
  unfold closeness
  split_ifs with h
  · rw [h, zpow_zero, mul_one] at hne
    have := magnitude_sub_one low high hne
    omega
  · exact Nat.zero_le _

/-- The logarithm is no smaller than the closeness to one tells. -/
theorem le_abs_log {m : Binary} {k : Int} (low : 3 / 4 ≤ m.toReal) (high : m.toReal ≤ 3 / 2)
    (hne : m.toReal * 2 ^ k ≠ 1) :
    (2 : ℝ) ^ (-(closeness m k : Int) - 3) ≤ |Real.log m.toReal + k * Real.log 2| := by
  have positive : 0 < m.toReal := by linarith
  have upper := Real.log_le_sub_one_of_pos positive
  have lower := Real.one_sub_inv_le_log_of_pos positive
  unfold closeness
  split_ifs with h
  · rw [h, zpow_zero, mul_one] at hne
    rw [h, Int.cast_zero, zero_mul, add_zero]
    have size := le_abs_toReal (b := sub m (ofInt 1)) fun h0 => by
      have := toReal_eq_zero.2 h0
      rw [toReal_sub, toReal_ofInt, Int.cast_one] at this
      exact hne (by linarith)
    rw [toReal_sub, toReal_ofInt, Int.cast_one] at size
    have part : 1 / 2 * |m.toReal - 1| ≤ |Real.log m.toReal| := by
      rcases le_total 1 m.toReal with h1 | h1
      · have quotient : 1 - m.toReal⁻¹ = (m.toReal - 1) / m.toReal := by
          field_simp
        have : 1 / 2 * (m.toReal - 1) ≤ (m.toReal - 1) / m.toReal := by
          rw [le_div_iff₀ positive]
          nlinarith
        rw [abs_of_nonneg (by linarith), abs_of_nonneg (Real.log_nonneg h1)]
        linarith
      · rw [abs_of_nonpos (by linarith), abs_of_nonpos (Real.log_nonpos positive.le h1)]
        linarith
    calc (2 : ℝ) ^ (-((-(sub m (ofInt 1)).magnitude).toNat : Int) - 3)
        ≤ 2 ^ (-1 + ((sub m (ofInt 1)).magnitude - 1)) :=
          zpow_le_zpow_right₀ one_le_two (by omega)
      _ = 1 / 2 * 2 ^ ((sub m (ofInt 1)).magnitude - 1) := by
          rw [two_zpow_add, zpow_neg_one, one_div]
      _ ≤ 1 / 2 * |m.toReal - 1| := by linarith
      _ ≤ |Real.log m.toReal| := part
  · have close : |Real.log m.toReal| ≤ 1 / 2 := by
      have : m.toReal⁻¹ ≤ (3 / 4 : ℝ)⁻¹ := inv_anti₀ (by norm_num) low
      rw [abs_le]
      constructor
      · norm_num at this
        linarith
      · linarith
    have far : Real.log 2 ≤ |k * Real.log 2| := by
      rw [abs_mul, abs_of_pos (Real.log_pos one_lt_two)]
      refine le_mul_of_one_le_left (Real.log_pos one_lt_two).le ?_
      rw [← Int.cast_abs]
      exact_mod_cast Int.one_le_abs h
    have two := Real.log_two_gt_d9
    have := abs_sub_abs_le_abs_sub (k * Real.log 2) (-Real.log m.toReal)
    rw [abs_neg, sub_neg_eq_add, add_comm] at this
    have eighth : (2 : ℝ) ^ (-((0 : ℕ) : Int) - 3) = 1 / 8 := by norm_num
    rw [eighth]
    linarith

theorem cast_unit (wp : ℕ) : (((1 <<< wp : ℕ) : Int) : ℝ) = 2 ^ wp := by
  rw [Nat.one_shiftLeft]
  push_cast
  rfl

theorem toReal_ofFixed (n : Int) (wp : ℕ) : (ofFixed n wp).toReal = n / 2 ^ wp := by
  rw [ofFixed, toReal_trim, toReal, zpow_neg, zpow_natCast, div_eq_mul_inv]

/-- The logarithm from a value close to one and a power of two. -/
theorem ln_of_parts (mode : Rounding) (prec : ℕ) {x m : Binary} {k : Int} {wp : ℕ}
    (hx : x.toReal = m.toReal * 2 ^ k) (low : 3 / 4 ≤ m.toReal) (high : m.toReal ≤ 3 / 2)
    (hne : x.toReal ≠ 1) (hwp : wp = prec + spareBits + closeness m k + bitLength k.natAbs)
    (hsmall : wp ≤ 2 ^ 20) {one t : Int} (hone : (one : ℝ) = 2 ^ wp)
    (ht : t = (toFixed m wp - one) <<< wp / (toFixed m wp + one)) :
    Near (2 ^ (2 - prec : Int)) (round mode prec (ofFixed
      (2 * artanhTerms (wp + 8) ((t * t) >>> wp) wp 0 t 0 + k * ln2Fixed wp) wp)).toReal
      (Real.log x.toReal) := by
  have spare : spareBits = 64 := rfl
  rw [hx] at hne ⊢
  rw [Real.log_mul (by linarith) (two_zpow_pos k).ne', Real.log_zpow]
  set s := 2 * artanhTerms (wp + 8) ((t * t) >>> wp) wp 0 t 0
  set value := Real.log m.toReal + k * Real.log 2
  have unit : (0 : ℝ) < 2 ^ wp := by positivity
  have series := lnSeries_near (by omega) low high hone ht
  have two : |(k * ln2Fixed wp : ℝ) - 2 ^ wp * (k * Real.log 2)| ≤ (wp + 3) * |(k : ℝ)| := by
    rw [mul_left_comm, ← mul_sub, abs_mul, mul_comm]
    exact mul_le_mul_of_nonneg_right (ln2Fixed_near wp) (abs_nonneg _)
  have length : |(k : ℝ)| ≤ 2 ^ bitLength k.natAbs := by
    rw [← Int.cast_abs, Int.abs_eq_natAbs, Int.cast_natCast]
    exact_mod_cast (lt_two_pow_bitLength k.natAbs).le
  have bits : (wp : ℝ) ≤ 1048576 := by exact_mod_cast hsmall
  have one_le : (1 : ℝ) ≤ 2 ^ bitLength k.natAbs := one_le_pow₀ one_le_two
  have off : |((s + k * ln2Fixed wp : Int) : ℝ) - 2 ^ wp * value| ≤
      2 ^ 23 * 2 ^ bitLength k.natAbs := by
    have parts : ((s + k * ln2Fixed wp : Int) : ℝ) - 2 ^ wp * value =
        (s - 2 ^ wp * Real.log m.toReal) +
          (k * ln2Fixed wp - 2 ^ wp * (k * Real.log 2)) := by
      push_cast
      ring
    rw [parts]
    have := abs_add_le ((s : ℝ) - 2 ^ wp * Real.log m.toReal)
      (k * ln2Fixed wp - 2 ^ wp * (k * Real.log 2))
    have twos := mul_le_mul_of_nonneg_left length (by positivity : (0 : ℝ) ≤ wp + 3)
    have ones := mul_le_mul_of_nonneg_left one_le (by positivity : (0 : ℝ) ≤ 6 * wp + 60)
    have all : (7 * wp + 63 : ℝ) * 2 ^ bitLength k.natAbs ≤ 2 ^ 23 * 2 ^ bitLength k.natAbs :=
      mul_le_mul_of_nonneg_right (by linarith) (by positivity)
    linarith
  have unrounded : Near (2 ^ (-prec - 38 : Int)) (ofFixed (s + k * ln2Fixed wp) wp).toReal
      value := by
    have parts : (ofFixed (s + k * ln2Fixed wp) wp).toReal - value =
        (((s + k * ln2Fixed wp : Int) : ℝ) - 2 ^ wp * value) / 2 ^ wp := by
      rw [toReal_ofFixed]
      field_simp
    rw [Near, parts, abs_div, abs_of_pos unit, div_le_iff₀ unit]
    calc _ ≤ (2 : ℝ) ^ 23 * 2 ^ bitLength k.natAbs := off
      _ = 2 ^ (-prec - 38 : Int) * 2 ^ (-(closeness m k : Int) - 3) * 2 ^ wp := by
          rw [← zpow_natCast, ← zpow_natCast, ← zpow_natCast, ← two_zpow_add, ← two_zpow_add,
            ← two_zpow_add]
          congr 1
          push_cast [hwp, spare]
          ring
      _ ≤ 2 ^ (-prec - 38 : Int) * |value| * 2 ^ wp := by
          have := le_abs_log low high hne
          gcongr
  exact round_of_near mode (unrounded.mono (zpow_le_zpow_right₀ one_le_two (by omega)))

/-- The logarithm of a positive value, as long as the value does not take too many bits. -/
theorem ln_near (mode : Rounding) (prec : ℕ) {x : Binary} (hx : 0 < x.man) (hp : prec ≤ 2 ^ 18)
    (hm : bitLength x.man.natAbs ≤ 2 ^ 18) (hk : bitLength x.magnitude.natAbs ≤ 2 ^ 18) :
    Near (2 ^ (2 - prec : Int)) (ln mode prec x).toReal (Real.log x.toReal) := by
  have spare : spareBits = 64 := rfl
  have positive := toReal_pos.2 hx
  have threeQuarters : (⟨3, -2⟩ : Binary).toReal = 3 / 4 := by
    norm_num [toReal]
  have scaled : (x.scale (-x.magnitude)).toReal = x.toReal * 2 ^ (-x.magnitude) := toReal_scale _ _
  have magnitude := abs_toReal_lt x
  have least := le_abs_toReal hx.ne'
  rw [abs_of_pos positive] at magnitude least
  have above : (x.scale (-x.magnitude)).toReal < 1 := by
    rw [scaled, zpow_neg, ← div_eq_mul_inv, div_lt_one (two_zpow_pos _)]
    exact magnitude
  have below : 1 / 2 ≤ (x.scale (-x.magnitude)).toReal := by
    rw [scaled, zpow_neg, ← div_eq_mul_inv, le_div_iff₀ (two_zpow_pos _)]
    rw [sub_eq_add_neg, two_zpow_add, zpow_neg_one] at least
    linarith
  unfold ln
  extract_lets diff
  split_ifs with hd hlt
  · have one : x.toReal = 1 := by
      have := toReal_eq_zero.2 hd
      rw [toReal_sub, toReal_ofInt, Int.cast_one] at this
      linarith
    rw [toReal_zero, one, Real.log_one]
    exact .refl (two_zpow_pos _).le 0
  all_goals
    have hne : x.toReal ≠ 1 := fun h => hd (toReal_eq_zero.1 (by
      rw [toReal_sub, toReal_ofInt, Int.cast_one, h, sub_self]))
    rw [lt_iff, threeQuarters] at hlt
  · have value : x.toReal =
        ((x.scale (-x.magnitude)).scale 1).toReal * 2 ^ (x.magnitude - 1) := by
      rw [toReal_scale, scaled, mul_assoc, mul_assoc, ← two_zpow_add, ← two_zpow_add]
      ring_nf
      rw [zpow_zero, mul_one]
    have low : 3 / 4 ≤ ((x.scale (-x.magnitude)).scale 1).toReal := by
      rw [toReal_scale, zpow_one]
      linarith
    have high : ((x.scale (-x.magnitude)).scale 1).toReal ≤ 3 / 2 := by
      rw [toReal_scale, zpow_one]
      linarith
    have close := closeness_le low high (value ▸ hne)
    have length : bitLength (x.magnitude - 1).natAbs ≤ 2 ^ 18 + 1 := by
      rw [bitLength_le_iff] at hk ⊢
      omega
    exact ln_of_parts mode prec value low high hne rfl
      (by rw [man_scale, man_scale] at close; omega) (cast_unit _) rfl
  · have value : x.toReal = (x.scale (-x.magnitude)).toReal * 2 ^ x.magnitude := by
      rw [scaled, mul_assoc, ← two_zpow_add, neg_add_cancel, zpow_zero, mul_one]
    have low : 3 / 4 ≤ (x.scale (-x.magnitude)).toReal := not_lt.1 hlt
    have high : (x.scale (-x.magnitude)).toReal ≤ 3 / 2 := by linarith
    have close := closeness_le low high (value ▸ hne)
    exact ln_of_parts mode prec value low high hne rfl
      (by rw [man_scale] at close; omega) (cast_unit _) rfl

end Binary

end Reckoner
