-- How far the exponential of a binary fraction is off. Its series is summed next to one, and each
-- of the eight squarings after it makes what is lost four times as large at most.
import Mathlib
import Reckoner.Proofs.Number.Logarithm

namespace Reckoner

namespace Binary

/-! ## The series -/

/-- The first terms of the exponential series. -/
noncomputable def factorialTerms (X : ℝ) (n : ℕ) : ℝ :=
  ∑ j ∈ Finset.range n, X ^ j / j.factorial

/-- What the first terms leave out is about as large as the next term. -/
theorem factorialTerms_near {X : ℝ} (hX : |X| ≤ 1 / 4) (n : ℕ) :
    |factorialTerms X (n + 1) - Real.exp X| ≤ 2 * (|X| ^ (n + 1) / (n + 1).factorial) := by
  have bound := Real.exp_bound (by linarith : |X| ≤ 1) (Nat.succ_pos n)
  rw [abs_sub_comm, factorialTerms]
  refine bound.trans ?_
  have factorial : (0 : ℝ) < (n + 1).factorial := by positivity
  have ratio : ((n + 1).succ : ℝ) / ((n + 1).factorial * (n + 1 : ℕ)) ≤
      2 / (n + 1).factorial := by
    rw [div_le_div_iff₀ (by positivity) factorial]
    push_cast
    nlinarith [Nat.cast_nonneg (α := ℝ) n]
  calc |X| ^ (n + 1) * (((n + 1).succ : ℝ) / ((n + 1).factorial * (n + 1 : ℕ)))
      ≤ |X| ^ (n + 1) * (2 / (n + 1).factorial) :=
        mul_le_mul_of_nonneg_left ratio (by positivity)
    _ = 2 * (|X| ^ (n + 1) / (n + 1).factorial) := by ring

/-- The next term, from one that is off by three units at most. -/
theorem next_term_near {u X : ℝ} {r term : Int} {wp k : ℕ} (hu : u = 2 ^ wp) (hr : (r : ℝ) = u * X)
    (hX : |X| ≤ 1 / 4) (ht : |(term : ℝ) - u * (X ^ k / k.factorial)| ≤ 3) :
    |((((term * r) >>> wp) / (k + 1) : Int) : ℝ) - u * (X ^ (k + 1) / (k + 1).factorial)| ≤ 3 := by
  have positive : 0 < u := by
    rw [hu]
    positivity
  have successor : (0 : ℝ) < k + 1 := by positivity
  have one_le : (1 : ℝ) ≤ k + 1 := by linarith [Nat.cast_nonneg (α := ℝ) k]
  have shifted : |(((term * r) >>> wp : Int) : ℝ) - term * X| ≤ 1 := by
    have := int_div_near (term * r) (b := 2 ^ wp) (by positivity)
    rw [Int.shiftRight_eq_div_pow]
    push_cast at this ⊢
    rw [hr, ← hu] at this
    have value : (term : ℝ) * (u * X) / u = term * X := by
      field_simp
    rwa [value] at this
  have divided : |((((term * r) >>> wp) / (k + 1) : Int) : ℝ) -
      (((term * r) >>> wp : Int) : ℝ) / (k + 1)| ≤ 1 := by
    exact_mod_cast int_div_near ((term * r) >>> wp) (b := k + 1) (by positivity)
  have parts : ((((term * r) >>> wp : Int) : ℝ) / (k + 1)) -
      u * (X ^ (k + 1) / (k + 1).factorial) =
      ((((term * r) >>> wp : Int) : ℝ) - term * X +
        (term - u * (X ^ k / k.factorial)) * X) / (k + 1) := by
    rw [Nat.factorial_succ]
    push_cast
    field_simp
    ring
  have off : |((((term * r) >>> wp : Int) : ℝ) / (k + 1)) -
      u * (X ^ (k + 1) / (k + 1).factorial)| ≤ 2 := by
    have scaled : |(term - u * (X ^ k / k.factorial)) * X| ≤ 3 * (1 / 4) := by
      rw [abs_mul]
      exact mul_le_mul ht hX (abs_nonneg _) (by norm_num)
    rw [parts, abs_div, abs_of_pos successor, div_le_iff₀ successor]
    have := abs_add_le ((((term * r) >>> wp : Int) : ℝ) - term * X)
      ((term - u * (X ^ k / k.factorial)) * X)
    linarith
  have := abs_sub_le ((((term * r) >>> wp) / (k + 1) : Int) : ℝ)
    ((((term * r) >>> wp : Int) : ℝ) / (k + 1)) (u * (X ^ (k + 1) / (k + 1).factorial))
  linarith

/-- The series ends after one term for each unit of fuel, or where the next term is less than a
few units. -/
theorem expTerms_near {X : ℝ} {r : Int} {wp : ℕ} (hr : (r : ℝ) = 2 ^ wp * X) (hX : |X| ≤ 1 / 4)
    (fuel : ℕ) :
    ∀ (k : ℕ) (term acc : Int), |(term : ℝ) - 2 ^ wp * (X ^ k / k.factorial)| ≤ 3 →
      |(acc : ℝ) - 2 ^ wp * factorialTerms X (k + 1)| ≤ 3 * k →
      ∃ n ≤ k + fuel,
        |(expTerms fuel r wp k term acc : ℝ) - 2 ^ wp * factorialTerms X (n + 1)| ≤ 3 * n ∧
          (n = k + fuel ∨ (2 : ℝ) ^ wp * (|X| ^ (n + 1) / (n + 1).factorial) ≤ 4) := by
  induction fuel with
  | zero => exact fun k term acc _ ha => ⟨k, le_rfl, ha, .inl rfl⟩
  | succ fuel ih =>
    intro k term acc ht ha
    have next := next_term_near rfl hr hX ht
    unfold expTerms
    simp only
    split_ifs with hend
    · refine ⟨k, by omega, ha, .inr ?_⟩
      set term' := ((term * r) >>> wp) / (k + 1)
      have small : |(term' : ℝ)| ≤ 1 := by
        simp only [Bool.or_eq_true, decide_eq_true_eq] at hend
        rcases hend with h | h <;> rw [h] <;> norm_num
      have := abs_sub_abs_le_abs_sub ((2 : ℝ) ^ wp * (X ^ (k + 1) / (k + 1).factorial)) term'
      rw [abs_sub_comm, abs_mul, abs_div, abs_pow, abs_pow, abs_two, Nat.abs_cast] at this
      linarith
    · have sum : |((acc + ((term * r) >>> wp) / (k + 1) : Int) : ℝ) -
          2 ^ wp * factorialTerms X (k + 1 + 1)| ≤ 3 * (k + 1 : ℕ) := by
        have parts : ((acc + ((term * r) >>> wp) / (k + 1) : Int) : ℝ) -
            2 ^ wp * factorialTerms X (k + 1 + 1) =
            (acc - 2 ^ wp * factorialTerms X (k + 1)) +
              (((((term * r) >>> wp) / (k + 1) : Int) : ℝ) -
                2 ^ wp * (X ^ (k + 1) / (k + 1).factorial)) := by
          rw [factorialTerms, factorialTerms, Finset.sum_range_succ _ (k + 1)]
          push_cast
          ring
        rw [parts]
        push_cast at next ⊢
        exact (abs_add_le _ _).trans (by linarith)
      obtain ⟨n, hn, near, used⟩ := ih (k + 1) _ _ next sum
      exact ⟨n, by omega, near, used.imp (fun h => by omega) id⟩

/-! ## Squaring -/

/-- A square in units `u` is off by four times as much as its root. -/
theorem square_near {u Y E : ℝ} {x : Int} {wp : ℕ} (hu : u = 2 ^ wp) (hY : 0 ≤ Y)
    (hY' : Y ≤ 3 / 2) (hE : 2 ≤ E) (hEu : 2 * E ≤ u) (h : |(x : ℝ) - u * Y| ≤ E) :
    |(((x * x) >>> wp : Int) : ℝ) - u * Y ^ 2| ≤ 4 * E := by
  have positive : 0 < u := by linarith
  have dropped : |(((x * x) >>> wp : Int) : ℝ) - x * x / u| ≤ 1 := by
    have := int_div_near (x * x) (b := 2 ^ wp) (by positivity)
    rw [Int.shiftRight_eq_div_pow, hu]
    exact_mod_cast this
  have parts : (x : ℝ) * x / u - u * Y ^ 2 = (x - u * Y) * ((x - u * Y + 2 * (u * Y)) / u) := by
    field_simp
    ring
  have ratio : |((x : ℝ) - u * Y + 2 * (u * Y)) / u| ≤ 7 / 2 := by
    have sum := abs_add_le ((x : ℝ) - u * Y) (2 * (u * Y))
    rw [abs_of_nonneg (by positivity : 0 ≤ 2 * (u * Y))] at sum
    rw [abs_div, abs_of_pos positive, div_le_iff₀ positive]
    nlinarith
  have off : |(x : ℝ) * x / u - u * Y ^ 2| ≤ E * (7 / 2) := by
    rw [parts, abs_mul]
    exact mul_le_mul h ratio (abs_nonneg _) (by linarith)
  have := abs_sub_le (((x * x) >>> wp : Int) : ℝ) (x * x / u) (u * Y ^ 2)
  linarith

theorem squareTimes_near {wp : ℕ} (n : ℕ) :
    ∀ {x : Int} {Y E : ℝ}, 0 ≤ Y → Y ^ 2 ^ n ≤ 3 / 2 → 2 ≤ E → 2 * (4 ^ n * E) ≤ 2 ^ wp →
      |(x : ℝ) - 2 ^ wp * Y| ≤ E →
      |(squareTimes n x wp : ℝ) - 2 ^ wp * Y ^ 2 ^ n| ≤ 4 ^ n * E := by
  induction n with
  | zero =>
    intro x Y E _ _ _ _ h
    simpa [squareTimes] using h
  | succ n ih =>
    intro x Y E hY hY' hE hEu h
    have power : Y ^ 2 ^ (n + 1) = (Y ^ 2) ^ 2 ^ n := by rw [← pow_mul, pow_succ']
    have grow : E ≤ 4 ^ (n + 1) * E :=
      le_mul_of_one_le_left (by linarith) (one_le_pow₀ (by norm_num))
    have base : Y ≤ 3 / 2 := by
      by_contra hlarge
      have := le_self_pow₀ (by linarith : 1 ≤ Y) (Nat.two_pow_pos (n + 1)).ne'
      linarith
    have four : (4 : ℝ) ^ (n + 1) * E = 4 ^ n * (4 * E) := by ring
    have near := square_near rfl hY base hE (by linarith) h
    rw [squareTimes, power, four]
    rw [power] at hY'
    rw [four] at hEu
    exact ih (by positivity) hY' (by linarith) hEu near

/-- The series on whole numbers. -/
theorem expSeries_near {X : ℝ} {r one : Int} {w : ℕ} (hone : (one : ℝ) = 2 ^ w)
    (hr : (r : ℝ) = 2 ^ w * X) (hX : |X| ≤ 1 / 4) :
    |(expTerms (w + 8) r w 0 one one : ℝ) - 2 ^ w * Real.exp X| ≤ 3 * w + 32 := by
  have unit : (0 : ℝ) ≤ 2 ^ w := by positivity
  obtain ⟨n, hn, near, used⟩ := expTerms_near hr hX (w + 8) 0 one one (by simp [hone])
    (by simp [hone, factorialTerms])
  have few : (n : ℝ) ≤ w + 8 := by exact_mod_cast (by omega : n ≤ w + 8)
  have used : (2 : ℝ) ^ w * (|X| ^ (n + 1) / (n + 1).factorial) ≤ 4 := by
    refine used.elim (fun h => ?_) id
    have factorial : (1 : ℝ) ≤ (n + 1).factorial := by
      exact_mod_cast Nat.factorial_pos (n + 1)
    calc (2 : ℝ) ^ w * (|X| ^ (n + 1) / (n + 1).factorial)
        ≤ 2 ^ w * |X| ^ (n + 1) :=
          mul_le_mul_of_nonneg_left (div_le_self (by positivity) factorial) unit
      _ ≤ 1 := power_used_up hX (by omega)
      _ ≤ 4 := by norm_num
  have tail := mul_le_mul_of_nonneg_left (factorialTerms_near hX n) unit
  rw [← abs_of_nonneg unit, ← abs_mul, abs_of_nonneg unit, mul_sub] at tail
  have := abs_sub_le (expTerms (w + 8) r w 0 one one : ℝ) (2 ^ w * factorialTerms X (n + 1))
    (2 ^ w * Real.exp X)
  linarith

theorem exp_two_fifths_le : Real.exp (2 / 5) ≤ 3 / 2 := by
  have fifth : Real.exp (2 / 5) ^ 5 = Real.exp 1 ^ 2 := by
    rw [← Real.exp_nat_mul, ← Real.exp_nat_mul]
    norm_num
  have square : Real.exp 1 ^ 2 ≤ (3 / 2) ^ 5 := by
    have := Real.exp_one_lt_d9
    nlinarith [Real.exp_pos 1]
  exact le_of_pow_le_pow_left₀ (by norm_num) (by norm_num) (fifth ▸ square)

/-- The exponential of a small number, in units `2 ^ (-wp)`. -/
theorem expFixed_near {r : Int} {wp : ℕ} (hr : |(r : ℝ) / 2 ^ wp| ≤ 2 / 5) :
    |(expFixed r wp : ℝ) - 2 ^ wp * Real.exp (r / 2 ^ wp)| ≤ wp + 2 := by
  set ρ := (r : ℝ) / 2 ^ wp with hρ
  obtain ⟨low, high⟩ := abs_le.1 hr
  have unit : (2 : ℝ) ^ (wp + 24) = 2 ^ wp * 16777216 := by
    rw [pow_add]
    norm_num
  have shifted : (((r <<< (24 : Nat)) >>> (8 : Nat) : Int) : ℝ) = 2 ^ (wp + 24) * (ρ / 256) := by
    have exact : (r <<< (24 : Nat)) >>> (8 : Nat) = r * 65536 := by
      rw [Int.shiftLeft_eq, Int.shiftRight_eq_div_pow]
      omega
    rw [exact, unit, hρ]
    push_cast
    field_simp
    ring
  have small : |ρ / 256| ≤ 1 / 4 := by
    rw [abs_le]
    constructor <;> linarith
  have series := expSeries_near (cast_unit (wp + 24)) shifted small
  have power : Real.exp (ρ / 256) ^ 2 ^ 8 = Real.exp ρ := by
    rw [← Real.exp_nat_mul]
    congr 1
    push_cast
    ring
  have bound : Real.exp ρ ≤ 3 / 2 := (Real.exp_le_exp.2 high).trans exp_two_fifths_le
  have bits : (wp : ℝ) + 1 ≤ 2 ^ wp := by exact_mod_cast (Nat.lt_two_pow_self : wp < 2 ^ wp)
  have nonneg := Nat.cast_nonneg (α := ℝ) wp
  have squared := squareTimes_near 8 (Real.exp_pos _).le (power ▸ bound)
    (by push_cast; linarith) (by rw [unit]; push_cast; linarith) series
  rw [power, unit] at squared
  unfold expFixed
  simp only
  set x := squareTimes 8 (expTerms (wp + 24 + 8) ((r <<< (24 : Nat)) >>> (8 : Nat)) (wp + 24) 0
    ((1 <<< (wp + 24) : ℕ) : Int) ((1 <<< (wp + 24) : ℕ) : Int)) (wp + 24)
  have dropped := int_div_near x (b := 2 ^ 24) (by norm_num)
  rw [Int.shiftRight_eq_div_pow]
  push_cast at dropped squared ⊢
  rw [abs_le] at *
  norm_num at dropped squared ⊢
  constructor <;> linarith

/-! ## Any exponential -/

/-- The whole number of times that the logarithm of two goes into a value leaves about half of it
at most. -/
theorem remainder_le (t : Int) {l : Int} (hl : 0 < l) :
    |((t - (2 * t + l) / (2 * l) * l : Int) : ℝ)| ≤ l / 2 := by
  have parts := Int.mul_ediv_add_emod (2 * t + l) (2 * l)
  have least := Int.emod_nonneg (2 * t + l) (by omega : 2 * l ≠ 0)
  have most := Int.emod_lt_of_pos (2 * t + l) (by omega : 0 < 2 * l)
  set q := (2 * t + l) / (2 * l)
  have product : 2 * l * q = 2 * (q * l) := by ring
  rw [product] at parts
  have low : -l ≤ 2 * (t - q * l) := by omega
  have high : 2 * (t - q * l) ≤ l := by omega
  have low : -(l : ℝ) ≤ 2 * ((t - q * l : Int) : ℝ) := by exact_mod_cast low
  have high : 2 * ((t - q * l : Int) : ℝ) ≤ l := by exact_mod_cast high
  rw [abs_le]
  constructor <;> linarith

/-- An exponent that is off by little makes the exponential off by twice as large a part. -/
theorem exp_near {x y ε : ℝ} (h : |y - x| ≤ ε) (hε : ε ≤ 1) :
    Near (2 * ε) (Real.exp y) (Real.exp x) := by
  have part : Real.exp y - Real.exp x = (Real.exp (y - x) - 1) * Real.exp x := by
    rw [sub_mul, ← Real.exp_add, sub_add_cancel, one_mul]
  rw [Near, part, abs_mul]
  refine mul_le_mul_of_nonneg_right ?_ (abs_nonneg _)
  exact (Real.abs_exp_sub_one_le (h.trans hε)).trans (by linarith)

section Parts

/-! A value is taken apart into a whole number `k` of doublings and a rest, all in units `u` of
`2 ^ (-wp)`: `t` stands for the value and `l` for the logarithm of two. -/

variable {x u : ℝ} {wp M : ℕ} {t l k : Int}

theorem large_unit (hu : u = 2 ^ wp) (hM : M + 64 ≤ wp) : 18446744073709551616 * 2 ^ M ≤ u := by
  have large : (2 : ℝ) ^ 64 * 2 ^ M ≤ u := by
    rw [← pow_add, hu]
    exact pow_le_pow_right₀ one_le_two (by omega)
  norm_num at large
  exact large

/-- The logarithm of two is about 69 hundredths. -/
theorem log_two_units (hwp : wp ≤ 2 ^ 20) (large : 18446744073709551616 ≤ u)
    (hl : |(l : ℝ) - u * Real.log 2| ≤ wp + 3) : 69 / 100 * u ≤ l ∧ l ≤ 7 / 10 * u := by
  have bits : (wp : ℝ) ≤ 1048576 := by exact_mod_cast hwp
  obtain ⟨l1, l2⟩ := abs_le.1 hl
  have below := mul_le_mul_of_nonneg_left Real.log_two_gt_d9.le (by linarith : 0 ≤ u)
  have above := mul_le_mul_of_nonneg_left Real.log_two_lt_d9.le (by linarith : 0 ≤ u)
  constructor <;> linarith

/-- There are few doublings, and the rest is small. -/
theorem doublings_le (hx : |x| ≤ 2 ^ M) (large : 18446744073709551616 * 2 ^ M ≤ u)
    (ht : |(t : ℝ) - u * x| ≤ 1) (least : 69 / 100 * u ≤ l) (most : l ≤ 7 / 10 * u)
    (hk : k = (2 * t + l) / (2 * l)) :
    |(k : ℝ)| ≤ 4 * 2 ^ M ∧ |((t - k * l : Int) : ℝ) / u| ≤ 2 / 5 := by
  have one_le : (1 : ℝ) ≤ 2 ^ M := one_le_pow₀ one_le_two
  have unit : 0 < u := by linarith
  have positive : (0 : ℝ) < l := by linarith
  have rest := remainder_le t (l := l) (by exact_mod_cast positive)
  rw [← hk] at rest
  generalize hr : t - k * l = r at *
  constructor
  · have value : (k : ℝ) * l = t - r := by
      rw [← hr]
      push_cast
      ring
    have product : |(k : ℝ)| * l = |(t : ℝ) - r| := by
      rw [← value, abs_mul, abs_of_pos positive]
    have first : |(t : ℝ)| ≤ 1 + u * 2 ^ M := by
      have scaled : |u * x| ≤ u * 2 ^ M := by
        rw [abs_mul, abs_of_pos unit]
        exact mul_le_mul_of_nonneg_left hx unit.le
      have := abs_sub_abs_le_abs_sub (t : ℝ) (u * x)
      linarith
    have wide : u ≤ u * 2 ^ M := le_mul_of_one_le_right unit.le one_le
    have size := abs_sub (t : ℝ) r
    have room := mul_le_mul_of_nonneg_left least (by positivity : (0 : ℝ) ≤ 4 * 2 ^ M)
    refine le_of_mul_le_mul_right ?_ positive
    linarith
  · rw [abs_div, abs_of_pos unit, div_le_iff₀ unit]
    linarith

/-- The rest is off by as much as all the logarithms that were taken away. -/
theorem rest_near (unit : 0 < u) (ht : |(t : ℝ) - u * x| ≤ 1)
    (hl : |(l : ℝ) - u * Real.log 2| ≤ wp + 3) (few : |(k : ℝ)| ≤ 4 * 2 ^ M) :
    |((t - k * l : Int) : ℝ) / u - (x - k * Real.log 2)| ≤ 2 ^ M * (4 * wp + 13) / u := by
  have one_le : (1 : ℝ) ≤ 2 ^ M := one_le_pow₀ one_le_two
  have parts : ((t - k * l : Int) : ℝ) / u - (x - k * Real.log 2) =
      ((t - u * x) - k * (l - u * Real.log 2)) / u := by
    push_cast
    field_simp
    ring
  rw [parts, abs_div, abs_of_pos unit]
  refine div_le_div_of_nonneg_right ?_ unit.le
  have product : |(k : ℝ) * (l - u * Real.log 2)| ≤ 4 * 2 ^ M * (wp + 3) := by
    rw [abs_mul]
    exact mul_le_mul few hl (abs_nonneg _) (by positivity)
  have := abs_sub ((t : ℝ) - u * x) (k * (l - u * Real.log 2))
  linarith

/-- The exponential of the rest is at least a half, so it is off by a small part of itself. -/
theorem expFixed_part_near {r : Int} {q : ℝ} (hu : u = 2 ^ wp) (hwp : wp ≤ 2 ^ 20)
    (small : |(r : ℝ) / u| ≤ 2 / 5) (hq : 1 / u ≤ q) :
    Near (4194304 * q) (expFixed r wp / u) (Real.exp (r / u)) := by
  have unit : 0 < u := by
    rw [hu]
    positivity
  have bits : (wp : ℝ) ≤ 1048576 := by exact_mod_cast hwp
  have positive : 0 ≤ q := (div_pos one_pos unit).le.trans hq
  have size := Real.add_one_le_exp ((r : ℝ) / u)
  have parts : (expFixed r wp : ℝ) / u - Real.exp (r / u) =
      (expFixed r wp - u * Real.exp (r / u)) / u := by
    field_simp
  have near : |(expFixed r wp : ℝ) - u * Real.exp (r / u)| ≤ wp + 2 := by
    rw [hu] at small ⊢
    exact expFixed_near small
  rw [Near, parts, abs_div, abs_of_pos unit, abs_of_pos (Real.exp_pos _)]
  calc |(expFixed r wp : ℝ) - u * Real.exp (r / u)| / u ≤ (wp + 2) / u :=
        div_le_div_of_nonneg_right near unit.le
    _ = (wp + 2) * (1 / u) := by ring
    _ ≤ 2097152 * q := mul_le_mul (by linarith) hq (by positivity) (by norm_num)
    _ ≤ 4194304 * q * Real.exp (r / u) := by
        have half : 1 / 2 ≤ Real.exp (r / u) := by linarith [(abs_le.1 small).1]
        have := mul_le_mul_of_nonneg_left half (by positivity : 0 ≤ 4194304 * q)
        linarith

/-- The exponential from a whole number of doublings and a rest. -/
theorem exp_of_parts (hx : |x| ≤ 2 ^ M) (hM : M + 64 ≤ wp) (hwp : wp ≤ 2 ^ 20)
    (ht : |(t : ℝ) - 2 ^ wp * x| ≤ 1) (hl : |(l : ℝ) - 2 ^ wp * Real.log 2| ≤ wp + 3)
    (hk : k = (2 * t + l) / (2 * l)) :
    Near (2 ^ (25 + M - wp : Int)) ((ofFixed (expFixed (t - k * l) wp) wp).scale k).toReal
      (Real.exp x) := by
  obtain ⟨u, hu⟩ : ∃ u : ℝ, u = 2 ^ wp := ⟨_, rfl⟩
  rw [← hu] at ht hl
  have one_le : (1 : ℝ) ≤ 2 ^ M := one_le_pow₀ one_le_two
  have large := large_unit hu hM
  have unit : 0 < u := by linarith
  obtain ⟨least, most⟩ := log_two_units hwp (by linarith) hl
  obtain ⟨few, small⟩ := doublings_le hx large ht least most hk
  have off := rest_near unit ht hl few
  generalize t - k * l = r at *
  obtain ⟨q, hq⟩ : ∃ q : ℝ, q = 2 ^ M / u := ⟨_, rfl⟩
  have bits : (wp : ℝ) ≤ 1048576 := by exact_mod_cast hwp
  have quotient : q ≤ 1 / 18446744073709551616 := by
    rw [hq, div_le_iff₀ unit]
    linarith
  have positive : 0 < q := by
    rw [hq]
    positivity
  have first : Near (2 * (8388608 * q)) (Real.exp (r / u)) (Real.exp (x - k * Real.log 2)) := by
    refine exp_near (off.trans ?_) (by linarith)
    rw [hq, mul_comm, mul_div_assoc]
    exact mul_le_mul_of_nonneg_right (by linarith) (hq ▸ positive.le)
  have second := expFixed_part_near hu hwp small (hq ▸ div_le_div_of_nonneg_right one_le unit.le)
  have both := (first.trans second (by positivity)).mul_right (2 ^ k)
  have whole : Real.exp (x - k * Real.log 2) * 2 ^ k = Real.exp x := by
    rw [← Real.exp_log (two_zpow_pos k), ← Real.exp_add, Real.log_zpow, sub_add_cancel]
  rw [whole] at both
  rw [toReal_scale, toReal_ofFixed, ← hu]
  refine both.mono ?_
  have power : (2 : ℝ) ^ (25 + M - wp : Int) = 33554432 * q := by
    rw [hq, hu, zpow_sub₀ two_ne_zero, two_zpow_add, zpow_natCast, zpow_natCast, mul_div_assoc]
    norm_num
  have square := mul_le_mul_of_nonneg_left quotient positive.le
  rw [power]
  linarith

end Parts

/-- The exponential, as long as the value does not take too many bits. -/
theorem exponential_near (mode : Rounding) (prec : ℕ) {x : Binary} (hp : prec ≤ 2 ^ 19)
    (hm : x.man ≠ 0 → x.magnitude ≤ 2 ^ 18) :
    Near (2 ^ (2 - prec : Int)) (exponential mode prec x).toReal (Real.exp x.toReal) := by
  have spare : spareBits = 64 := rfl
  unfold exponential
  split_ifs with hx
  · rw [toReal_eq_zero.2 hx, toReal_ofInt, Int.cast_one, Real.exp_zero]
    exact .refl (two_zpow_pos _).le 1
  extract_lets wp t ln2 k r
  have top := hm hx
  have size : |x.toReal| ≤ 2 ^ x.magnitude.toNat := by
    refine (abs_toReal_lt x).le.trans ?_
    rw [← zpow_natCast]
    exact zpow_le_zpow_right₀ one_le_two (Int.self_le_toNat _)
  have near := exp_of_parts size (by omega) (by omega) (toFixed_near x wp) (ln2Fixed_near wp)
    (rfl : k = _)
  exact round_of_near mode (near.mono (zpow_le_zpow_right₀ one_le_two (by omega)))

theorem bitLength_exponential (mode : Rounding) (prec : Nat) (x : Binary) :
    bitLength (exponential mode prec x).man.natAbs ≤ prec + 1 := by
  unfold exponential
  split_ifs
  · exact bitLength_one_le prec
  · exact bitLength_round mode prec _

end Binary

end Reckoner
