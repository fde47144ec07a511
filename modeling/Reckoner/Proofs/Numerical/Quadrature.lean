-- What the weighted sums over a grid come to. In exact arithmetic the rule of Simpson integrates
-- each polynomial of degree three, and the rule of trapezoids each one of degree one: a sum over the
-- grid is a sum over panels, and in each panel the rule gives what the primitive gains there.
import Mathlib
import Reckoner.Numerical.Quadrature
import Reckoner.Proofs.Solution.Shape

namespace Reckoner

namespace Numerical

open Finset Polynomial

/-! ## Weights -/

section Weights

variable {α : Type}

theorem length_setAlternate (start : ℕ) (weight : α) (weights : List α) :
    (setAlternate start weight weights).length = weights.length := by
  simp [setAlternate]

theorem getD_setAlternate (start : ℕ) (weight d : α) (weights : List α) (i : ℕ) :
    (setAlternate start weight weights).getD i d =
      if start ≤ i ∧ (i - start) % 2 = 0 ∧ i + 1 < weights.length then weight
      else weights.getD i d := by
  simp only [setAlternate, List.getD_eq_getElem?_getD, List.getElem?_mapIdx]
  cases h : weights[i]? with
  | some old => split_ifs <;> rfl
  | none =>
    have long := List.getElem?_eq_none_iff.1 h
    rw [if_neg (by omega)]
    rfl

theorem length_simpsonWeights (n : ℕ) : (simpsonWeights n : List ℚ).length = n + 1 := by
  simp [simpsonWeights, length_setAlternate]

/-- The ends have the weight one, and between them the weights four and two take turns. -/
theorem simpsonWeight {n i : ℕ} (h : i ≤ n) : (simpsonWeights n : List ℚ).getD i 0 =
    if i = 0 ∨ i = n then 1 else if i % 2 = 1 then 4 else 2 := by
  have one : (List.replicate (n + 1) (1 : ℚ)).getD i 0 = 1 := by
    rw [List.getD_replicate _ (by omega)]
  simp only [simpsonWeights, getD_setAlternate, length_setAlternate, List.length_replicate, one]
  split_ifs <;> first | rfl | omega

theorem length_trapezoidWeights (n : ℕ) : (trapezoidWeights n : List ℚ).length = n + 1 := by
  simp [trapezoidWeights]

/-- The ends have the weight one half. -/
theorem trapezoidWeight {n i : ℕ} (h : i ≤ n) : (trapezoidWeights n : List ℚ).getD i 0 =
    if i = 0 ∨ i = n then 1 / 2 else 1 := by
  simp only [trapezoidWeights, List.getD_eq_getElem?_getD, List.getElem?_set, List.length_set,
    List.length_replicate, List.getElem?_replicate]
  split_ifs <;> first | rfl | omega

end Weights

/-! ## Intervals -/

theorem simpsonIntervals_isLeast (n : ℤ) :
    IsLeast {m : ℕ | Even m ∧ max n 2 ≤ m} (simpsonIntervals n) := by
  have rounded : simpsonIntervals n =
      if (max n 2).toNat % 2 = 0 then (max n 2).toNat else (max n 2).toNat + 1 := rfl
  rw [rounded]
  constructor
  · change Even _ ∧ _
    rw [Nat.even_iff]
    split_ifs <;> omega
  · rintro m ⟨even, bound⟩
    rw [Nat.even_iff] at even
    split_ifs <;> omega

theorem trapezoidIntervals_eq (n : ℤ) : (trapezoidIntervals n : ℤ) = max n 1 := by
  unfold trapezoidIntervals
  omega

/-! ## Sums over panels -/

section Panels

variable {g : ℕ → ℚ}

/-- A sum by the rule of Simpson is one over pairs of intervals. -/
theorem simpson_sum_eq_panels {m : ℕ} (h : 1 ≤ m) :
    ∑ i ∈ range (2 * m + 1), (simpsonWeights (2 * m) : List ℚ).getD i 0 * g i =
      ∑ k ∈ range m, (g (2 * k) + 4 * g (2 * k + 1) + g (2 * k + 2)) := by
  -- before the last point the weights do not depend on the number of intervals
  have weights : ∑ i ∈ range (2 * m + 1), (simpsonWeights (2 * m) : List ℚ).getD i 0 * g i =
      ∑ i ∈ range (2 * m), (if i = 0 then 1 else if i % 2 = 1 then 4 else 2) * g i + g (2 * m) := by
    rw [sum_range_succ, simpsonWeight le_rfl, if_pos (.inr rfl), one_mul]
    refine congrArg (· + _) (sum_congr rfl fun i hi => ?_)
    have inside := mem_range.1 hi
    simp only [simpsonWeight inside.le, inside.ne, or_false]
  rw [weights]
  clear weights
  induction m, h using Nat.le_induction with
  | base => simp [sum_range_succ]
  | succ m h ih =>
    rw [sum_range_succ _ m, ← ih, show 2 * (m + 1) = 2 * m + 1 + 1 by omega, sum_range_succ,
      sum_range_succ, if_neg (by omega), if_neg (by omega), if_neg (by omega), if_pos (by omega)]
    ring

/-- A sum by the rule of trapezoids is one over the intervals. -/
theorem trapezoid_sum_eq_panels {n : ℕ} (h : 1 ≤ n) :
    ∑ i ∈ range (n + 1), (trapezoidWeights n : List ℚ).getD i 0 * g i =
      ∑ k ∈ range n, (g k + g (k + 1)) / 2 := by
  have weights : ∑ i ∈ range (n + 1), (trapezoidWeights n : List ℚ).getD i 0 * g i =
      ∑ i ∈ range n, (if i = 0 then 1 / 2 else 1) * g i + 1 / 2 * g n := by
    rw [sum_range_succ, trapezoidWeight le_rfl, if_pos (.inr rfl)]
    refine congrArg (· + _) (sum_congr rfl fun i hi => ?_)
    have inside := mem_range.1 hi
    simp only [trapezoidWeight inside.le, inside.ne, or_false]
  rw [weights]
  clear weights
  induction n, h using Nat.le_induction with
  | base =>
    simp only [sum_range_one, if_true]
    ring
  | succ n h ih =>
    rw [sum_range_succ _ n, sum_range_succ _ n, ← ih, if_neg (by omega)]
    ring

end Panels

/-! ## Integrals of polynomials -/

/-- The value of a primitive of a polynomial. -/
def primitiveAt (p : ℚ[X]) (x : ℚ) : ℚ :=
  ∑ i ∈ range (p.natDegree + 1), p.coeff i * (x ^ (i + 1) / (i + 1))

/-- The integral of a polynomial is what its primitive gains. -/
theorem integral_eq_primitiveAt (p : ℚ[X]) (a b : ℚ) :
    ∫ x in (a : ℝ)..b, aeval x p = ((primitiveAt p b - primitiveAt p a : ℚ) : ℝ) := by
  simp only [aeval_eq_sum_range]
  rw [intervalIntegral.integral_finsetSum]
  · simp only [primitiveAt, ← sum_sub_distrib, Rat.cast_sum]
    refine sum_congr rfl fun i _ => ?_
    rw [intervalIntegral.integral_smul, integral_pow, Algebra.smul_def]
    push_cast
    simp only [eq_ratCast]
    ring
  · intro i _
    exact Continuous.intervalIntegrable (by fun_prop) _ _

/-- A primitive in full, where the degree is bounded. -/
theorem primitiveAt_eq {p : ℚ[X]} {n : ℕ} (h : p.natDegree < n) (x : ℚ) :
    primitiveAt p x = ∑ i ∈ range n, p.coeff i * (x ^ (i + 1) / (i + 1)) := by
  refine sum_subset (range_subset_range.2 h) fun i _ hi => ?_
  rw [coeff_eq_zero_of_natDegree_lt (by simpa using hi), zero_mul]

/-- In a pair of intervals, the rule of Simpson gives what a primitive gains. -/
theorem simpson_panel {p : ℚ[X]} (h : p.natDegree ≤ 3) (x d : ℚ) :
    d / 3 * (p.eval x + 4 * p.eval (x + d) + p.eval (x + 2 * d)) =
      primitiveAt p (x + 2 * d) - primitiveAt p x := by
  have bound : p.natDegree < 4 := by omega
  simp only [primitiveAt_eq bound, eval_eq_sum_range' bound, sum_range_succ, range_zero, sum_empty]
  push_cast
  ring

/-- In an interval, the rule of trapezoids gives what a primitive gains. -/
theorem trapezoid_panel {p : ℚ[X]} (h : p.natDegree ≤ 1) (x d : ℚ) :
    d * ((p.eval x + p.eval (x + d)) / 2) = primitiveAt p (x + d) - primitiveAt p x := by
  have bound : p.natDegree < 2 := by omega
  simp only [primitiveAt_eq bound, eval_eq_sum_range' bound, sum_range_succ, range_zero, sum_empty]
  push_cast
  ring

/-! ## Sums over a grid -/

/-- The point of a grid over an interval, by its number. -/
def gridPoint (a b : ℚ) (n i : ℕ) : ℚ := a + i * ((b - a) / n)

theorem gridPoint_zero (a b : ℚ) (n : ℕ) : gridPoint a b n 0 = a := by simp [gridPoint]

theorem gridPoint_last (a b : ℚ) {n : ℕ} (h : n ≠ 0) : gridPoint a b n n = b := by
  have : (n : ℚ) ≠ 0 := by exact_mod_cast h
  unfold gridPoint
  field_simp
  ring

theorem weightedSum_range (n : ℕ) (w v : ℕ → ℚ) :
    weightedSum ((List.range n).map w) ((List.range n).map v) = ∑ i ∈ range n, w i * v i := by
  unfold weightedSum
  induction n with
  | zero => rfl
  | succ n ih =>
    rw [List.range_succ, List.map_append, List.map_append, List.zip_append (by simp),
      List.foldl_append, ih, sum_range_succ]
    rfl

/-- The values of a function on a grid with weights, as a sum. -/
theorem weightedSum_grid {n : ℕ} {weights : List ℚ} (h : weights.length = n + 1) (a d : ℚ)
    (g : ℚ → ℚ) : weightedSum weights ((grid a d n).map g) =
      ∑ i ∈ range (n + 1), weights.getD i 0 * g (a + i * d) := by
  have listed : weights = (List.range (n + 1)).map fun i => weights.getD i 0 := by
    refine List.ext_getElem (by simp [h]) fun i hi _ => ?_
    rw [List.getElem_map, List.getElem_range, List.getD_eq_getElem _ _ hi]
  have points : (grid a d n).map g = (List.range (n + 1)).map fun i : ℕ => g (a + i * d) := by
    rw [grid, List.map_map]
    refine List.map_congr_left fun i _ => ?_
    rw [mul_comm]
    rfl
  rw [points]
  nth_rewrite 1 [listed]
  exact weightedSum_range _ _ _

theorem simpsonRule_grid (n : ℕ) (a d : ℚ) (g : ℚ → ℚ) : simpsonRule n d ((grid a d n).map g) =
    d / 3 * ∑ i ∈ range (n + 1), (simpsonWeights n : List ℚ).getD i 0 * g (a + i * d) := by
  rw [simpsonRule, weightedSum_grid (length_simpsonWeights n)]

theorem trapezoidRule_grid (n : ℕ) (a d : ℚ) (g : ℚ → ℚ) :
    trapezoidRule n d ((grid a d n).map g) =
      d * ∑ i ∈ range (n + 1), (trapezoidWeights n : List ℚ).getD i 0 * g (a + i * d) := by
  rw [trapezoidRule, weightedSum_grid (length_trapezoidWeights n)]

/-- The rule of Simpson integrates polynomials of degree three. -/
theorem simpsonRule_eq_integral {p : ℚ[X]} (hp : p.natDegree ≤ 3) (a b : ℚ) {n : ℕ} (even : Even n)
    (positive : n ≠ 0) : ((simpsonRule n ((b - a) / n) ((grid a ((b - a) / n) n).map p.eval) : ℚ) : ℝ) =
      ∫ x in (a : ℝ)..b, aeval x p := by
  obtain ⟨m, rfl⟩ := even.exists_two_nsmul
  rw [smul_eq_mul] at *
  have panel : ∀ k, (b - a) / (2 * m : ℕ) / 3 * (p.eval (gridPoint a b (2 * m) (2 * k)) +
      4 * p.eval (gridPoint a b (2 * m) (2 * k + 1)) + p.eval (gridPoint a b (2 * m) (2 * k + 2))) =
      primitiveAt p (gridPoint a b (2 * m) (2 * (k + 1))) -
        primitiveAt p (gridPoint a b (2 * m) (2 * k)) := by
    intro k
    have next : gridPoint a b (2 * m) (2 * k + 1) =
        gridPoint a b (2 * m) (2 * k) + (b - a) / (2 * m : ℕ) := by
      simp only [gridPoint]
      push_cast
      ring
    have last : gridPoint a b (2 * m) (2 * k + 2) =
        gridPoint a b (2 * m) (2 * k) + 2 * ((b - a) / (2 * m : ℕ)) := by
      simp only [gridPoint]
      push_cast
      ring
    rw [next, last, simpson_panel hp, mul_add, mul_one, last]
  have sum := simpson_sum_eq_panels (g := fun i => p.eval (gridPoint a b (2 * m) i))
    (show 1 ≤ m by omega)
  rw [integral_eq_primitiveAt, simpsonRule_grid]
  change (((_ * ∑ i ∈ range (2 * m + 1), _ * p.eval (gridPoint a b (2 * m) i) : ℚ)) : ℝ) = _
  rw [sum, mul_sum, sum_congr rfl fun k _ => panel k,
    sum_range_sub fun k => primitiveAt p (gridPoint a b (2 * m) (2 * k)), mul_zero, gridPoint_zero,
    gridPoint_last _ _ positive]

/-- The rule of trapezoids integrates polynomials of degree one. -/
theorem trapezoidRule_eq_integral {p : ℚ[X]} (hp : p.natDegree ≤ 1) (a b : ℚ) {n : ℕ}
    (positive : n ≠ 0) :
    ((trapezoidRule n ((b - a) / n) ((grid a ((b - a) / n) n).map p.eval) : ℚ) : ℝ) =
      ∫ x in (a : ℝ)..b, aeval x p := by
  have panel : ∀ k, (b - a) / n *
      ((p.eval (gridPoint a b n k) + p.eval (gridPoint a b n (k + 1))) / 2) =
      primitiveAt p (gridPoint a b n (k + 1)) - primitiveAt p (gridPoint a b n k) := by
    intro k
    have next : gridPoint a b n (k + 1) = gridPoint a b n k + (b - a) / n := by
      simp only [gridPoint]
      push_cast
      ring
    rw [next, trapezoid_panel hp]
  have sum := trapezoid_sum_eq_panels (g := fun i => p.eval (gridPoint a b n i))
    (show 1 ≤ n by omega)
  rw [integral_eq_primitiveAt, trapezoidRule_grid]
  change (((_ * ∑ i ∈ range (n + 1), _ * p.eval (gridPoint a b n i) : ℚ)) : ℝ) = _
  rw [sum, mul_sum, sum_congr rfl fun k _ => panel k,
    sum_range_sub fun k => primitiveAt p (gridPoint a b n k), gridPoint_zero,
    gridPoint_last _ _ positive]

/-! ## Solutions -/

/-- A solution that sums over a grid with so many intervals: a rule makes its answer from the step
and from the values on the grid. -/
def SumsOver (f : RealFunction) (a b : Value) (n : ℕ) (rule : Float → List Float → Float)
    (s : Solution) : Prop :=
  ∃ step h start values, stepOf a b n = .ok step ∧ step.toFloat = .ok h ∧ a.toFloat = .ok start ∧
    samples f (grid start h n) = .ok values ∧ s.answer = .measure (rule h values) ∧
    s.detail "intervals" = .whole n ∧ s.detail "step_size" = step

theorem sumsOver_of_integral {method title : String} {f : RealFunction} {a b : Value} {n : ℕ}
    {rule : Float → List Float → Float} {s : Solution}
    (returned : integral method title f a b n rule = .ok s) : SumsOver f a b n rule s := by
  unfold integral at returned
  obtain ⟨step, hstep, returned⟩ := bind_eq_ok_iff.1 returned
  obtain ⟨h, hh, returned⟩ := bind_eq_ok_iff.1 returned
  obtain ⟨start, hstart, returned⟩ := bind_eq_ok_iff.1 returned
  obtain ⟨values, hvalues, returned⟩ := bind_eq_ok_iff.1 returned
  obtain ⟨_, -, returned⟩ := bind_eq_ok_iff.1 returned
  obtain ⟨_, -, returned⟩ := bind_eq_ok_iff.1 returned
  cases returned
  exact ⟨step, h, start, values, hstep, hh, hstart, hvalues, rfl, rfl, rfl⟩

/-- The rules of quadrature: how many intervals they take, how they make an answer from the values on
the grid, and that the same sums in exact arithmetic are the integrals of all polynomials of degree
three and of degree one, between any two points. -/
theorem quadrature_is_exact_up_to_its_degree (n : ℤ) :
    (IsLeast {m : ℕ | Even m ∧ max n 2 ≤ m} (simpsonIntervals n) ∧
      (trapezoidIntervals n : ℤ) = max n 1) ∧
    (∀ f a b s, simpson f a b (.whole n) = .ok s →
      SumsOver f a b (simpsonIntervals n) (simpsonRule (simpsonIntervals n)) s) ∧
    (∀ f a b s, trapezoid f a b (.whole n) = .ok s →
      SumsOver f a b (trapezoidIntervals n) (trapezoidRule (trapezoidIntervals n)) s) ∧
    ∀ N M, simpsonIntervals n = N → trapezoidIntervals n = M →
      (simpsonWeights N : List ℚ).length = N + 1 ∧ (trapezoidWeights M : List ℚ).length = M + 1 ∧
      (∀ (a h : ℚ) (g : ℚ → ℚ),
        simpsonRule N h ((grid a h N).map g) =
          h / 3 * ∑ i ∈ range (N + 1), (simpsonWeights N : List ℚ).getD i 0 * g (a + i * h) ∧
        trapezoidRule M h ((grid a h M).map g) =
          h * ∑ i ∈ range (M + 1), (trapezoidWeights M : List ℚ).getD i 0 * g (a + i * h)) ∧
      ∀ (a b : ℚ) (p : ℚ[X]),
        (p.natDegree ≤ 3 →
          ((simpsonRule N ((b - a) / N) ((grid a ((b - a) / N) N).map p.eval) : ℚ) : ℝ) =
            ∫ x in (a : ℝ)..b, aeval x p) ∧
        (p.natDegree ≤ 1 →
          ((trapezoidRule M ((b - a) / M) ((grid a ((b - a) / M) M).map p.eval) : ℚ) : ℝ) =
            ∫ x in (a : ℝ)..b, aeval x p) := by
  refine ⟨⟨simpsonIntervals_isLeast n, trapezoidIntervals_eq n⟩,
    fun f a b s returned => sumsOver_of_integral returned,
    fun f a b s returned => sumsOver_of_integral returned, ?_⟩
  rintro N M rfl rfl
  have least := simpsonIntervals_isLeast n
  have larger := trapezoidIntervals_eq n
  have positive : simpsonIntervals n ≠ 0 := by
    have := least.1.2
    omega
  exact ⟨length_simpsonWeights _, length_trapezoidWeights _,
    fun a h g => ⟨simpsonRule_grid _ a h g, trapezoidRule_grid _ a h g⟩,
    fun a b p => ⟨fun hp => simpsonRule_eq_integral hp a b least.1.1 positive,
      fun hp => trapezoidRule_eq_integral hp a b (by omega)⟩⟩

/-- Three intervals become four for the rule of Simpson, and both rules integrate downward. -/
theorem a_cube_and_a_line_are_integrated_downward :
    (∃ s, simpson (Value.at (.formula .x)) (.whole 0) (.whole 2) (.whole 3) = .ok s ∧
      s.detail "intervals" = .whole 4) ∧
    (∃ s, trapezoid (Value.at (.formula .x)) (.whole 0) (.whole 2) (.whole 3) = .ok s ∧
      s.detail "intervals" = .whole 3) ∧
    (X ^ 3 : ℚ[X]).natDegree ≤ 3 ∧
    ((simpsonRule 4 (-1) [27, 8, 1, 0, -1] : ℚ) : ℝ) = ∫ x in (3 : ℝ)..(-1), x ^ 3 ∧
    (X : ℚ[X]).natDegree ≤ 1 ∧
    ((trapezoidRule 3 (-4 / 3) [3, 5 / 3, 1 / 3, -1] : ℚ) : ℝ) = ∫ x in (3 : ℝ)..(-1), x := by
  obtain ⟨-, sums, trapezoids, rules⟩ := quadrature_is_exact_up_to_its_degree 3
  obtain ⟨-, -, -, integrals⟩ := rules 4 3 rfl rfl
  have simpson_returns : (simpson (Value.at (.formula .x)) (.whole 0) (.whole 2)
      (.whole 3)).isOk = true := by decide +kernel
  have trapezoid_returns : (trapezoid (Value.at (.formula .x)) (.whole 0) (.whole 2)
      (.whole 3)).isOk = true := by decide +kernel
  obtain ⟨s, hs⟩ := exists_of_isOk simpson_returns
  obtain ⟨t, ht⟩ := exists_of_isOk trapezoid_returns
  obtain ⟨-, -, -, -, -, -, -, -, -, hs', -⟩ := sums _ _ _ s hs
  obtain ⟨-, -, -, -, -, -, -, -, -, ht', -⟩ := trapezoids _ _ _ t ht
  have cube : (X ^ 3 : ℚ[X]).natDegree ≤ 3 := natDegree_X_pow_le 3
  have line : (X : ℚ[X]).natDegree ≤ 1 := natDegree_X_le
  have cubic := (integrals 3 (-1) _).1 cube
  have linear := (integrals 3 (-1) _).2 line
  have step : ((-1 - 3 : ℚ) / (4 : ℕ)) = -1 := by norm_num
  have step' : ((-1 - 3 : ℚ) / (3 : ℕ)) = -4 / 3 := by norm_num
  have values : (grid (3 : ℚ) (-1) 4).map (X ^ 3 : ℚ[X]).eval = [27, 8, 1, 0, -1] := by
    simp [grid, List.range_succ]
    norm_num
  have points : (grid (3 : ℚ) (-4 / 3) 3).map (X : ℚ[X]).eval = [3, 5 / 3, 1 / 3, -1] := by
    simp [grid, List.range_succ]
    norm_num
  rw [step, values] at cubic
  rw [step', points] at linear
  refine ⟨⟨s, hs, hs'⟩, ⟨t, ht, ht'⟩, cube, ?_, line, ?_⟩
  · simpa only [map_pow, aeval_X, Rat.cast_ofNat, Rat.cast_neg, Rat.cast_one] using cubic
  · simpa only [aeval_X, Rat.cast_ofNat, Rat.cast_neg, Rat.cast_one] using linear

end Numerical

end Reckoner
