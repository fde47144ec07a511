-- Numbers that are off from others by a small part of them, and how the parts add up along a
-- computation.
import Mathlib

namespace Reckoner

/-- The first number is off from the second by the part `ε` of the second at most. -/
def Near (ε y x : ℝ) : Prop := |y - x| ≤ ε * |x|

namespace Near

variable {ε δ x y z x' y' : ℝ}

theorem refl (h : 0 ≤ ε) (x : ℝ) : Near ε x x := by
  rw [Near, sub_self, abs_zero]
  positivity

theorem mono (h : Near ε y x) (hε : ε ≤ δ) : Near δ y x :=
  le_trans h (mul_le_mul_of_nonneg_right hε (abs_nonneg x))

theorem of_abs (h : Near ε y x) : Near ε |y| |x| := by
  rw [Near, abs_abs]
  exact (abs_abs_sub_abs_le y x).trans h

/-- How large the number can be. -/
theorem upper (h : Near ε y x) : |y| ≤ (1 + ε) * |x| := by
  have := abs_sub_abs_le_abs_sub y x
  rw [Near] at h
  linarith

/-- How small the number can be. -/
theorem lower (h : Near ε y x) : (1 - ε) * |x| ≤ |y| := by
  have := abs_sub_abs_le_abs_sub x y
  rw [abs_sub_comm] at this
  rw [Near] at h
  linarith

theorem eq_zero (h : Near ε y 0) : y = 0 := by
  rw [Near, sub_zero, abs_zero, mul_zero, abs_nonpos_iff] at h
  exact h

theorem ne_zero (h : Near ε y x) (hε : ε < 1) (hx : x ≠ 0) : y ≠ 0 := by
  rintro rfl
  have below := h.lower
  rw [abs_zero] at below
  have := mul_pos (sub_pos.2 hε) (abs_pos.2 hx)
  linarith

/-- One error after another. -/
theorem trans (h : Near ε y x) (k : Near δ z y) (hδ : 0 ≤ δ) : Near (ε + δ + ε * δ) z x := by
  have size := mul_le_mul_of_nonneg_left h.upper hδ
  calc |z - x| ≤ |z - y| + |y - x| := abs_sub_le z y x
    _ ≤ δ * |y| + ε * |x| := add_le_add k h
    _ ≤ δ * ((1 + ε) * |x|) + ε * |x| := by linarith
    _ = (ε + δ + ε * δ) * |x| := by ring

theorem mul_right (h : Near ε y x) (z : ℝ) : Near ε (y * z) (x * z) := by
  rw [Near, ← sub_mul, abs_mul, abs_mul, ← mul_assoc]
  exact mul_le_mul_of_nonneg_right h (abs_nonneg z)

theorem mul (h : Near ε y x) (k : Near δ y' x') (hδ : 0 ≤ δ) :
    Near (ε + δ + ε * δ) (y * y') (x * x') := by
  have second : Near δ (y * y') (y * x') := by
    rw [mul_comm y, mul_comm y]
    exact k.mul_right y
  exact (h.mul_right x').trans second hδ

/-- A divisor that is off by less than half of it makes the quotient off by twice as much. -/
theorem inv (h : Near ε y x) (hε : ε ≤ 1 / 2) : Near (2 * ε) y⁻¹ x⁻¹ := by
  rcases eq_or_ne x 0 with rfl | hx
  · rw [h.eq_zero]
    simp [Near]
  · have hy := h.ne_zero (by linarith) hx
    have size : |x| ≤ 2 * |y| := by
      have below := h.lower
      nlinarith [abs_nonneg x]
    have part : y⁻¹ - x⁻¹ = (x - y) * (y⁻¹ * x⁻¹) := by
      field_simp
    have hx' := abs_pos.2 hx
    have hy' := abs_pos.2 hy
    rw [Near, part, abs_mul, abs_mul, abs_inv, abs_inv, abs_sub_comm]
    calc |y - x| * (|y|⁻¹ * |x|⁻¹) ≤ ε * |x| * (|y|⁻¹ * |x|⁻¹) :=
          mul_le_mul_of_nonneg_right h (by positivity)
      _ = ε * (|x| / |y|) * |x|⁻¹ := by field_simp
      _ ≤ 2 * ε * |x|⁻¹ := by
          have ratio : |x| / |y| ≤ 2 := by rwa [div_le_iff₀ hy']
          have hε0 : 0 ≤ ε := by
            have := (abs_nonneg (y - x)).trans h
            nlinarith
          have := mul_le_mul_of_nonneg_left ratio hε0
          exact mul_le_mul_of_nonneg_right (by linarith) (by positivity)

theorem pos (h : Near ε y x) (hε : ε < 1) (hx : 0 < x) : 0 < y := by
  rw [Near, abs_of_pos hx, abs_le] at h
  nlinarith

/-! ## Many errors -/

/-- So many errors after so many others. -/
theorem trans_errors {i j : ℕ} (h : Near ((1 + δ) ^ i - 1) y x) (k : Near ((1 + δ) ^ j - 1) z y)
    (hδ : 0 ≤ δ) : Near ((1 + δ) ^ (i + j) - 1) z x := by
  refine (h.trans k (sub_nonneg.2 (one_le_pow₀ (by linarith)))).mono (le_of_eq ?_)
  ring

theorem mul_errors {i j : ℕ} (h : Near ((1 + δ) ^ i - 1) y x)
    (k : Near ((1 + δ) ^ j - 1) y' x') (hδ : 0 ≤ δ) :
    Near ((1 + δ) ^ (i + j) - 1) (y * y') (x * x') := by
  refine (h.mul k (sub_nonneg.2 (one_le_pow₀ (by linarith)))).mono (le_of_eq ?_)
  ring

theorem one_error (h : Near δ y x) : Near ((1 + δ) ^ 1 - 1) y x :=
  h.mono (by rw [pow_one, add_sub_cancel_left])

theorem pow (h : Near δ y x) (hδ : 0 ≤ δ) (n : ℕ) : Near ((1 + δ) ^ n - 1) (y ^ n) (x ^ n) := by
  induction n with
  | zero => simpa using Near.refl le_rfl 1
  | succ n ih =>
    rw [pow_succ y, pow_succ x]
    exact ih.mul_errors h.one_error hδ

/-- A few small errors add up to twice their sum at most. -/
theorem errors_le {n : ℕ} (hδ : 0 ≤ δ) (h : n * δ ≤ 1) : (1 + δ) ^ n - 1 ≤ 2 * (n * δ) := by
  have power : (1 + δ) ^ n ≤ Real.exp (n * δ) := by
    rw [Real.exp_nat_mul]
    refine pow_le_pow_left₀ (by linarith) ?_ n
    linarith [Real.add_one_le_exp δ]
  have size : 0 ≤ n * δ := by positivity
  have bound := Real.abs_exp_sub_one_le (x := n * δ) (by rwa [abs_of_nonneg size])
  rw [abs_of_nonneg size] at bound
  linarith [le_abs_self (Real.exp (n * δ) - 1)]

end Near

end Reckoner
