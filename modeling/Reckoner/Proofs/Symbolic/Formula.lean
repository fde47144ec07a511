-- The quadratic formula in doubles. With whole coefficients below a power of two nothing gets past
-- the doubles, and a leading coefficient other than zero leaves something to divide by.
import Reckoner.Proofs.Decimal.Quotients
import Reckoner.Symbolic.Quadratic

namespace Reckoner

open Double

/-! ## Coefficients -/

/-- The double closest to a whole number, by way of 53 bits. -/
theorem toDouble_sizes {n : Int} {k : Nat} (h : n.natAbs < 2 ^ k) (hk : k ≤ 800) :
    (n ≠ 0 → AtLeast (-1) (Expr.ofInt n).toDouble) ∧ AtMost (k + 2) (Expr.ofInt n).toDouble := by
  change (n ≠ 0 → AtLeast (-1) ((Binary.ofRat .nearest 53 n).round .nearest 53).toFloat) ∧
    AtMost (k + 2) ((Binary.ofRat .nearest 53 n).round .nearest 53).toFloat
  have near := (Binary.ofRat_near .nearest 53 n).trans (Binary.round_near .nearest 53 _)
    (Binary.two_zpow_pos _).le
  generalize (Binary.ofRat .nearest 53 n).round .nearest 53 = b at *
  have near : Near (1 / 2) b.toReal (n : ℝ) := by
    rw [← Rat.cast_intCast]
    exact near.mono (by norm_num)
  rcases eq_or_ne n 0 with rfl | h0
  · rw [Int.cast_zero] at near
    exact ⟨fun h => absurd rfl h, toFloat_zero (Binary.toReal_eq_zero.1 near.eq_zero) _⟩
  · have one : (1 : ℝ) ≤ |(n : ℝ)| := by exact_mod_cast Int.one_le_abs h0
    have below : |(n : ℝ)| < 2 ^ (k : Int) := by
      rw [zpow_natCast, ← Int.cast_abs, Int.abs_eq_natAbs]
      exact_mod_cast h
    have low : (2 : ℝ) ^ (-1 : Int) ≤ |b.toReal| := by
      have := near.lower
      norm_num
      linarith
    have high : |b.toReal| < 2 ^ (k + 1 : Int) := by
      have := near.upper
      rw [Binary.two_zpow_add, zpow_one]
      linarith
    obtain ⟨least, most⟩ := toFloat_sizes low high (by decide) (by omega)
    exact ⟨fun _ => least, most.mono (by omega)⟩

namespace Symbolic

namespace Quadratic

/-! ## Sizes in the formula -/

/-- All coefficients are moderate, and the leading one is apart from zero. -/
structure IsModerate (p : Quadratic) : Prop where
  lead : AtLeast (-1) p.a
  a : AtMost 62 p.a
  b : AtMost 62 p.b
  c : AtMost 62 p.c

variable {p : Quadratic}

theorem two_atLeast : AtLeast 1 2 := by
  change (2 : ℚ) ^ (1 : Int) ≤ (4503599627370496 : Nat) * 2 ^ (-51 : Int)
  norm_num

theorem one_atMost : AtMost 0 1 := by
  change ((4503599627370496 : Nat) : ℚ) * 2 ^ (-52 : Int) ≤ 2 ^ (0 : Int)
  norm_num

theorem four_atMost : AtMost 2 4 := by
  change ((4503599627370496 : Nat) : ℚ) * 2 ^ (-50 : Int) ≤ 2 ^ (2 : Int)
  norm_num

theorem larger_atMost {x y : Float} {k : Int} (hx : AtMost k x) (hy : AtMost k y) :
    AtMost k (larger x y) := by
  unfold larger
  split_ifs
  · exact hy
  · exact hx

theorem IsModerate.discriminant (h : p.IsModerate) : AtMost 127 p.discriminant := by
  have square := h.b.mul h.b (by decide) (by decide) (by decide)
  have product := (four_atMost.mul h.a (by decide) (by decide) (by decide)).mul h.c (by decide)
    (by decide) (by decide)
  exact (square.mono (k := 126) (by decide)).sub (product.mono (by decide)) (by decide) (by decide)

theorem IsModerate.overTwiceLead (h : p.IsModerate) {x : Float} {k : Int} (hx : AtMost k x)
    (hk : 0 ≤ k) (top : k < 900) : ∃ y, p.overTwiceLead x = .ok y ∧ AtMost k y := by
  have divisor : AtLeast 0 (2 * p.a) := two_atLeast.mul h.lead (by decide) (by decide)
  refine ⟨x / (2 * p.a), ?_, ?_⟩
  · unfold Quadratic.overTwiceLead
    dsimp only
    rw [divisor.ne_zero]
    rfl
  · have quotient := hx.div divisor hk (by omega)
    rwa [sub_zero] at quotient

theorem checkedSquare_ok {x : Float} {k : Int} (hx : AtMost k x) (hk : 0 ≤ k) (top : k < 400) :
    ∃ y, checkedSquare x = .ok y := by
  have square := hx.mul hx hk hk (by omega)
  refine ⟨x * x, ?_⟩
  unfold checkedSquare
  dsimp only
  rw [square.not_isInf]
  rfl

theorem tolerance_ok (p : Quadratic) {x : Float} {k : Int} (hx : AtMost k x) (hk : 0 ≤ k)
    (top : k < 400) : ∃ y, p.tolerance x = .ok y := by
  obtain ⟨y, hy⟩ := checkedSquare_ok (larger_atMost (one_atMost.mono hk) hx) hk top
  unfold tolerance
  rw [hy]
  exact ⟨_, rfl⟩

theorem isRoot_ok (p : Quadratic) {x : Float} {k : Int} (hx : AtMost k x) (hk : 0 ≤ k)
    (top : k < 400) : ∃ b, p.isRoot x = .ok b := by
  obtain ⟨y, hy⟩ := p.tolerance_ok (hx.abs hk (by omega)) hk top
  unfold isRoot
  dsimp only
  rw [hy]
  exact ⟨_, rfl⟩

theorem complexSize_ok {x y : Float} {k : Int} (hx : AtMost k x) (hy : AtMost k y) (hk : 0 ≤ k)
    (top : k < 900) : ∃ z, complexSize x y = .ok z ∧ AtMost (k + 1) z := by
  have side := hypotenuse_atMost hx hy hk (by omega)
  refine ⟨hypotenuse x y, ?_, side⟩
  unfold complexSize
  dsimp only
  rw [side.not_isInf]
  rfl

theorem IsModerate.isComplexRoot_ok (h : p.IsModerate) {re im : Float} (hre : AtMost 64 re)
    (him : AtMost 64 im) : ∃ b, p.isComplexRoot re im = .ok b := by
  have zero : AtMost 62 0 := trivial
  -- a product of a coefficient and a part of the number, with the other product beside it
  have first {x y : Float} (hx : AtMost 64 x) (hy : AtMost 64 y) {a : Float} (ha : AtMost 62 a) :
      AtMost 127 (a * x - 0 * y) ∧ AtMost 127 (a * x + 0 * y) := by
    have product := ha.mul hx (by decide) (by decide) (by decide)
    have nothing := zero.mul hy (by decide) (by decide) (by decide)
    exact ⟨product.sub nothing (by decide) (by decide), product.add nothing (by decide) (by decide)⟩
  have scaledRe := (first hre him h.a).1
  have scaledIm := (first him hre h.a).2
  have second {x y u v : Float} (hx : AtMost 127 x) (hy : AtMost 127 y) (hu : AtMost 64 u)
      (hv : AtMost 64 v) : AtMost 192 (x * u - y * v) ∧ AtMost 192 (x * u + y * v) := by
    have product := hx.mul hu (by decide) (by decide) (by decide)
    have other := hy.mul hv (by decide) (by decide) (by decide)
    exact ⟨product.sub other (by decide) (by decide), product.add other (by decide) (by decide)⟩
  have squareRe := (second scaledRe scaledIm hre him).1
  have squareIm := (second scaledRe scaledIm him hre).2
  have linearRe := (first hre him h.b).1
  have linearIm := (first him hre h.b).2
  have valueRe := (squareRe.add (linearRe.mono (by decide)) (by decide) (by decide)).add
    (h.c.mono (by decide)) (by decide) (by decide)
  have valueIm := squareIm.add (linearIm.mono (by decide)) (by decide) (by decide)
  obtain ⟨value, hvalue, -⟩ := complexSize_ok valueRe (valueIm.mono (by decide)) (by decide) (by decide)
  obtain ⟨size, hsize, size_atMost⟩ := complexSize_ok hre him (by decide) (by decide)
  obtain ⟨bound, hbound⟩ := p.tolerance_ok size_atMost (by decide) (by decide)
  unfold isComplexRoot
  dsimp only
  rw [hvalue, hsize]
  simp only [bind, Except.bind, hbound]
  exact ⟨_, rfl⟩

/-- The formula finds roots, real or complex, of a polynomial with moderate coefficients. -/
theorem IsModerate.solution_ok (h : p.IsModerate) (name : String) :
    ∃ s, p.solution name = .ok s ∧ s.method = "quadratic_formula" ∧ s.success = true := by
  have opposite := h.b.neg (by decide) (by decide)
  unfold solution
  split_ifs with complex
  · have root := (((h.discriminant.neg (by decide) (by decide)).mono (k := 2 * 64) (by decide)).sqrt
      (by decide) (by decide))
    obtain ⟨re, hre, re_atMost⟩ := h.overTwiceLead opposite (by decide) (by decide)
    obtain ⟨im, him, im_atMost⟩ := h.overTwiceLead root (by decide) (by decide)
    obtain ⟨b, hb⟩ := h.isComplexRoot_ok (re_atMost.mono (by decide)) im_atMost
    unfold complexSolution
    simp only [hre, him, hb, bind, Except.bind]
    exact ⟨_, rfl, rfl, rfl⟩
  · have root := (h.discriminant.mono (k := 2 * 64) (by decide)).sqrt (by decide) (by decide)
    have opposite := opposite.mono (k := 64) (by decide)
    obtain ⟨x₁, hx₁, x₁_atMost⟩ :=
      h.overTwiceLead (opposite.add root (by decide) (by decide)) (by decide) (by decide)
    obtain ⟨x₂, hx₂, x₂_atMost⟩ :=
      h.overTwiceLead (opposite.sub root (by decide) (by decide)) (by decide) (by decide)
    obtain ⟨b₁, hb₁⟩ := p.isRoot_ok x₁_atMost (by decide) (by decide)
    obtain ⟨b₂, hb₂⟩ := p.isRoot_ok x₂_atMost (by decide) (by decide)
    unfold realSolution
    simp only [hx₁, hx₂, hb₁, hb₂, bind, Except.bind]
    cases b₁ <;> exact ⟨_, rfl, rfl, rfl⟩

end Quadratic

/-- The formula takes whole coefficients as they are, from the constant one on, and succeeds. -/
theorem solveQuadratic_whole (x : Expr) {a b c : Int} (name : String) (h0 : a ≠ 0)
    (ha : a.natAbs < 2 ^ 60) (hb : b.natAbs < 2 ^ 60) (hc : c.natAbs < 2 ^ 60) :
    ∃ s, Quadratic.solution
        ⟨(Expr.ofInt a).toDouble, (Expr.ofInt b).toDouble, (Expr.ofInt c).toDouble⟩ name = .ok s ∧
      solveQuadratic x [.ofInt c, .ofInt b, .ofInt a] name = .ok s ∧
      s.method = "quadratic_formula" ∧ s.success = true := by
  have moderate : Quadratic.IsModerate
      ⟨(Expr.ofInt a).toDouble, (Expr.ofInt b).toDouble, (Expr.ofInt c).toDouble⟩ :=
    ⟨(toDouble_sizes ha (by decide)).1 h0, (toDouble_sizes ha (by decide)).2,
      (toDouble_sizes hb (by decide)).2, (toDouble_sizes hc (by decide)).2⟩
  obtain ⟨s, hs, method, success⟩ := moderate.solution_ok name
  refine ⟨s, hs, ?_, method, success⟩
  change Except.mapError _ (Quadratic.solution _ name) = _
  rw [hs]
  rfl

end Symbolic

end Reckoner
