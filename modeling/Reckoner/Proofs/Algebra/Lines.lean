-- Lines: sums of a number and of the unknown with a coefficient. A number before a line in normal
-- form goes to both of its terms, and numbers before a line that is kept as it is become one.
import Mathlib
import Reckoner.Proofs.Algebra.Arithmetic

namespace Reckoner

open Polynomial

namespace Expr

variable {v : String} {B : Builder} {n : ℕ}

/-! ## Lines -/

/-- The unknown with a coefficient. -/
def lineTerm (v : String) (a : ℤ) : Expr := scaledPower v a 1

theorem lineTerm_one (v : String) : lineTerm v 1 = .sym v := rfl

theorem lineTerm_of_ne_one (v : String) {a : ℤ} (h : a ≠ 1) :
    lineTerm v a = .prod [.ofInt a, .sym v] := if_neg h

theorem lineTerm_cases (v : String) (a : ℤ) :
    a = 1 ∧ lineTerm v a = .sym v ∨ a ≠ 1 ∧ lineTerm v a = .prod [.ofInt a, .sym v] := by
  by_cases h : a = 1
  · exact .inl ⟨h, by rw [h, lineTerm_one]⟩
  · exact .inr ⟨h, lineTerm_of_ne_one v h⟩

/-- A line in normal form. -/
def line (v : String) (a b : ℤ) : Expr :=
  if b = 0 then lineTerm v a else .sum [.ofInt b, lineTerm v a]

/-- A number before a line. -/
def shared (v : String) (c a b : ℤ) : Expr := .prod [.ofInt c, .sum [.ofInt b, lineTerm v a]]

theorem line_zero (v : String) (a : ℤ) : line v a 0 = lineTerm v a := rfl

theorem line_of_ne_zero (v : String) (a : ℤ) {b : ℤ} (h : b ≠ 0) :
    line v a b = .sum [.ofInt b, lineTerm v a] := if_neg h

theorem line_eq (v : String) {a : ℤ} (ha : a ≠ 0) (b : ℤ) :
    line v a b = ofPolynomial v (C b + monomial 1 a) := by
  rw [ofPolynomial_line v b ha one_ne_zero]
  unfold line ofTerms
  by_cases hb : b = 0
  · rw [if_pos hb, if_pos hb]
    rfl
  · rw [if_neg hb, if_neg hb]
    rfl

theorem lineTerm_eq (v : String) {a : ℤ} (ha : a ≠ 0) :
    lineTerm v a = ofPolynomial v (monomial 1 a) :=
  (ofPolynomial_monomial ha one_ne_zero).symm

/-! ## Numbers before numbers and terms -/

theorem exact_eq_one {c : ℤ} : Number.exact (c : ℚ) = .exact 1 ↔ c = 1 := by
  rw [Number.exact.injEq]
  exact_mod_cast Iff.rfl

theorem exact_eq_negOne {c : ℤ} : Number.exact (c : ℚ) = .exact (-1) ↔ c = -1 := by
  rw [Number.exact.injEq]
  exact_mod_cast Iff.rfl

theorem exact_mul (c d : ℤ) : (Number.exact (c : ℚ)).mul (.exact d) = .exact ((c * d : ℤ) : ℚ) := by
  rw [Int.cast_mul]
  rfl

theorem keepCoeff_ofInt (c b : ℤ) : B.keepCoeff (.exact c) (.ofInt b) = .ofInt (c * b) := by
  unfold Builder.keepCoeff
  by_cases h1 : c = 1
  · rw [if_pos (exact_eq_one.2 h1), h1, one_mul]
  · rw [if_neg (mt exact_eq_one.1 h1)]
    by_cases hb : b = 1
    · rw [if_pos (ofInt_eq_one_iff.2 hb), hb, mul_one]
      rfl
    · rw [if_neg (mt ofInt_eq_one_iff.1 hb)]
      by_cases h2 : c = -1
      · rw [if_pos (exact_eq_negOne.2 h2), neg_ofInt, h2, neg_one_mul]
      · rw [if_neg (mt exact_eq_negOne.1 h2)]
        exact congrArg Expr.num (exact_mul c b)

theorem lineTerm_ne_one (v : String) (a : ℤ) : lineTerm v a ≠ .one := by
  rcases lineTerm_cases v a with ⟨-, eq⟩ | ⟨-, eq⟩ <;> rw [eq] <;> exact Expr.noConfusion

theorem keepCoeff_lineTerm {c : ℤ} (hc : c ≠ 0) (a : ℤ) :
    (Builder.ofDepth (n + 2)).keepCoeff (.exact c) (lineTerm v a) = lineTerm v (c * a) := by
  unfold Builder.keepCoeff
  by_cases h1 : c = 1
  · rw [if_pos (exact_eq_one.2 h1), h1, one_mul]
  · rw [if_neg (mt exact_eq_one.1 h1), if_neg (lineTerm_ne_one v a)]
    by_cases h2 : c = -1
    · rw [if_pos (exact_eq_negOne.2 h2), h2, neg_one_mul]
      exact neg_scaledPower a 1
    · rw [if_neg (mt exact_eq_negOne.1 h2)]
      rcases lineTerm_cases v a with ⟨rfl, eq⟩ | ⟨ha, eq⟩
      · rw [eq, mul_one, lineTerm_of_ne_one v h1]
        exact buildsTerms_ofDepth c 1 hc h1 one_ne_zero
      · rw [eq]
        change (if (Number.exact (c : ℚ)).mul (.exact (a : ℚ)) = .exact 1 then rawProd [.sym v]
          else .prod [.num ((Number.exact (c : ℚ)).mul (.exact (a : ℚ))), .sym v]) = _
        rw [exact_mul]
        by_cases h : c * a = 1
        · rw [if_pos (exact_eq_one.2 h), h]
          rfl
        · rw [if_neg (mt exact_eq_one.1 h), lineTerm_of_ne_one v h]
          rfl

theorem sumOf_line {a : ℤ} (ha : a ≠ 0) (b : ℤ) :
    (Builder.ofDepth (n + 2)).sumOf [.ofInt b, lineTerm v a] = line v a b := by
  have sum := @sumOf_polynomials _ v (buildsTerms_ofDepth (n := n)) [C b, monomial 1 a]
  rw [List.map_cons, List.map_singleton, List.sum_cons, List.sum_singleton, ofPolynomial_C,
    ← lineTerm_eq v ha, ← line_eq v ha] at sum
  exact sum

theorem add_line {a : ℤ} (ha : a ≠ 0) (b : ℤ) : add [.ofInt b, lineTerm v a] = line v a b :=
  sumOf_line (n := 61) ha b

theorem neg_line {a : ℤ} (ha : a ≠ 0) (b : ℤ) : neg (line v a b) = line v (-a) (-b) := by
  rw [line_eq v ha, line_eq v (neg_ne_zero.2 ha), neg_ofPolynomial, neg_add, monomial_neg, C_neg]

theorem neg_lineTerm (a : ℤ) : neg (lineTerm v a) = lineTerm v (-a) := neg_scaledPower a 1

/-! ## Products -/

theorem isRational_lineTerm (v : String) (a : ℤ) : (lineTerm v a).isRational = false :=
  isRational_scaledPower v a 1

theorem filter_ofInt {c : ℤ} (h1 : c ≠ 1) {x : Expr} (h : x ≠ .one) :
    [ofInt c, x].filter (fun x => x != .one) = [ofInt c, x] := by
  simp [mt ofInt_eq_one_iff.1 h1, h]

/-- A number behind another factor comes first. -/
theorem prodOf_ofInt_right (c : ℤ) {x : Expr} (rational : x.isRational = false) :
    B.prodOf [x, .ofInt c] = B.prodOf [.ofInt c, x] := by
  have notOne : x ≠ .one := by
    rintro rfl
    cases rational
  by_cases h1 : c = 1
  · rw [← prodOf_filter, ← prodOf_filter [ofInt c, x], ofInt_eq_one_iff.2 h1]
    simp [notOne]
  · have both : [x, ofInt c].filter (fun x => x != .one) = [x, ofInt c] := by
      simp [mt ofInt_eq_one_iff.1 h1, notOne]
    unfold Builder.prodOf
    rw [both, filter_ofInt h1 notOne]
    simp [rational]

theorem prodOf_one_left {x : Expr} (h : x ≠ .one) : B.prodOf [.ofInt 1, x] = x := by
  rw [← prodOf_filter, ofInt_eq_one_iff.2 rfl]
  simp [prodOf_singleton, h]

theorem collectFactors_prod (fuel : ℕ) (l rest : List Expr) (acc : Builder.Factors) :
    Builder.collectFactors B (fuel + 1) (.prod l :: rest) acc =
      Builder.collectFactors B fuel (rest ++ l) acc := rfl

theorem prodOf_lineTerm {c : ℤ} (hc : c ≠ 0) {a : ℤ} (ha : a ≠ 0) :
    (Builder.ofDepth (n + 1)).prodOf [.ofInt c, lineTerm v a] = lineTerm v (c * a) := by
  rcases lineTerm_cases v a with ⟨rfl, eq⟩ | ⟨h, eq⟩
  · rw [mul_one]
    have term := @prodOf_term v n c 1 one_ne_zero
    rwa [if_neg hc] at term
  · by_cases h1 : c = 1
    · rw [h1, prodOf_one_left (lineTerm_ne_one v a), one_mul]
    · have many : (Builder.ofDepth (n + 1)).prodOf [.ofInt c, lineTerm v a] =
          (Builder.ofDepth (n + 1)).prodOfMany [.ofInt c, lineTerm v a] := by
        unfold Builder.prodOf
        rw [filter_ofInt h1 (lineTerm_ne_one v a), eq]
        rfl
      have steps : sizeList [.ofInt c, .prod [.ofInt a, .sym v]] +
          [ofInt c, .prod [.ofInt a, .sym v]].length + 8 = 10 + 1 + 1 + 1 + 1 := rfl
      rw [many, eq, prodOfMany_plain (c * a) [(.sym v, .ofInt 1)] [.sym v],
        if_neg (mul_ne_zero hc ha)]
      · have finished : Builder.finishProduct (.ofDepth (n + 1)) (.ofInt (c * a)) [.sym v] =
            rawProd (if ofInt (c * a) = .one then [.sym v] else [.ofInt (c * a), .sym v]) := rfl
        rw [finished]
        by_cases h : c * a = 1
        · rw [if_pos (ofInt_eq_one_iff.2 h), h]
          rfl
        · rw [if_neg (mt ofInt_eq_one_iff.1 h), lineTerm_of_ne_one v h]
          rfl
      · rw [steps, collectFactors_ofInt _ 1 c _ _ one_eq_ofInt]
        rw [collectFactors_prod, List.nil_append, collectFactors_ofInt _ (1 * c) a _ _ rfl, one_mul]
        have last := @collectFactors_unknown (.ofDepth (n + 1)) v 10 1 []
          ⟨.ofInt (c * a), [], [], 0, []⟩
        rw [Nat.cast_one] at last
        exact last
      · have gathered := @gatherPowers_unknown v n 1 one_ne_zero
        have settled := @settlePowers_unknown v n 1 one_ne_zero (.ofInt (c * a))
        rw [Nat.cast_one] at gathered settled
        rw [gathered, settled]
        rfl

theorem line_ne_one (v : String) (a b : ℤ) : line v a b ≠ .one := by
  unfold line
  split_ifs
  · exact lineTerm_ne_one v a
  · exact Expr.noConfusion

theorem isRational_line (v : String) (a b : ℤ) : (line v a b).isRational = false := by
  unfold line
  split_ifs
  · exact isRational_lineTerm v a
  · rfl

/-- A number before a line goes to both of its terms. -/
theorem prodOf_line {c : ℤ} (hc : c ≠ 0) {a : ℤ} (ha : a ≠ 0) (b : ℤ) :
    (Builder.ofDepth (n + 3)).prodOf [.ofInt c, line v a b] = line v (c * a) (c * b) := by
  by_cases hb : b = 0
  · rw [hb, mul_zero, line_zero, line_zero]
    exact prodOf_lineTerm hc ha
  · by_cases h1 : c = 1
    · rw [h1, prodOf_one_left (line_ne_one v a b), one_mul, one_mul]
    · rw [line_of_ne_zero v a hb]
      have spread : (Builder.ofDepth (n + 3)).prodOf [.ofInt c, .sum [.ofInt b, lineTerm v a]] =
          (Builder.ofDepth (n + 2)).sumOf [(Builder.ofDepth (n + 3)).keepCoeff (.exact c) (.ofInt b),
            (Builder.ofDepth (n + 3)).keepCoeff (.exact c) (lineTerm v a)] := by
        have nonzero : ¬ (c : ℚ) = 0 := by exact_mod_cast hc
        unfold Builder.prodOf
        rw [filter_ofInt h1 Expr.noConfusion]
        change (if (c : ℚ) = 0 then _ else _) = _
        rw [if_neg nonzero]
        rfl
      rw [spread, keepCoeff_ofInt, keepCoeff_lineTerm (n := n + 1) hc,
        sumOf_line (mul_ne_zero hc ha)]

theorem times_line {c : ℤ} (hc : c ≠ 0) {a : ℤ} (ha : a ≠ 0) (b : ℤ) :
    mul [.ofInt c, line v a b] = line v (c * a) (c * b) := prodOf_line (n := 60) hc ha b

theorem line_times {c : ℤ} (hc : c ≠ 0) {a : ℤ} (ha : a ≠ 0) (b : ℤ) :
    mul [line v a b, .ofInt c] = line v (c * a) (c * b) :=
  (prodOf_ofInt_right c (isRational_line v a b)).trans (times_line hc ha b)

theorem times_lineTerm {c : ℤ} (hc : c ≠ 0) {a : ℤ} (ha : a ≠ 0) :
    mul [.ofInt c, lineTerm v a] = lineTerm v (c * a) := prodOf_lineTerm (n := 62) hc ha

end Expr
end Reckoner
