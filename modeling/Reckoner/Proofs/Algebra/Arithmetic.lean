-- Arithmetic of polynomials as expressions in normal form: negatives, sums, differences, and
-- products of a number and a power of the unknown.
import Mathlib
import Reckoner.Proofs.Algebra.Polynomial

namespace Reckoner

open Polynomial

namespace Expr

/-! ## Products of a number and a power -/

section Products

variable {B : Builder} {name : String} {n : ℕ}

@[simp] theorem rat?_ofInt (c : ℤ) : (ofInt c).rat? = some (c : ℚ) := rfl

@[simp] theorem int?_ofInt (c : ℤ) : (ofInt c).int? = some c := by simp [ofInt, int?]

@[simp] theorem isRational_ofInt (c : ℤ) : (ofInt c).isRational = true := rfl

theorem ofInt_eq_one_iff {c : ℤ} : ofInt c = one ↔ c = 1 := by simp [ofInt, one]

theorem ofInt_eq_zero_iff {c : ℤ} : ofInt c = zero ↔ c = 0 := by simp [ofInt, zero]

theorem isZero?_ofInt {c : ℤ} (h : c ≠ 0) : (ofInt c).isZero? = some false := by
  simp [isZero?, ofInt, Number.isZero, h]

/-- A power of the unknown stays as it is. -/
theorem powOf_sym {k : ℤ} (h0 : k ≠ 0) (h1 : k ≠ 1) :
    B.powOf (.sym name) (.ofInt k) = .pow (.sym name) (.ofInt k) := by
  have notZero : ofInt k ≠ .zero := mt ofInt_eq_zero_iff.1 h0
  have notOne : ofInt k ≠ .one := mt ofInt_eq_one_iff.1 h1
  unfold Builder.powOf
  simp only [notZero, notOne, int?_ofInt, if_false]
  simp [ofInt, zoo, nan, one, Builder.logExponent?, isAtom, Builder.powByBase?]

/-- The powers of the unknown that stand in a product. -/
theorem settlePowers_unknown {k : ℕ} (hk : k ≠ 0) (coeff : Expr) :
    Builder.settlePowers (.ofDepth (n + 1)) coeff [(.sym name, .ofInt k)] =
      some (coeff, [unknownPower name k]) := by
  have notZero := isZero?_ofInt (c := k) (by exact_mod_cast hk)
  unfold Builder.settlePowers unknownPower
  by_cases h : k = 1
  · subst h
    have isOne : ofInt (1 : ℕ) = .one := ofInt_eq_one_iff.2 Nat.cast_one
    rw [isOne] at notZero ⊢
    simp [Builder.buildPowers, notZero, isNum]
  · have notOne : ofInt (k : ℤ) ≠ .one := mt ofInt_eq_one_iff.1 (by exact_mod_cast h)
    have power : (Builder.ofDepth (n + 1)).pow (.sym name) (.ofInt k) =
        .pow (.sym name) (.ofInt k) :=
      powOf_sym (by exact_mod_cast hk) (by exact_mod_cast h)
    simp [Builder.buildPowers, notZero, notOne, power, isPow, baseExp, h]

theorem gatherPowers_unknown {k : ℕ} (hk : k ≠ 0) :
    Builder.gatherPowers (.ofDepth (n + 1)) [(.sym name, .ofInt k)] = [(.sym name, .ofInt k)] := by
  have notZero : ofInt (k : ℤ) ≠ .zero := mt ofInt_eq_zero_iff.1 (by exact_mod_cast hk)
  have sum : (Builder.ofDepth (n + 1)).add [.ofInt k] = .ofInt k := by
    change (Builder.ofDepth n).sumOf [.ofInt k] = _
    simp [Builder.sumOf, notZero]
  have prod : (Builder.ofDepth (n + 1)).mul [.ofInt k, .one] = .ofInt k := by
    change (Builder.ofDepth n).prodOf [.ofInt k, .one] = _
    by_cases h : k = 1
    · have isOne : ofInt (k : ℤ) = .one := ofInt_eq_one_iff.2 (by exact_mod_cast h)
      simp [Builder.prodOf, isOne]
    · have notOne : ofInt (k : ℤ) ≠ .one := mt ofInt_eq_one_iff.1 (by exact_mod_cast h)
      simp [Builder.prodOf, notOne]
  have gathered : Builder.gatherPowers (.ofDepth (n + 1)) [(.sym name, .ofInt k)] =
      [(.sym name, (Builder.ofDepth (n + 1)).mul [(Builder.ofDepth (n + 1)).add [.ofInt k], .one])] :=
    rfl
  rw [gathered, sum, prod]

theorem mulCoeff_ofInt (m c : ℤ) : Builder.mulCoeff (.ofInt m) (.ofInt c) = .ofInt (m * c) := by
  simp [Builder.mulCoeff, ofInt, Number.mul]

theorem collectFactors_ofInt (fuel : ℕ) (m c : ℤ) (rest : List Expr) (acc : Builder.Factors)
    (h : acc.coeff = .ofInt m) :
    Builder.collectFactors B (fuel + 1) (.ofInt c :: rest) acc =
      Builder.collectFactors B fuel rest { acc with coeff := .ofInt (m * c) } := by
  have notNan : ofInt (m * c) ≠ .nan := by simp [ofInt, nan]
  have step : Builder.collectFactors B (fuel + 1) (.ofInt c :: rest) acc =
      if Builder.mulCoeff acc.coeff (.ofInt c) = .nan then none
      else Builder.collectFactors B fuel rest
        { acc with coeff := Builder.mulCoeff acc.coeff (.ofInt c) } := rfl
  rw [step, h, mulCoeff_ofInt, if_neg notNan]

theorem collectFactors_unknown (fuel k : ℕ) (rest : List Expr) (acc : Builder.Factors) :
    Builder.collectFactors B (fuel + 1) (unknownPower name k :: rest) acc =
      Builder.collectFactors B fuel rest
        { acc with powers := acc.powers ++ [(.sym name, .ofInt k)] } := by
  unfold unknownPower
  split_ifs with h
  · subst h
    rw [Nat.cast_one, ← one_eq_ofInt]
    rfl
  · rfl

/-- A product without roots and without powers of numbers. -/
theorem prodOfMany_plain {args : List Expr} (c : ℤ) (powers : List (Expr × Expr))
    (parts : List Expr)
    (collected : Builder.collectFactors B (sizeList args + args.length + 8) args
      ⟨.one, [], [], 0, []⟩ = some ⟨.ofInt c, powers, [], 0, []⟩)
    (settled : Builder.settlePowers B (.ofInt c) (Builder.gatherPowers B powers) =
      some (.ofInt c, parts)) :
    B.prodOfMany args = if c = 0 then if parts.any Builder.isInfinite then .nan else .ofInt 0
      else Builder.finishProduct B (.ofInt c) parts := by
  have noPowers : Builder.gatherPowers B [] = [] := rfl
  have noRoots (coeff : Expr) : Builder.joinRoots B coeff [] = (coeff, []) := rfl
  have noTurn (coeff : Expr) : Builder.settleTurn B 0 coeff [] = (coeff, [], []) := rfl
  have finite (l : List Expr) : Builder.besideInfiniteFactor (.ofInt c) l = (.ofInt c, l) := rfl
  unfold Builder.prodOfMany
  simp only [collected, settled, noRoots, Builder.settleRoots, List.map_nil, noTurn,
    noPowers, List.foldl_nil, List.filterMap_nil, List.append_nil, finite]
  by_cases h : c = 0
  · subst h
    rfl
  · have notZero : Number.isZero (.exact c) = false := by simp [Number.isZero, h]
    rw [if_neg h]
    change (if Number.isZero (.exact c) then _ else _) = _
    rw [notZero]
    rfl

/-- A number before a power of the unknown stays there, unless it is zero. -/
theorem prodOfMany_term (c : ℤ) {k : ℕ} (hk : k ≠ 0) (h1 : c ≠ 1) :
    Builder.prodOfMany (.ofDepth (n + 1)) [.ofInt c, unknownPower name k] =
      if c = 0 then .ofInt 0 else .prod [.ofInt c, unknownPower name k] := by
  have steps : sizeList [.ofInt c, unknownPower name k] + [ofInt c, unknownPower name k].length + 8 =
      (sizeList [.ofInt c, unknownPower name k] + 7) + 1 + 1 + 1 := rfl
  have finite : Builder.isInfinite (unknownPower name k) = false := by
    unfold unknownPower
    split_ifs <;> rfl
  have notOne : ofInt c ≠ .one := mt ofInt_eq_one_iff.1 h1
  rw [prodOfMany_plain c [(.sym name, .ofInt k)] [unknownPower name k]]
  · have finished : Builder.finishProduct (.ofDepth (n + 1)) (.ofInt c) [unknownPower name k] =
        .prod [.ofInt c, unknownPower name k] := by
      have parts : Builder.finishProduct (.ofDepth (n + 1)) (.ofInt c) [unknownPower name k] =
          rawProd (if ofInt c = .one then [unknownPower name k]
            else [.ofInt c, unknownPower name k]) := by
        unfold unknownPower
        by_cases h : k = 1 <;> simp only [h, if_true, if_false] <;> rfl
      rw [parts, if_neg notOne]
      rfl
    rw [finished, List.any_cons, finite]
    rfl
  · rw [steps, collectFactors_ofInt _ 1 c _ _ one_eq_ofInt, collectFactors_unknown, one_mul]
    rfl
  · rw [gatherPowers_unknown hk, settlePowers_unknown hk]

theorem prodOfMany_ofInt (a b : ℤ) : B.prodOfMany [.ofInt a, .ofInt b] = .ofInt (a * b) := by
  have steps : sizeList [.ofInt a, .ofInt b] + [ofInt a, ofInt b].length + 8 = 9 + 1 + 1 + 1 := rfl
  have finished : Builder.finishProduct B (.ofInt (a * b)) [] = .ofInt (a * b) := by
    have parts : Builder.finishProduct B (.ofInt (a * b)) [] =
        rawProd (if ofInt (a * b) = .one then [] else [.ofInt (a * b)]) := rfl
    rw [parts]
    split_ifs with h
    · exact h.symm
    · rfl
  rw [prodOfMany_plain (a * b) [] []]
  · rw [finished]
    by_cases h : a * b = 0
    · rw [h]
      rfl
    · rw [if_neg h]
  · rw [steps, collectFactors_ofInt _ 1 a _ _ one_eq_ofInt, collectFactors_ofInt _ _ b _ _ rfl,
      one_mul]
    rfl
  · rfl

/-- Ones change no product. -/
theorem prodOf_filter (l : List Expr) : B.prodOf (l.filter fun x => x != .one) = B.prodOf l := by
  unfold Builder.prodOf
  rw [List.filter_filter]
  simp only [Bool.and_self]

theorem prodOf_singleton {x : Expr} (h : x ≠ .one) : B.prodOf [x] = x := by
  unfold Builder.prodOf
  rw [List.filter_eq_self.2 (by simpa using h)]

theorem prodOf_ofInt (a b : ℤ) : B.prodOf [.ofInt a, .ofInt b] = .ofInt (a * b) := by
  have one_ne (c : ℤ) (h : c ≠ 1) : ofInt c ≠ .one := mt ofInt_eq_one_iff.1 h
  by_cases ha : a = 1
  · have isOne : ofInt a = .one := ofInt_eq_one_iff.2 ha
    rw [← prodOf_filter, isOne, ha, one_mul]
    by_cases hb : b = 1
    · rw [hb, ← one_eq_ofInt]
      rfl
    · simp [prodOf_singleton, one_ne b hb]
  · by_cases hb : b = 1
    · have isOne : ofInt b = .one := ofInt_eq_one_iff.2 hb
      rw [← prodOf_filter, isOne, hb, mul_one]
      simp [prodOf_singleton, one_ne a ha]
    · have both : [ofInt a, ofInt b].filter (fun x => x != .one) = [ofInt a, ofInt b] := by
        simp [one_ne a ha, one_ne b hb]
      rw [mul_comm, ← prodOfMany_ofInt (B := B)]
      unfold Builder.prodOf
      rw [both]
      rfl

theorem unknownPower_ne_one (k : ℕ) : unknownPower name k ≠ .one := by
  unfold unknownPower
  split_ifs <;> exact Expr.noConfusion

/-- The product of a number and a power of the unknown. -/
theorem prodOf_term (c : ℤ) {k : ℕ} (hk : k ≠ 0) :
    (Builder.ofDepth (n + 1)).prodOf [.ofInt c, unknownPower name k] =
      if c = 0 then .ofInt 0 else scaledPower name c k := by
  unfold scaledPower
  have notOne : unknownPower name k ≠ .one := unknownPower_ne_one k
  by_cases h1 : c = 1
  · have isOne : ofInt c = .one := ofInt_eq_one_iff.2 h1
    rw [← prodOf_filter, isOne, h1]
    simp [prodOf_singleton, notOne]
  · have both : [ofInt c, unknownPower name k].filter (fun x => x != .one) =
        [.ofInt c, unknownPower name k] := by
      simp [mt ofInt_eq_one_iff.1 h1, notOne]
    rw [if_neg h1, ← prodOfMany_term c hk h1]
    unfold Builder.prodOf
    rw [both]
    unfold unknownPower
    split_ifs <;> rfl

/-- All builders but the first two put numbers before powers. -/
theorem buildsTerms_ofDepth : BuildsTerms (.ofDepth (n + 2)) name := by
  intro c k h0 h1 hk
  change (Builder.ofDepth (n + 1)).prodOf [.ofInt c, unknownPower name k] = _
  rw [prodOf_term c hk, if_neg h0]
  exact if_neg h1

/-! ## Arithmetic of polynomials -/

theorem neg_ofInt (c : ℤ) : B.neg (.ofInt c) = .ofInt (-c) := by
  simp [Builder.neg, ofInt, Number.neg]

theorem neg_scaledPower (c : ℤ) (k : ℕ) : B.neg (scaledPower name c k) = scaledPower name (-c) k := by
  unfold scaledPower
  by_cases h1 : c = 1
  · subst h1
    rw [if_pos rfl, if_neg (by decide)]
    unfold unknownPower
    split_ifs <;> simp [Builder.neg, negOne, ofInt]
  · by_cases h : c = -1
    · subst h
      rw [if_neg (by decide), if_pos (by decide)]
      unfold unknownPower
      split_ifs <;> simp [Builder.neg, ofInt, rawProd]
    · have notNegOne : Number.exact (c : ℚ) ≠ .exact (-1) := by
        intro eq
        exact h (by exact_mod_cast Number.exact.inj eq)
      rw [if_neg h1, if_neg (by omega)]
      unfold unknownPower
      split_ifs <;> simp [Builder.neg, ofInt, Number.neg, notNegOne]

theorem keepCoeff_partOf (t : ℤ × ℕ) :
    B.keepCoeff (.exact (-1)) (partOf name t) = partOf name (-t.1, t.2) := by
  unfold Builder.keepCoeff
  rw [if_neg (by decide), if_pos rfl]
  unfold partOf
  by_cases hk : t.2 = 0
  · rw [if_pos hk, if_pos hk, neg_ofInt]
    split_ifs with h
    · rw [ofInt_eq_one_iff] at h
      simp [h, ofInt]
    · rfl
  · have notOne : scaledPower name t.1 t.2 ≠ .one := by
      intro h
      have := isRational_scaledPower name t.1 t.2
      rw [h] at this
      cases this
    rw [if_neg hk, if_neg hk, if_neg notOne, neg_scaledPower]

theorem partOf_eq (t : ℤ × ℕ) (h : t.1 ≠ 0 ∨ t.2 = 0) :
    partOf name t = ofPolynomial name (monomial t.2 t.1) := by
  unfold partOf
  by_cases hk : t.2 = 0
  · rw [if_pos hk, hk, monomial_zero_left, ofPolynomial_C]
  · rw [if_neg hk, ofPolynomial_monomial (h.resolve_right hk) hk]

theorem mem_polynomialParts {p : ℤ[X]} {t : ℤ × ℕ} :
    t ∈ polynomialParts name p ↔ t.1 ≠ 0 ∧ p.coeff t.2 = t.1 := by
  obtain ⟨c, k⟩ := t
  unfold polynomialParts
  rw [List.mem_append, (sortBy_perm _ _).mem_iff, mem_polynomialTerms]
  by_cases zero : p.coeff 0 = 0
  · rw [if_pos zero]
    constructor
    · rintro (h | ⟨-, hc, value⟩)
      · cases h
      · exact ⟨hc, value⟩
    · rintro ⟨hc, value⟩
      refine .inr ⟨?_, hc, value⟩
      rintro rfl
      exact hc (value.symm.trans zero)
  · rw [if_neg zero, List.mem_singleton]
    constructor
    · rintro (h | ⟨-, hc, value⟩)
      · obtain ⟨rfl, rfl⟩ := Prod.mk.inj h
        exact ⟨zero, rfl⟩
      · exact ⟨hc, value⟩
    · rintro ⟨hc, value⟩
      by_cases hk : k = 0
      · subst hk
        exact .inl (Prod.ext value.symm rfl)
      · exact .inr ⟨hk, hc, value⟩

/-- The negative of the expression of a polynomial. -/
theorem neg_ofPolynomial (p : ℤ[X]) : neg (ofPolynomial name p) = ofPolynomial name (-p) := by
  rcases ofPolynomial_cases name p with ⟨c, rfl, eq⟩ | ⟨c, k, hc, hk, rfl, eq⟩ | ⟨s, t, l, parts, eq⟩
  · rw [eq, ← C_neg, ofPolynomial_C]
    exact neg_ofInt c
  · rw [eq, ← monomial_neg, ofPolynomial_monomial (neg_ne_zero.2 hc) hk]
    exact neg_scaledPower c k
  · have spread : neg (.sum ((s :: t :: l).map (partOf name))) = (Builder.ofDepth 62).sumOf
        (((s :: t :: l).map (partOf name)).map
          ((Builder.ofDepth 63).keepCoeff (.exact (-1)))) := rfl
    have negated : ((s :: t :: l).map (partOf name)).map
        ((Builder.ofDepth 63).keepCoeff (.exact (-1))) =
        ((s :: t :: l).map fun t => monomial t.2 (-t.1)).map (ofPolynomial name) := by
      rw [List.map_map, List.map_map]
      refine List.map_congr_left fun u hu => ?_
      have nonzero := (mem_polynomialParts.1 (parts ▸ hu)).1
      rw [Function.comp_apply, keepCoeff_partOf, partOf_eq _ (.inl (neg_ne_zero.2 nonzero))]
      rfl
    have sum : ((s :: t :: l).map fun t => monomial t.2 (-t.1)).sum = -p := by
      rw [← partsSum_polynomialParts name p, parts, partsSum, List.sum_neg, List.map_map]
      congr 1
      exact List.map_congr_left fun u _ => monomial_neg u.2 u.1
    rw [eq, spread, negated, sumOf_polynomials (buildsTerms_ofDepth (n := 60)), sum]

/-- The sum of the expressions of polynomials. -/
theorem plus_ofPolynomial (p q : ℤ[X]) :
    plus (ofPolynomial name p) (ofPolynomial name q) = ofPolynomial name (p + q) := by
  have sum : (Builder.ofDepth 63).sumOf ([p, q].map (ofPolynomial name)) =
      ofPolynomial name [p, q].sum := sumOf_polynomials (buildsTerms_ofDepth (n := 61)) [p, q]
  rwa [List.sum_cons, List.sum_singleton] at sum

/-- The difference of the expressions of polynomials. -/
theorem sub_ofPolynomial (p q : ℤ[X]) :
    sub (ofPolynomial name p) (ofPolynomial name q) = ofPolynomial name (p - q) := by
  have sum : plus (ofPolynomial name p) (neg (ofPolynomial name q)) = ofPolynomial name (p - q) := by
    rw [neg_ofPolynomial, plus_ofPolynomial, sub_eq_add_neg]
  rcases ofPolynomial_cases name p with ⟨c, rfl, eq⟩ | ⟨c, k, hc, hk, rfl, eq⟩ | ⟨s, t, l, parts, eq⟩
  · rcases ofPolynomial_cases name q with ⟨d, rfl, eq'⟩ | ⟨d, k, hd, hk, rfl, eq'⟩ |
      ⟨s, t, l, parts, eq'⟩
    · rw [eq, eq', ← C_sub, ofPolynomial_C]
      simp [sub, ofInt, Number.sub, Number.add, Number.neg, sub_eq_add_neg]
    · rw [← sum, eq, eq']
      unfold scaledPower unknownPower
      split_ifs <;> rfl
    · rw [← sum, eq, eq']
      rfl
  · rw [← sum, eq]
    unfold scaledPower unknownPower
    split_ifs <;> rfl
  · rw [← sum, eq]
    rfl

/-- A power of the unknown. -/
theorem power_unknown (k : ℕ) : power (.sym name) (.ofNat k) = ofPolynomial name (X ^ k) := by
  have whole : Expr.ofNat k = .ofInt k := by simp [ofNat, ofInt]
  rw [whole]
  change (Builder.ofDepth 63).powOf (.sym name) (.ofInt k) = _
  by_cases h0 : k = 0
  · subst h0
    rw [pow_zero, ← C_1, ofPolynomial_C, Nat.cast_zero, ← zero_eq_ofInt, ← one_eq_ofInt]
    rfl
  · rw [← monomial_one_right_eq_X_pow, ofPolynomial_monomial one_ne_zero h0]
    unfold scaledPower unknownPower
    rw [if_pos rfl]
    by_cases h1 : k = 1
    · rw [if_pos h1, h1, Nat.cast_one, ← one_eq_ofInt]
      rfl
    · rw [if_neg h1, powOf_sym (by exact_mod_cast h0) (by exact_mod_cast h1)]

theorem sym_eq_ofPolynomial : sym name = ofPolynomial name X := by
  rw [← pow_one X, ← monomial_one_right_eq_X_pow, ofPolynomial_monomial one_ne_zero one_ne_zero]
  rfl

/-- The product of a whole number and a power of the unknown. -/
theorem times_unknown (c : ℤ) (k : ℕ) :
    times (.ofInt c) (ofPolynomial name (X ^ k)) = ofPolynomial name (monomial k c) := by
  change (Builder.ofDepth 63).prodOf [.ofInt c, ofPolynomial name (X ^ k)] = _
  by_cases h0 : k = 0
  · subst h0
    rw [pow_zero, ← C_1, ofPolynomial_C, prodOf_ofInt, mul_one, monomial_zero_left, ofPolynomial_C]
  · have power : ofPolynomial name (X ^ k) = unknownPower name k := by
      rw [← monomial_one_right_eq_X_pow, ofPolynomial_monomial one_ne_zero h0]
      exact if_pos rfl
    rw [power, prodOf_term c h0]
    split_ifs with hc
    · rw [hc, monomial_zero_right, ofPolynomial_zero]
    · rw [ofPolynomial_monomial hc h0]

theorem times_ofInt (a b : ℤ) : times (.ofInt a) (.ofInt b) = .ofInt (a * b) := prodOf_ofInt a b

end Products

end Expr

end Reckoner
