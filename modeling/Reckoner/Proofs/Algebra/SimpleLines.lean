-- The simplest form of a line is the line in normal form: each step of simplification leaves it, or
-- brings a number before it that a later step takes back.
import Mathlib
import Reckoner.Proofs.Algebra.FirstDegree
import Reckoner.Proofs.Algebra.LineFactors

namespace Reckoner

namespace Expr

variable {v : String} {a b : ℤ}

/-! ## Multiplied out -/

theorem prodOf_one_right {x : Expr} (h : x ≠ .one) : mul [x, .one] = x := by
  have one : [x, Expr.one].filter (fun x => x != .one) = [x] := by simp [h]
  exact (prodOf_filter (B := .ofDepth 63) _).symm.trans (by rw [one, prodOf_singleton h])

theorem div_one {x : Expr} (h : x ≠ .one) : div x .one = x := prodOf_one_right h

theorem expandMulStep_lineTerm (v : String) (ha : a ≠ 0) :
    expandMulStep (lineTerm v a) = lineTerm v a := by
  rcases lineTerm_cases v a with ⟨-, eq⟩ | ⟨h, eq⟩
  · rw [eq]
    rfl
  · have parts : (lineTerm v a).fraction = (mul [.ofInt a, .sym v], .one) := by
      rw [eq]
      rfl
    have quotient : div (lineTerm v a) .one = lineTerm v a := div_one (lineTerm_ne_one v a)
    have product : (lineTerm v a).isProd = true := by rw [eq]; rfl
    rw [times_sym v ha] at parts
    rw [expandMulStep, if_pos product, expandMulAux]
    have unit : Expr.one.isProd = false := rfl
    simp only [parts, unit, Bool.false_eq_true, if_false, quotient]
    rw [eq]
    rfl

theorem expandMulStep_shared {c d e : ℤ} (hc : c ≠ 0) (hd : d ≠ 0) (he : e ≠ 0) :
    expandMulStep (shared v c d e) = line v (c * d) (c * e) := by
  have parts : (shared v c d e).fraction = (mul [.ofInt c, line v d e], .one) := by
    rw [line_of_ne_zero v d he]
    rfl
  have quotient : div (line v (c * d) (c * e)) .one = line v (c * d) (c * e) :=
    div_one (line_ne_one v _ _)
  rw [times_line hc hd] at parts
  change expandMulAux true 20 (shared v c d e) = _
  rw [expandMulAux]
  have unit : Expr.one.isProd = false := rfl
  simp only [parts, unit, Bool.false_eq_true, if_false, quotient]
  rw [line_of_ne_zero v _ (mul_ne_zero hc he)]

/-- A rule that leaves numbers, the unknown, a term and a line as they are. -/
structure Leaves (v : String) (a b : ℤ) (f : Expr → Expr) : Prop where
  number (c : ℤ) : f (.ofInt c) = .ofInt c
  unknown : f (.sym v) = .sym v
  term : f (lineTerm v a) = lineTerm v a
  whole : f (line v a b) = line v a b

theorem Leaves.mapUp_eq {f : Expr → Expr} (h : Leaves v a b f) :
    (line v a b).mapUp f = line v a b :=
  (mapUp_line h.number h.unknown h.term b).trans h.whole

/-- A rule for powers and functions leaves a line as it is. -/
theorem leaves_of_rfl {f : Expr → Expr} (number : ∀ n, f (.num n) = .num n)
    (unknown : ∀ s, f (.sym s) = .sym s) (sum : ∀ l, f (.sum l) = .sum l)
    (prod : ∀ l, f (.prod l) = .prod l) : Leaves v a b f := by
  have term : f (lineTerm v a) = lineTerm v a := by
    rcases lineTerm_cases v a with ⟨-, eq⟩ | ⟨-, eq⟩ <;> rw [eq]
    · exact unknown v
    · exact prod _
  refine ⟨fun c => number _, unknown v, term, ?_⟩
  unfold Expr.line
  split_ifs
  · exact term
  · exact sum _

theorem leaves_expandMulStep (ha : a ≠ 0) : Leaves v a b expandMulStep := by
  refine ⟨fun c => rfl, rfl, expandMulStep_lineTerm v ha, ?_⟩
  unfold Expr.line
  split_ifs
  · exact expandMulStep_lineTerm v ha
  · rfl

theorem leaves_expandLogStep (full : Bool) : Leaves v a b (expandLogStep full) :=
  leaves_of_rfl (fun _ => rfl) (fun _ => rfl) (fun _ => rfl) fun _ => rfl

theorem leaves_expandMultinomialStep : Leaves v a b expandMultinomialStep :=
  leaves_of_rfl (fun _ => rfl) (fun _ => rfl) (fun _ => rfl) fun _ => rfl

theorem leaves_expandPowerBaseStep : Leaves v a b expandPowerBaseStep :=
  leaves_of_rfl (fun _ => rfl) (fun _ => rfl) (fun _ => rfl) fun _ => rfl

theorem leaves_expandPowerExpStep : Leaves v a b expandPowerExpStep :=
  leaves_of_rfl (fun _ => rfl) (fun _ => rfl) (fun _ => rfl) fun _ => rfl

theorem expandLoop_line (ha : a ≠ 0) (b : ℤ) (multinomial logs : Bool) (fuel : ℕ) :
    expandLoop multinomial logs fuel (line v a b) = line v a b := by
  cases fuel with
  | zero => rfl
  | succ fuel =>
    rw [expandLoop]
    simp only [leaves_expandMultinomialStep.mapUp_eq, (leaves_expandMulStep ha).mapUp_eq,
      (leaves_expandLogStep false).mapUp_eq, ite_self, if_true]

/-- A line is multiplied out. -/
theorem expand_line (ha : a ≠ 0) (b : ℤ) : (line v a b).expand = line v a b := by
  unfold expand
  simp only [(leaves_expandLogStep false).mapUp_eq, leaves_expandMultinomialStep.mapUp_eq,
    (leaves_expandMulStep ha).mapUp_eq, leaves_expandPowerBaseStep.mapUp_eq,
    leaves_expandPowerExpStep.mapUp_eq, expandLoop_line ha]

theorem IsLine.expandMul (ha : a ≠ 0) {x : Expr} (h : IsLine v a b x) :
    x.expandMul = line v a b := by
  cases h with
  | whole => exact expandLoop_line ha b _ _ _
  | @shared c d e number slope height he =>
    subst slope height
    have hc := left_ne_zero_of_mul ha
    have hd := right_ne_zero_of_mul ha
    have step : (Expr.shared v c d e).mapUp expandMulStep = line v (c * d) (c * e) := by
      rw [mapUp_shared (fun _ => rfl) rfl (expandMulStep_lineTerm v hd) rfl,
        expandMulStep_shared hc hd he]
    have other : ¬ line v (c * d) (c * e) = Expr.shared v c d e := by
      rw [line_of_ne_zero v _ (mul_ne_zero hc he)]
      exact Expr.noConfusion
    obtain ⟨fuel, many⟩ : ∃ fuel, 30 = fuel + 1 := ⟨29, rfl⟩
    rw [Expr.expandMul, many, expandLoop]
    simp only [Bool.false_eq_true, if_false, step, if_neg other, expandLoop_line ha]

theorem multiplyOut_line (ha : a ≠ 0) (b : ℤ) : (line v a b).multiplyOut = line v a b := by
  have powers : (line v a b).expandMultinomial = line v a b := by
    have loop (fuel : ℕ) : expandMultinomial.expandPowers fuel (line v a b) = line v a b := by
      cases fuel with
      | zero => rfl
      | succ fuel =>
        rw [expandMultinomial.expandPowers]
        simp only [leaves_expandMultinomialStep.mapUp_eq, if_true]
    rw [expandMultinomial, leaves_expandMultinomialStep.mapUp_eq, loop]
  rw [multiplyOut, powers]
  exact expandLoop_line ha b _ _ _

theorem expandPowerExp_line (v : String) (a b : ℤ) :
    (line v a b).expandPowerExp = line v a b := leaves_expandPowerExpStep.mapUp_eq

/-! ## Lowest terms -/

theorem mul_ofInt (b : ℤ) : mul [.ofInt b] = .ofInt b := by
  by_cases h : b = 1
  · rw [h]
    rfl
  · exact prodOf_singleton (B := .ofDepth 63) (mt ofInt_eq_one_iff.1 h)

theorem add_lineTerm (v : String) (a : ℤ) : add [lineTerm v a] = lineTerm v a := by
  rcases lineTerm_cases v a with ⟨-, eq⟩ | ⟨-, eq⟩ <;> rw [eq] <;> rfl

open Polynomial in
theorem add_line' (ha : a ≠ 0) (b : ℤ) : add [lineTerm v a, .ofInt b] = line v a b := by
  have sum := @sumOf_polynomials _ v (buildsTerms_ofDepth (n := 61)) [monomial 1 a, C b]
  rw [List.map_cons, List.map_singleton, List.sum_cons, List.sum_singleton, ofPolynomial_C,
    ← lineTerm_eq v ha] at sum
  rw [line_eq v ha, add_comm]
  exact sum

theorem toExpr_linear (ha : a ≠ 0) (b : ℤ) :
    PolyForm.toExpr [.sym v] none (Poly.linear a b) = line v a b := by
  have term : mul [.num (.exact (a : ℚ)), power (.sym v) (.ofNat 1)] = lineTerm v a :=
    times_sym v ha
  have number : mul [.num (.exact (b : ℚ))] = .ofInt b := mul_ofInt b
  rcases Poly.linear_cases (a : ℚ) b with ⟨h, eq⟩ | ⟨h, eq⟩
  · have zero : b = 0 := by exact_mod_cast h
    rw [eq]
    change add [mul [.num (.exact (a : ℚ)), power (.sym v) (.ofNat 1)]] = _
    rw [term, add_lineTerm v a, zero, line_zero]
  · rw [eq]
    change add [mul [.num (.exact (a : ℚ)), power (.sym v) (.ofNat 1)],
      mul [.num (.exact (b : ℚ))]] = _
    rw [term, number, add_line' ha]

theorem splitGenerators_ofInt (b : ℤ) :
    splitGenerators false (.ofInt b) = (.exact b, false, []) := by
  have number : (Number.exact 1).mul (.exact (b : ℚ)) = .exact b := by
    rw [← Int.cast_one, exact_mul, one_mul]
  change ((Number.exact 1).mul (.exact (b : ℚ)), false, []) = _
  rw [number]

theorem splitGenerators_lineTerm (v : String) (a : ℤ) :
    splitGenerators false (lineTerm v a) = (.exact a, false, [(.sym v, 1)]) := by
  have number : (Number.exact 1).mul (.exact (a : ℚ)) = .exact a := by
    rw [← Int.cast_one, exact_mul, one_mul]
  rcases lineTerm_cases v a with ⟨rfl, eq⟩ | ⟨-, eq⟩
  · rw [eq]
    rfl
  · rw [eq]
    change ((Number.exact 1).mul (.exact (a : ℚ)), false, [(Expr.sym v, 1)]) = _
    rw [number]

theorem gaussian_ne_zero {c : ℚ} (h : c ≠ 0) : ¬ Gaussian.ofRat c = 0 := fun eq =>
  h (congrArg Gaussian.re eq)

theorem ofTerms_linear {u : ℚ} (hu : u ≠ 0) (w : ℚ) :
    Poly.ofTerms (if w = 0 then [([1], Gaussian.ofRat u)] else
      [([0], Gaussian.ofRat w), ([1], Gaussian.ofRat u)]) = Poly.ofReal (Poly.linear u w) := by
  have first : Poly.addTerm [1] (Gaussian.ofRat u) [] = [([1], Gaussian.ofRat u)] :=
    if_neg (gaussian_ne_zero hu)
  rcases Poly.linear_cases u w with ⟨h, eq⟩ | ⟨h, eq⟩
  · rw [eq, if_pos h]
    exact first
  · have second : Poly.addTerm [0] (Gaussian.ofRat w) [] = [([0], Gaussian.ofRat w)] :=
      if_neg (gaussian_ne_zero h)
    have before : Poly.addTerm [1] (Gaussian.ofRat u) [([0], Gaussian.ofRat w)] =
        [([1], Gaussian.ofRat u), ([0], Gaussian.ofRat w)] := if_neg (gaussian_ne_zero hu)
    rw [eq, if_neg h]
    change Poly.addTerm [1] (Gaussian.ofRat u) (Poly.addTerm [0] (Gaussian.ofRat w) []) = _
    rw [second, before]
    rfl

theorem terms_line (v : String) (a b : ℤ) :
    (line v a b).terms = if (b : ℚ) = 0 then [lineTerm v a] else [.ofInt b, lineTerm v a] := by
  by_cases hb : b = 0
  · have zero : (b : ℚ) = 0 := by exact_mod_cast hb
    rw [if_pos zero, hb, line_zero]
    rcases lineTerm_cases v a with ⟨-, eq⟩ | ⟨-, eq⟩ <;> rw [eq] <;> rfl
  · have nonzero : ¬ (b : ℚ) = 0 := by exact_mod_cast hb
    rw [if_neg nonzero, line_of_ne_zero v a hb]
    rfl

/-- Exact expressions as polynomials, from their terms. -/
theorem ofExprs_exact {l : List Expr} {terms : List (List Expr)} (gens : List Expr)
    (split : List (List (Number × Bool × List (Expr × ℕ))))
    (spread : (l.map fun x => x.expand.terms) = terms)
    (exact : PolyForm.measuredBits (terms.flatMap fun ts => ts.map fun t => t.coeffMul.1) = none)
    (parts : (terms.map fun ts => ts.map (splitGenerators false)) = split)
    (generators : sortGenerators
      ((split.flatMap fun ts => ts.flatMap fun (_, _, ps) => ps.map Prod.fst).eraseDups) = gens) :
    PolyForm.ofExprs l = ⟨gens, none, split.map fun ts =>
      Poly.ofTerms (ts.map fun (c, turned, ps) =>
      (gens.map fun g => (lookupEntry g ps).getD 0,
        if turned then ⟨0, PolyForm.coefficient none c⟩
        else .ofRat (PolyForm.coefficient none c)))⟩ := by
  subst spread parts generators
  unfold PolyForm.ofExprs
  simp only [exact, Option.isSome_none]

/-- A line and one as polynomials. -/
theorem ofExprs_line (ha : a ≠ 0) (b : ℤ) :
    PolyForm.ofExprs [line v a b, .one] =
      ⟨[.sym v], none, [Poly.ofReal (Poly.linear a b), Poly.ofReal (Poly.number 1)]⟩ := by
  have one : Expr.one.expand.terms = [.one] := rfl
  have nonzero : (a : ℚ) ≠ 0 := by exact_mod_cast ha
  have split : splitGenerators false .one = (.exact 1, false, []) := by
    have number := splitGenerators_ofInt 1
    rwa [Int.cast_one] at number
  have poly := ofTerms_linear nonzero b
  have power : (lookupEntry (Expr.sym v) [(Expr.sym v, 1)]).getD 0 = 1 := by
    rw [lookupEntry, if_pos rfl, Option.getD_some]
  have unit : Poly.ofTerms [([0], Gaussian.ofRat 1)] = Poly.ofReal (Poly.number 1) := rfl
  have spread : ([line v a b, .one].map fun x => x.expand.terms) =
      [(line v a b).terms, [.one]] := by
    rw [List.map_cons, List.map_singleton, expand_line ha, one]
  rw [terms_line] at spread
  split_ifs at poly spread with hb
  · refine (ofExprs_exact [.sym v] [[(.exact a, false, [(.sym v, 1)])], [(.exact 1, false, [])]]
      spread ?_ ?_ rfl).trans ?_
    · simp only [List.flatMap_cons, List.flatMap_nil, List.map_cons, List.map_nil,
        coeffMul_lineTerm]
      rfl
    · simp only [List.map_cons, List.map_nil, splitGenerators_lineTerm, split]
    · simp only [List.map_cons, List.map_nil, Bool.false_eq_true, if_false, power, ← poly, ← unit]
      rfl
  · refine (ofExprs_exact [.sym v]
      [[(.exact b, false, []), (.exact a, false, [(.sym v, 1)])], [(.exact 1, false, [])]]
      spread ?_ ?_ rfl).trans ?_
    · simp only [List.flatMap_cons, List.flatMap_nil, List.map_cons, List.map_nil,
        coeffMul_lineTerm]
      rfl
    · simp only [List.map_cons, List.map_nil, splitGenerators_ofInt, splitGenerators_lineTerm,
        split]
    · simp only [List.map_cons, List.map_nil, Bool.false_eq_true, if_false, power, ← poly, ← unit]
      rfl

theorem isReal_ofReal (p : Poly ℚ) : (Poly.ofReal p).isReal = true := by
  simp [Poly.isReal, Poly.ofReal, Gaussian.ofRat]

theorem realPart_linear {u : ℚ} (hu : u ≠ 0) (w : ℚ) :
    (Poly.ofReal (Poly.linear u w)).realPart = Poly.linear u w := by
  rcases Poly.linear_cases u w with ⟨-, eq⟩ | ⟨h, eq⟩ <;> rw [eq] <;>
    simp [Poly.realPart, Poly.ofReal, Gaussian.ofRat, *]

theorem realPart_one : (Poly.ofReal (Poly.number 1)).realPart = Poly.number 1 := rfl

/-- A line is in lowest terms. -/
theorem cancelQuotient_line (ha : a ≠ 0) (b : ℤ) :
    cancelQuotient (line v a b) .one = some (line v a b) := by
  have nonzero : (a : ℚ) ≠ 0 := by exact_mod_cast ha
  have one : PolyForm.toExpr [.sym v] none (Poly.number 1) = .one := rfl
  have real : PolyForm.isReal ⟨[.sym v], none,
      [Poly.ofReal (Poly.linear a b), Poly.ofReal (Poly.number 1)]⟩ = true := by
    simp [PolyForm.isReal, isReal_ofReal]
  have quotient : div (line v a b) .one = line v a b := div_one (line_ne_one v a b)
  unfold cancelQuotient
  rw [ofExprs_line ha]
  simp only [real, if_true, realPart_linear nonzero, realPart_one, Option.isSome_none,
    Bool.false_eq_true, if_false, Poly.reduce_linear ha, toExpr_linear ha, one, quotient]

theorem IsLine.isNum {x : Expr} (h : IsLine v a b x) : x.isNum = false := by
  cases h with
  | whole =>
    unfold line
    split_ifs
    · rcases lineTerm_cases v a with ⟨-, eq⟩ | ⟨-, eq⟩ <;> rw [eq] <;> rfl
    · rfl
  | shared => rfl

theorem IsLine.cancel (ha : a ≠ 0) {x : Expr} (h : IsLine v a b x) : x.cancel = line v a b := by
  have factored := (IsLine.whole (v := v) (a := a) (b := b)).factorRoots ha
  have number : (line v a b).isNum = false := IsLine.whole.isNum
  unfold Expr.cancel
  simp only [h.settleSigns ha, number, Bool.false_eq_true, if_false, factored.numerDenom ha,
    cancelQuotient_line ha, Option.getD_some]

/-! ## The simplest form -/

/-- The easiest of some expressions is one of them. -/
theorem easiest_mem (first : Expr) (others : List Expr) :
    easiest first others ∈ first :: others := by
  have fold (l : List Expr) (best : Expr × ℕ) :
      (l.foldl (fun (best : Expr × ℕ) y =>
        let n := y.effort
        if n < best.2 then (y, n) else best) best).1 ∈ best.1 :: l := by
    induction l generalizing best with
    | nil => exact List.mem_singleton.2 rfl
    | cons y l ih =>
      have step := ih (if y.effort < best.2 then (y, y.effort) else best)
      rw [List.mem_cons] at step
      rcases step with first | later
      · rw [List.foldl_cons, first]
        split_ifs
        · exact List.mem_cons_of_mem _ List.mem_cons_self
        · exact List.mem_cons_self
      · exact List.mem_cons_of_mem _ (List.mem_cons_of_mem _ later)
  exact fold others (first, first.effort)

theorem isLine_easiest {first : Expr} {others : List Expr} (h : IsLine v a b first)
    (rest : ∀ x ∈ others, IsLine v a b x) : IsLine v a b (easiest first others) := by
  rcases List.mem_cons.1 (easiest_mem first others) with eq | mem
  · rwa [eq]
  · exact rest _ mem

theorem isLine_simplifyQuotient (ha : a ≠ 0) (b : ℤ) :
    IsLine v a b (line v a b).simplifyQuotient := by
  obtain ⟨g, d, e, hg, hd, coprime, rfl, rfl⟩ := exists_primitive ha b
  have normal : IsLine v (g * d) (g * e) (line v (g * d) (g * e)) := .whole
  have content : (line v (g * d) (g * e)).contentPrimitive true false =
      ((g : ℚ), line v d e) := normal.contentPrimitive hg hd coprime
  have product : mul [.ofRat g, line v d e] = line v (g * d) (g * e) := times_line hg.ne' hd e
  have same : easiest (line v (g * d) (g * e)) [line v (g * d) (g * e)] =
      line v (g * d) (g * e) := by
    simpa using easiest_mem (line v (g * d) (g * e)) [line v (g * d) (g * e)]
  have together := isLine_together (v := v) ha (g * e) true
  unfold simplifyQuotient
  simp only [quotients_line ha, joinPowers_line ha, content, product, normal.cancel ha,
    multiplyOut_line ha, same]
  refine (isLine_easiest (isLine_easiest together ?_) ?_).factorTerms ha false
  · simpa using together
  · simpa using normal

theorem IsLine.hasFn {x : Expr} (h : IsLine v a b x) (p : Fn → Bool) : x.hasFn p = false := by
  cases h with
  | whole =>
    unfold line
    split_ifs <;> rcases lineTerm_cases v a with ⟨-, eq⟩ | ⟨-, eq⟩ <;> rw [eq] <;> rfl
  | @shared c d e =>
    unfold Expr.shared
    rcases lineTerm_cases v d with ⟨-, eq⟩ | ⟨-, eq⟩ <;> rw [eq] <;> rfl

theorem IsLine.simplifyFunctions {x : Expr} (h : IsLine v a b x) : x.simplifyFunctions = x := by
  unfold Expr.simplifyFunctions
  simp only [hasWave, hasHyperbolic, h.hasFn, Bool.or_self, Bool.false_eq_true, if_false]

theorem IsLine.simplifyPowers (ha : a ≠ 0) {x : Expr} (h : IsLine v a b x) :
    IsLine v a b x.simplifyPowers := by
  have normal : IsLine v a b (line v a b) := .whole
  have short {y : Expr} (hy : IsLine v a b y) : IsLine v a b (easiest y [y.cancel]) :=
    isLine_easiest hy (by simp [hy.cancel ha, normal])
  have shorter {y : Expr} (hy : IsLine v a b y) :
      IsLine v a b (easiest y [y.factorTerms true, y.expandMul.expandPowerExp]) :=
    isLine_easiest hy (by
      simp [hy.factorTerms ha, hy.expandMul ha, expandPowerExp_line, normal])
  have joined : IsLine v a b (easiest x.joinExponentsAll [x.joinPowers, x]) :=
    isLine_easiest (by rwa [h.joinExponentsAll ha]) (by simp [h.joinPowers ha, normal, h])
  unfold Expr.simplifyPowers
  simp only [(shorter (short joined)).hasFn, Bool.false_eq_true, if_false]
  exact shorter (short joined)

/-- A number before a line goes to its terms. -/
theorem IsLine.spreadNumbers (ha : a ≠ 0) {x : Expr} (h : IsLine v a b x) :
    x.spreadNumbers = line v a b := by
  cases h with
  | whole =>
    unfold Expr.spreadNumbers
    refine substitute_line (fun _ => rfl) rfl ?_ ?_
    · rcases lineTerm_cases v a with ⟨-, eq⟩ | ⟨-, eq⟩
      · rw [eq]
      · rw [eq]
        rfl
    · unfold line
      split_ifs
      · rcases lineTerm_cases v a with ⟨-, eq⟩ | ⟨-, eq⟩
        · rw [eq]
        · rw [eq]
          rfl
      · rfl
  | @shared c d e number slope height he =>
    subst slope height
    have product := times_line (v := v) (left_ne_zero_of_mul ha) (right_ne_zero_of_mul ha) e
    rw [line_of_ne_zero v d he] at product
    exact product

theorem rationalized_line (ha : a ≠ 0) (b : ℤ) : (line v a b).rationalized = line v a b := by
  unfold rationalized
  rw [numerDenom_line ha]
  rfl

theorem fraction_line (ha : a ≠ 0) (b : ℤ) : (line v a b).fraction = (line v a b, .one) := by
  by_cases hb : b = 0
  · subst hb
    rw [line_zero]
    rcases lineTerm_cases v a with ⟨-, eq⟩ | ⟨-, eq⟩
    · rw [eq]
      rfl
    · have product := times_sym v ha
      rw [eq] at product ⊢
      change (mul [.ofInt a, .sym v], mul []) = _
      rw [product]
      rfl
  · rw [line_of_ne_zero v a hb]
    rfl

theorem betterSign_line (ha : a ≠ 0) (b : ℤ) : (line v a b).betterSign = line v a b := by
  have bar : neg .one = .ofInt (-1) := rfl
  have quotient : div (line v (-a) (-b)) (.ofInt (-1)) = line v a b := by
    have inverse : power (.ofInt (-1)) .negOne = .ofInt (-1) := by decide +kernel
    rw [div, inverse, line_times (by decide) (neg_ne_zero.2 ha), neg_one_mul, neg_one_mul, neg_neg,
      neg_neg]
  have one : ¬ Expr.one = .zero := by decide
  unfold betterSign
  simp only [fraction_line ha, neg_line ha, bar, quotient, settleSigns_line ha, if_neg one,
    ite_self]

theorem rebuildAux_lineTerm (v : String) (ha : a ≠ 0) (fuel : ℕ) :
    rebuildAux fuel (lineTerm v a) = lineTerm v a := by
  cases fuel with
  | zero => rfl
  | succ fuel =>
    have number (c : ℤ) : rebuildAux fuel (.ofInt c) = .ofInt c := by cases fuel <;> rfl
    have unknown : rebuildAux fuel (.sym v) = .sym v := by cases fuel <;> rfl
    rcases lineTerm_cases v a with ⟨-, eq⟩ | ⟨h, eq⟩
    · rw [eq]
      rfl
    · have product := times_sym v ha
      rw [eq] at product ⊢
      simp only [rebuildAux, List.map_cons, List.map_nil, number, unknown, product]

theorem rebuild_line (ha : a ≠ 0) (b : ℤ) : (line v a b).rebuild = line v a b := by
  by_cases hb : b = 0
  · rw [hb]
    exact rebuildAux_lineTerm v ha _
  · have number (fuel : ℕ) : rebuildAux fuel (.ofInt b) = .ofInt b := by cases fuel <;> rfl
    have sum := add_line (v := v) ha b
    rw [line_of_ne_zero v a hb] at sum ⊢
    simp only [rebuild, rebuildAux, List.map_cons, List.map_nil, number,
      rebuildAux_lineTerm v ha, sum]

theorem simplifyCombined_line (ha : a ≠ 0) (b : ℤ) :
    simplifyCombined (line v a b) (line v a b) = line v a b := by
  have quotient := isLine_simplifyQuotient (v := v) ha b
  have powers := quotient.simplifyPowers ha
  unfold simplifyCombined
  simp only [quotient.simplifyFunctions, powers.spreadNumbers ha, rationalized_line ha,
    betterSign_line ha, ite_self, rebuild_line ha]

theorem isZero_line (v : String) (a b : ℤ) : (line v a b).isZero? = none := by
  unfold line
  split_ifs <;> rcases lineTerm_cases v a with ⟨-, eq⟩ | ⟨-, eq⟩ <;> rw [eq] <;> rfl

/-- A sum or product with settled signs, whose parts are left by rules for powers and functions, is
simplified as it is. -/
theorem simplifyAux_of_compound {x : Expr} (compound : x.isSum ∨ x.isProd) (zero : x.isZero? = none)
    (settled : x.settleSigns = x) (fuel : ℕ)
    (parts : ∀ f : Expr → Expr, (∀ n, f (.num n) = .num n) → (∀ s, f (.sym s) = .sym s) →
      (∀ l, f (.sum l) = .sum l) → (∀ l, f (.prod l) = .prod l) → x.mapUp f = x) :
    simplifyAux (fuel + 1) x = simplifyCombined x x := by
  cases x with
  | sum l =>
    simp only [simplifyAux, zero, settled, isAtom, Bool.false_eq_true, reduceCtorEq, if_false]
    rw [parts] <;> intros <;> rfl
  | prod l =>
    simp only [simplifyAux, zero, settled, isAtom, Bool.false_eq_true, reduceCtorEq, if_false]
    rw [parts] <;> intros <;> rfl
  | num | const | sym | pow | app => simp [isSum, isProd] at compound

/-- The simplest form of a line is the line. -/
theorem simplify_line (ha : a ≠ 0) (b : ℤ) : (line v a b).simplify = line v a b := by
  by_cases atom : a = 1 ∧ b = 0
  · obtain ⟨rfl, rfl⟩ := atom
    rfl
  · have compound : (line v a b).isSum ∨ (line v a b).isProd := by
      by_cases hb : b = 0
      · rw [hb, line_zero, lineTerm_of_ne_one v fun h => atom ⟨h, hb⟩]
        exact .inr rfl
      · rw [line_of_ne_zero v a hb]
        exact .inl rfl
    refine (simplifyAux_of_compound compound (isZero_line v a b) (settleSigns_line ha b) _
      ?_).trans (simplifyCombined_line ha b)
    exact fun f number unknown sum prod => (leaves_of_rfl number unknown sum prod).mapUp_eq

end Expr

end Reckoner
