-- The scan of a line. While the unknown is not raised and the coefficients are moderate, a sampler
-- is made of the expression that has a value at every point, and the scan raises nothing.
import Mathlib
import Reckoner.Proofs.Algebra.Arithmetic
import Reckoner.Proofs.Algebra.ReadingOrder
import Reckoner.Proofs.Decimal.Largest
import Reckoner.Proofs.Solution.Shape
import Reckoner.Proofs.Symbolic.Reporting

namespace Reckoner

open Polynomial

/-! ## Samplers with a value at every point -/

namespace Sampler

/-- A sampler has a value at every single point. -/
def IsTotal (s : Sampler) : Prop := ∀ x, ∃ v, s.valueAt x = .ok v

theorem isTotal_constant (z : Sample) : (constant z).IsTotal := fun _ => ⟨_, by rw [valueAt]⟩

theorem isTotal_unknown : unknown.IsTotal := fun _ => ⟨_, by rw [valueAt]⟩

theorem valuesAt_total {l : List Sampler} (h : ∀ s ∈ l, s.IsTotal) (x : Float) :
    ∃ vs, valuesAt x l = .ok vs := by
  induction l with
  | nil => exact ⟨[], by rw [valuesAt]⟩
  | cons s l ih =>
    obtain ⟨first, rest⟩ := List.forall_mem_cons.1 h
    obtain ⟨v, hv⟩ := first x
    obtain ⟨vs, hvs⟩ := ih rest
    exact ⟨v :: vs, by rw [valuesAt, hv, hvs]; rfl⟩

theorem isTotal_sum {l : List Sampler} (h : ∀ s ∈ l, s.IsTotal) : (sum l).IsTotal := by
  intro x
  obtain ⟨vs, hvs⟩ := valuesAt_total h x
  rw [valueAt, hvs]
  cases vs <;> exact ⟨_, rfl⟩

/-- With nothing below the bar there is nothing to divide by. -/
theorem isTotal_product {l : List Sampler} (negative : Bool) (h : ∀ s ∈ l, s.IsTotal) :
    (quotient negative l []).IsTotal := by
  intro x
  obtain ⟨vs, hvs⟩ := valuesAt_total h x
  rw [valueAt, hvs, valuesAt]
  exact ⟨_, rfl⟩

/-! ## Samplers that are made -/

/-- With so much fuel a sampler is made that has a value at every point. -/
def Samples (name : String) (fuel : Nat) (x : Expr) : Prop :=
  ∃ s, ofExprAux name fuel x = .ok s ∧ s.IsTotal

variable {name : String}

theorem samples_all {fuel : Nat} {l : List Expr} (h : ∀ x ∈ l, Samples name fuel x) :
    ∃ ss, l.mapM (ofExprAux name fuel) = .ok ss ∧ ∀ s ∈ ss, s.IsTotal := by
  induction l with
  | nil => exact ⟨[], rfl, by simp⟩
  | cons x l ih =>
    obtain ⟨⟨s, hs, total⟩, rest⟩ := List.forall_mem_cons.1 h
    obtain ⟨ss, hss, all⟩ := ih rest
    refine ⟨s :: ss, ?_, List.forall_mem_cons.2 ⟨total, all⟩⟩
    rw [List.mapM_cons, hs, hss]
    rfl

/-- Every moderate whole number is a double. -/
theorem toFloat_whole {n : ℤ} (h : n.natAbs < 2 ^ 63) :
    ∃ x, (Quantity.whole n).toFloat = .ok x := by
  have below : n.natAbs < 2 ^ 1000 := lt_of_lt_of_le h (pow_le_pow_right₀ one_le_two (by norm_num))
  obtain ⟨x, hx, -⟩ := Double.ofInt_isFinite (below.trans_le Double.two_pow_le_overflowBound)
  exact ⟨x, by rw [Quantity.toFloat, hx]⟩

theorem samples_ofInt {c : ℤ} (h : c.natAbs < 2 ^ 63) (fuel : Nat) :
    Samples name (fuel + 1) (.ofInt c) := by
  obtain ⟨x, hx⟩ := toFloat_whole h
  have number : ofNumber (.exact (c : ℚ)) = .ok (.real x) := by
    rw [ofNumber, Rat.den_intCast, if_pos rfl, Rat.num_intCast, hx]
    rfl
  refine ⟨_, ?_, isTotal_constant (.real x)⟩
  rw [Expr.ofInt, ofExprAux, number]
  rfl

theorem samples_sym (fuel : Nat) : Samples name (fuel + 1) (.sym name) :=
  ⟨_, by rw [ofExprAux]; rfl, isTotal_unknown⟩

/-- A number before the unknown. -/
theorem keepCoeff_sym {c : ℤ} (h : c ≠ 0) :
    Expr.keepCoeff (.exact c) (.sym name) = Expr.scaledPower name c 1 := by
  have one : Number.exact (c : ℚ) = .exact 1 ↔ c = 1 := by simp
  have negOne : Number.exact (c : ℚ) = .exact (-1) ↔ c = -1 := by
    rw [Number.exact.injEq]
    exact_mod_cast Iff.rfl
  unfold Expr.keepCoeff Builder.keepCoeff
  by_cases h1 : c = 1
  · rw [if_pos (one.2 h1), h1]
    rfl
  · have notOne : (Expr.sym name : Expr) ≠ .one := fun h => by cases h
    rw [if_neg (mt one.1 h1), if_neg notOne]
    by_cases h2 : c = -1
    · rw [if_pos (negOne.2 h2), h2]
      exact Expr.neg_scaledPower 1 1
    · rw [if_neg (mt negOne.1 h2), Expr.scaledPower, if_neg h1]
      exact Expr.buildsTerms_ofDepth c 1 h h1 one_ne_zero

/-- A moderate number or the unknown. -/
def IsFactor (name : String) (x : Expr) : Prop :=
  x = .sym name ∨ ∃ c : ℤ, c.natAbs < 2 ^ 63 ∧ x = .ofInt c

theorem IsFactor.samples {x : Expr} (h : IsFactor name x) (fuel : Nat) :
    Samples name (fuel + 1) x := by
  rcases h with rfl | ⟨c, hc, rfl⟩
  · exact samples_sym fuel
  · exact samples_ofInt hc fuel

theorem IsFactor.below {x : Expr} (h : IsFactor name x) : below? x = none := by
  rcases h with rfl | ⟨c, -, rfl⟩ <;> rfl

/-- With no factor below the bar, a product is a quotient of all its factors and of none. -/
theorem ofExprAux_prod {fuel : Nat} {l : List Expr} {ss : List Sampler}
    (above : ∀ x ∈ Expr.readFactors (Expr.unsigned l), below? x = none)
    (samplers : (Expr.readFactors (Expr.unsigned l)).mapM (ofExprAux name fuel) = .ok ss) :
    ofExprAux name (fuel + 1) (.prod l) =
      .ok (.quotient (Expr.prod l).coeffMul.1.isNegative ss []) := by
  have all := List.filter_eq_self.2 fun x hx => Option.isNone_iff_eq_none.2 (above x hx)
  have none := List.filterMap_eq_nil_iff.2 above
  rw [ofExprAux]
  change (do
    let above ← ((Expr.readFactors (Expr.unsigned l)).filter fun f => (below? f).isNone).mapM
      (ofExprAux name fuel)
    let below ← ((Expr.readFactors (Expr.unsigned l)).filterMap below?).mapM (ofExprAux name fuel)
    return Sampler.quotient (Expr.prod l).coeffMul.1.isNegative above below) = _
  rw [all, none, samplers]
  rfl

theorem readFactors_line (name : String) {c : ℤ} (h : c.natAbs < 2 ^ 63) :
    ∀ x ∈ Expr.readFactors (Expr.scaledPower name c 1), IsFactor name x := by
  have unknown : Expr.unknownPower name 1 = .sym name := rfl
  unfold Expr.scaledPower
  rw [unknown]
  split_ifs with h1
  · exact List.forall_mem_singleton.2 (.inl rfl)
  · intro x hx
    rcases List.mem_pair.1 ((Builder.full.sortByKey_perm _).subset hx) with rfl | rfl
    · exact .inr ⟨c, h, rfl⟩
    · exact .inl rfl

/-- The unknown with a coefficient is multiplied by the size of it. -/
theorem samples_line {c : ℤ} (h0 : c ≠ 0) (h : c.natAbs < 2 ^ 63) (fuel : Nat) :
    Samples name (fuel + 2) (Expr.scaledPower name c 1) := by
  by_cases h1 : c = 1
  · rw [Expr.scaledPower, if_pos h1]
    exact samples_sym (fuel + 1)
  · obtain ⟨d, hd, eq⟩ : ∃ d : ℤ, d.natAbs < 2 ^ 63 ∧
        Expr.unsigned [.ofInt c, .sym name] = Expr.scaledPower name d 1 := by
      have parts : (Expr.prod [.ofInt c, .sym name]).coeffMul = (.exact c, .sym name) := rfl
      unfold Expr.unsigned
      rw [parts]
      dsimp only
      split_ifs with negative
      · refine ⟨-c, by rwa [Int.natAbs_neg], ?_⟩
        rw [← keepCoeff_sym (neg_ne_zero.2 h0), Number.neg, Int.cast_neg]
      · exact ⟨c, h, by rw [Expr.scaledPower, if_neg h1]; rfl⟩
    have factors := readFactors_line name hd
    rw [← eq] at factors
    obtain ⟨ss, hss, total⟩ := samples_all fun x hx => (factors x hx).samples fuel
    have product := ofExprAux_prod (fun x hx => (factors x hx).below) hss
    refine ⟨_, ?_, isTotal_product (Number.exact c).isNegative total⟩
    rw [Expr.scaledPower, if_neg h1]
    exact product

/-- A sampler is made of a line. -/
theorem ofExpr_line (name : String) {p : ℤ[X]} (line : p.natDegree ≤ 1)
    (moderate : ∀ k, (p.coeff k).natAbs < 2 ^ 63) :
    ∃ s, ofExpr name (Expr.ofPolynomial name p) = .ok s ∧ s.IsTotal := by
  have part : ∀ t ∈ Expr.polynomialParts name p, ∀ fuel,
      Samples name (fuel + 2) (Expr.partOf name t) := by
    rintro ⟨c, k⟩ ht fuel
    obtain ⟨nonzero, coeff⟩ := Expr.mem_polynomialParts.1 ht
    have hc : c.natAbs < 2 ^ 63 := by simpa only [coeff] using moderate k
    have hk : k ≤ 1 := (le_natDegree_of_ne_zero (coeff.symm ▸ nonzero)).trans line
    unfold Expr.partOf
    split_ifs with h0
    · exact samples_ofInt hc (fuel + 1)
    · obtain rfl : k = 1 := by simp only at h0; omega
      exact samples_line nonzero hc fuel
  -- the depths of a sum, a product and a factor
  obtain ⟨fuel, enough⟩ : ∃ fuel, 2 * (Expr.ofPolynomial name p).size + 4 = fuel + 2 + 1 := ⟨_, rfl⟩
  unfold ofExpr
  rw [enough]
  rw [Expr.ofPolynomial_eq_parts]
  match h : Expr.polynomialParts name p with
  | [] => exact samples_ofInt (c := 0) (by decide) _
  | [t] => exact part t (by simp [h]) (fuel + 1)
  | s :: t :: l =>
    have terms : ∀ x ∈ Builder.full.orderedTerms (.sum ((s :: t :: l).map (Expr.partOf name))),
        Samples name (fuel + 2) x := by
      intro x hx
      obtain ⟨u, hu, rfl⟩ := List.mem_map.1 ((Builder.full.orderTerms_perm _ _).subset hx)
      exact part u (h ▸ hu) fuel
    obtain ⟨ss, hss, total⟩ := samples_all terms
    refine ⟨_, ?_, isTotal_sum total⟩
    rw [List.map_cons, List.map_cons, Expr.rawSum, ofExprAux]
    · rw [List.map_cons, List.map_cons] at hss
      rw [hss]
      rfl
    · simp
    · simp

end Sampler

namespace Symbolic

variable {name : String}

/-! ## The scan of a line -/

theorem scan_linear (t : ScanTexts) (r : Residual) :
    Yields (fun s => s.method = "linear") (scan t r) := by
  unfold scan
  split
  · exact .bind fun _ _ => .ok rfl
  · exact .ok rfl

/-- What the scan returns has its method. -/
theorem solveByScan_linear (x : Expr) :
    Yields (fun s => s.method = "linear") (solveByScan x name) := by
  refine .bind fun _ _ => ?_
  dsimp only
  split_ifs
  · exact .bind fun _ _ => .mapError _ (.bind fun r _ => scan_linear _ r)
  · exact .ok rfl

/-- Only a constant polynomial is a whole number. -/
theorem coeff_zero_of_int? {p : ℤ[X]} {n : ℤ} (h : (Expr.ofPolynomial name p).int? = some n) :
    p.coeff 0 = n := by
  rcases Expr.ofPolynomial_cases name p with
    ⟨c, rfl, eq⟩ | ⟨c, k, hc, hk, rfl, eq⟩ | ⟨s, t, l, -, eq⟩
  · rw [eq, Expr.int?_ofInt, Option.some.injEq] at h
    rw [h, coeff_C_zero]
  · have other : (Expr.scaledPower name c k).int? = none := by
      unfold Expr.scaledPower Expr.unknownPower
      split_ifs <;> rfl
    rw [eq, other] at h
    cases h
  · rw [eq] at h
    cases h

theorem residualOf_line (name : String) {p : ℤ[X]} (line : p.natDegree ≤ 1)
    (moderate : ∀ k, (p.coeff k).natAbs < 2 ^ 63) :
    ∃ r, residualOf name (Expr.ofPolynomial name p) = .ok r ∧ ∀ x, ∃ y, r.onPoint x = .ok y := by
  unfold residualOf
  split
  · rename_i n whole
    have constant : n.natAbs < 2 ^ 63 := coeff_zero_of_int? whole ▸ moderate 0
    obtain ⟨x, hx⟩ := Sampler.toFloat_whole constant
    unfold wholeResidual
    dsimp only
    rw [if_neg (by omega), if_neg (by simp; omega), hx]
    exact ⟨_, rfl, fun _ => ⟨_, rfl⟩⟩
  · obtain ⟨s, hs, total⟩ := Sampler.ofExpr_line name line moderate
    rw [hs]
    refine ⟨_, rfl, fun x => ?_⟩
    obtain ⟨v, hv⟩ := total x
    dsimp only
    rw [hv]
    exact ⟨_, rfl⟩

/-- A line with moderate coefficients is scanned, and nothing is raised. -/
theorem solveByScan_line (name : String) {p : ℤ[X]} (line : p.natDegree ≤ 1)
    (moderate : ∀ k, (p.coeff k).natAbs < 2 ^ 63) (short : ¬ (Expr.ofPolynomial name p).isTooLong) :
    ∃ s, solveByScan (Expr.ofPolynomial name p) name = .ok s ∧ s.method = "linear" := by
  obtain ⟨r, hr, total⟩ := residualOf_line name line moderate
  cases h : solveByScan (Expr.ofPolynomial name p) name with
  | ok s => exact ⟨s, rfl, solveByScan_linear _ s h⟩
  | error f =>
    obtain ⟨g, ⟨-, -, raises⟩, -⟩ := (solveByScan_error_iff short).1 h
    rw [hr] at raises
    rcases raises with raises | ⟨r', point, same, -, raises⟩
    · cases raises
    · obtain rfl := Except.ok.inj same
      obtain ⟨y, hy⟩ := total (checkedPoint point)
      rw [hy] at raises
      cases raises

end Symbolic

end Reckoner
