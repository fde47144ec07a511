-- What the scan of a line finds. Every point of the grid is next to its tenth. There the values of
-- a line differ by tenths, far more than rounding and the tolerance together, so a point is a hit
-- exactly when it is next to the root.
import Reckoner.Proofs.Algebra.LineSigns
import Reckoner.Proofs.Decimal.Parts
import Reckoner.Proofs.Reading.Grammar
import Reckoner.Proofs.Symbolic.Line

namespace Reckoner

namespace Symbolic

open Double

/-! ## Points of the grid -/

/-- The double of a whole number from the fast route. -/
theorem ofNat_value {n : ℕ} (few : n < 2 ^ 53) : toRat? (Float.ofNat n) = some (n : ℚ) := by
  rcases eq_or_ne n 0 with rfl | h0
  · decide +kernel
  have rounds := ofScientific_rounds h0 false (e := 0) (by decide)
  rw [if_neg Bool.false_ne_true, Int.ofNat_zero, zpow_zero, ← zpow_zero (2 : ℚ)] at rounds
  have top : (n : ℚ) * 2 ^ (0 : ℤ) < 2 ^ 1024 := by
    rw [zpow_zero, mul_one]
    exact_mod_cast few.trans (Nat.pow_lt_pow_right one_lt_two (by decide))
  have value := rounds.exact few (by decide) top
  rwa [zpow_zero, mul_one] at value

/-- Rounding takes a value of some size no further than one part in two to the 53rd. -/
theorem error_of_size {r q s : ℚ} (h : IsNear r q) (size : |q| ≤ s) :
    |r - q| ≤ s / 2 ^ 53 + 1 / 2 ^ 60 := by
  have tiny : (1 : ℚ) / 2 ^ 1075 ≤ 1 / 2 ^ 60 :=
    one_div_le_one_div_of_le (by positivity) (pow_le_pow_right₀ one_le_two (by decide))
  exact h.error.trans (add_le_add (div_le_div_of_nonneg_right size (by positivity)) tiny)

theorem moderate {q : ℚ} (h : |q| ≤ 10 ^ 9) : |q| ≤ 2 ^ (1000 : ℤ) :=
  (h.trans (by norm_num : (10 : ℚ) ^ 9 ≤ 2 ^ (30 : ℤ))).trans
    (zpow_le_zpow_right₀ one_le_two (by decide))

theorem gridPoint_near {i : ℕ} (h : i < gridSize) :
    ∃ q, toRat? (gridPoint i) = some q ∧ |q - (i - 1000) / 10| ≤ 1 / 10 ^ 12 := by
  have last : toRat? (100.0 : Float) = some 100 := by decide +kernel
  have step : toRat? (0.1 : Float) = some (3602879701896397 / 36028797018963968) := by
    decide +kernel
  have first : toRat? (-100.0 : Float) = some (-100) := by decide +kernel
  have few : i ≤ 2000 := Nat.lt_succ_iff.1 h
  unfold gridPoint
  split_ifs with top
  · obtain rfl : i = 2000 := Nat.succ.inj top
    exact ⟨100, last, by norm_num⟩
  · have size : (i : ℚ) ≤ 2000 := by exact_mod_cast few
    have nonneg : (0 : ℚ) ≤ i := Nat.cast_nonneg i
    have product : |(i : ℚ) * (3602879701896397 / 36028797018963968)| ≤ 201 := by
      rw [abs_of_nonneg (by positivity)]
      linarith
    obtain ⟨p, hp, near⟩ := mul_near (ofNat_value (by omega : i < 2 ^ 53)) step
      (moderate (product.trans (by norm_num)))
    have error := abs_le.1 (error_of_size near product)
    have sum : |p + -100| ≤ 302 := by
      have := abs_le.1 product
      rw [abs_le]
      constructor <;> linarith
    obtain ⟨q, hq, near'⟩ := add_near hp first (moderate (sum.trans (by norm_num)))
    have error' := abs_le.1 (error_of_size near' sum)
    refine ⟨q, hq, ?_⟩
    rw [abs_le]
    constructor <;> linarith

/-- The point that is told and checked. -/
theorem checkedPoint_near {x : Float} {v : ℚ} {n : ℤ} (hx : toRat? x = some v) (hn : |n| ≤ 1000)
    (close : |v - n / 10| ≤ 1 / 10 ^ 12) :
    ∃ q, toRat? (checkedPoint x) = some q ∧ |q - n / 10| ≤ 1 / 10 ^ 12 := by
  have size : |(n : ℚ) / 10| ≤ 100 := by
    rw [abs_div, abs_of_pos (by norm_num : (0 : ℚ) < 10), div_le_iff₀ (by norm_num)]
    exact_mod_cast hn
  have value : ((10 * n : ℤ) : ℚ) / 10 ^ 2 = n / 10 := by
    push_cast
    ring
  have places : |v * 10 ^ 2 - (10 * n : ℤ)| < 1 / 2 := by
    have := abs_le.1 close
    push_cast
    rw [abs_lt]
    constructor <;> linarith
  have few := abs_le.1 hn
  obtain ⟨r, hr, near⟩ := roundTo_near hx places (by omega) (by decide)
  rw [value] at near
  have error := abs_le.1 (error_of_size near size)
  have sum : |r + 0| ≤ 101 := by
    have := abs_le.1 size
    rw [abs_le]
    constructor <;> linarith
  obtain ⟨q, hq, near'⟩ := add_near hr (by decide +kernel : toRat? (0.0 : Float) = some 0)
    (moderate (sum.trans (by norm_num)))
  have error' := abs_le.1 (error_of_size near' sum)
  refine ⟨q, hq, ?_⟩
  rw [abs_le]
  constructor <;> linarith

end Symbolic

open Double (toRat? IsNear)
open Symbolic (error_of_size moderate)

/-! ## Samplers with a value -/

namespace Sampler

variable {v : String} {s t : Sampler} {x y : Float} {p q r : ℚ}

/-- At a point a sampler has one double, on the grid and by itself, and it has this value. -/
def HasValue (s : Sampler) (x : Float) (r : ℚ) : Prop :=
  ∃ y, s.sample x = .real y ∧ s.valueAt x = .ok (.plain (.real y)) ∧ toRat? y = some r

theorem hasValue_unknown (hx : toRat? x = some q) : unknown.HasValue x q :=
  ⟨x, by rw [sample], by rw [valueAt], hx⟩

theorem hasValue_constant (hy : toRat? y = some r) (x : Float) :
    (constant (.real y)).HasValue x r :=
  ⟨y, by rw [sample], by rw [valueAt], hy⟩

theorem samples_pair (s t : Sampler) (x : Float) : samples x [s, t] = [s.sample x, t.sample x] := by
  rw [samples, samples, samples]

theorem valuesAt_pair {d e : PointValue} (hs : s.valueAt x = .ok d) (ht : t.valueAt x = .ok e) :
    valuesAt x [s, t] = .ok [d, e] := by
  rw [valuesAt, valuesAt, valuesAt, hs, ht]
  rfl

theorem HasValue.sum (hs : s.HasValue x p) (ht : t.HasValue x q) (size : |p + q| ≤ 10 ^ 9) :
    ∃ r, (sum [s, t]).HasValue x r ∧ IsNear r (p + q) := by
  obtain ⟨y, hy, hy', valueY⟩ := hs
  obtain ⟨z, hz, hz', valueZ⟩ := ht
  obtain ⟨r, hr, near⟩ := Double.add_near valueY valueZ (moderate size)
  refine ⟨r, ⟨y + z, ?_, ?_, hr⟩, near⟩
  · rw [sample, samples_pair, hy, hz]
    rfl
  · rw [valueAt, valuesAt_pair hy' hz']
    rfl

theorem HasValue.alone (hs : s.HasValue x p) (negative : Bool) :
    (quotient negative [s] []).HasValue x (if negative then -p else p) := by
  obtain ⟨y, hy, hy', value⟩ := hs
  have opposite := Double.toRat?_neg value
  have on : samples x [s] = [.real y] := by rw [samples, samples, hy]
  have alone : valuesAt x [s] = .ok [.plain (.real y)] := by
    rw [valuesAt, valuesAt, hy']
    rfl
  cases negative with
  | false =>
    refine ⟨y, ?_, ?_, value⟩
    · rw [sample, on, samples]
      rfl
    · rw [valueAt, alone, valuesAt]
      rfl
  | true =>
    refine ⟨-y, ?_, ?_, opposite⟩
    · rw [sample, on, samples]
      rfl
    · rw [valueAt, alone, valuesAt]
      rfl

theorem HasValue.product (hs : s.HasValue x p) (ht : t.HasValue x q) (size : |p * q| ≤ 10 ^ 9)
    (negative : Bool) : ∃ r, (quotient negative [s, t] []).HasValue x (if negative then -r else r) ∧
      IsNear r (p * q) := by
  obtain ⟨y, hy, hy', valueY⟩ := hs
  obtain ⟨z, hz, hz', valueZ⟩ := ht
  obtain ⟨r, hr, near⟩ := Double.mul_near valueY valueZ (moderate size)
  have opposite := Double.toRat?_neg hr
  have on : samples x [s, t] = [.real y, .real z] := by rw [samples_pair, hy, hz]
  have both := valuesAt_pair hy' hz'
  refine ⟨r, ?_, near⟩
  cases negative with
  | false =>
    refine ⟨y * z, ?_, ?_, hr⟩
    · rw [sample, on, samples]
      rfl
    · rw [valueAt, both, valuesAt]
      rfl
  | true =>
    refine ⟨-(y * z), ?_, ?_, opposite⟩
    · rw [sample, on, samples]
      rfl
    · rw [valueAt, both, valuesAt]
      rfl

/-! ## The sampler of a line -/

/-- The sampler of an expression stays next to a function of the unknown, where that is not far from
the grid. -/
def Follows (s : Sampler) (f : ℚ → ℚ) (error : ℚ) : Prop :=
  ∀ x q, toRat? x = some q → |q| ≤ 101 → ∃ r, s.HasValue x r ∧ |r - f q| ≤ error

theorem ofExprAux_ofInt {c : ℤ} (few : c.natAbs < 2 ^ 53) (fuel : ℕ) :
    ∃ y, ofExprAux v (fuel + 1) (.ofInt c) = .ok (.constant (.real y)) ∧
      toRat? y = some (c : ℚ) := by
  obtain ⟨y, hy, value⟩ := Double.ofInt_value few
  have number : ofNumber (.exact (c : ℚ)) = .ok (.real y) := by
    rw [ofNumber, Rat.den_intCast, if_pos rfl, Rat.num_intCast, Quantity.toFloat, hy]
    rfl
  refine ⟨y, ?_, value⟩
  rw [Expr.ofInt, ofExprAux, number]
  rfl

theorem unsigned_line {a : ℤ} (h0 : a ≠ 0) (h1 : a ≠ 1) :
    Expr.unsigned [.ofInt a, .sym v] = Expr.lineTerm v |a| := by
  have parts : (Expr.prod [.ofInt a, .sym v]).coeffMul = (.exact a, .sym v) := rfl
  unfold Expr.unsigned
  rw [parts]
  dsimp only
  rw [Expr.isNegative_exact]
  by_cases negative : a < 0
  · rw [decide_eq_true negative, if_pos rfl, abs_of_neg negative, Number.neg, ← Int.cast_neg,
      keepCoeff_sym (neg_ne_zero.2 h0)]
    rfl
  · rw [decide_eq_false negative, if_neg Bool.false_ne_true, abs_of_nonneg (not_lt.1 negative),
      Expr.lineTerm_of_ne_one v h1]

theorem ofExprAux_sym (fuel : ℕ) : ofExprAux v (fuel + 1) (.sym v) = .ok .unknown := by
  rw [ofExprAux]
  rfl

/-- A product of two factors that have samplers. -/
theorem ofExprAux_factors {l : List Expr} {fuel : ℕ} {f g : Expr}
    (factors : Expr.readFactors (Expr.unsigned l) = [f, g]) (hf : below? f = none)
    (hg : below? g = none) (first : ofExprAux v fuel f = .ok s)
    (second : ofExprAux v fuel g = .ok t) :
    ofExprAux v (fuel + 1) (.prod l) =
      .ok (.quotient (Expr.prod l).coeffMul.1.isNegative [s, t] []) := by
  refine ofExprAux_prod ?_ ?_
  · rw [factors]
    simp [hf, hg]
  · rw [factors, List.mapM_cons, List.mapM_cons, first, second]
    rfl

/-- The size of the coefficient stands before the unknown or behind it. -/
theorem readFactors_lineTerm {c : ℤ} (h1 : c ≠ 1) :
    Expr.readFactors (Expr.lineTerm v c) = [.ofInt c, .sym v] ∨
      Expr.readFactors (Expr.lineTerm v c) = [.sym v, .ofInt c] := by
  have perm := Expr.readFactors_perm (Expr.lineTerm v c)
  rw [Expr.lineTerm_of_ne_one v h1] at perm ⊢
  exact List.perm_pair.1 perm

/-- The sign that was taken off is put back. -/
theorem signed_size (a : ℤ) (r : ℚ) :
    (if decide (a < 0) then -((|a| : ℤ) * r) else (|a| : ℤ) * r) = a * r := by
  by_cases negative : a < 0
  · rw [decide_eq_true negative, if_pos rfl, abs_of_neg negative, Int.cast_neg, neg_mul, neg_neg]
  · rw [decide_eq_false negative, if_neg Bool.false_ne_true, abs_of_nonneg (not_lt.1 negative)]

theorem size_le {a : ℤ} (bound : |a| ≤ 10 ^ 6) {q : ℚ} (hq : |q| ≤ 101) :
    |((|a| : ℤ) : ℚ) * q| ≤ 101 * 10 ^ 6 := by
  have size : |(((|a| : ℤ)) : ℚ)| ≤ 10 ^ 6 := by
    rw [← Int.cast_abs, abs_abs]
    exact_mod_cast bound
  rw [abs_mul, mul_comm]
  exact mul_le_mul hq size (abs_nonneg _) (by norm_num)

theorem signed_near {a : ℤ} (bound : |a| ≤ 10 ^ 6) {q r : ℚ} (hq : |q| ≤ 101)
    (near : IsNear r ((|a| : ℤ) * q)) :
    |(if decide (a < 0) then -r else r) - a * q| ≤ 1 / 10 ^ 7 := by
  have error := error_of_size near (size_le bound hq)
  have small : (101 * 10 ^ 6 / 2 ^ 53 + 1 / 2 ^ 60 : ℚ) ≤ 1 / 10 ^ 7 := by norm_num
  refine le_trans (le_of_eq ?_) (error.trans small)
  rw [← signed_size a q]
  split_ifs
  · rw [← neg_sub', abs_neg]
  · rfl

theorem lineTerm_follows {a : ℤ} (h0 : a ≠ 0) (bound : |a| ≤ 10 ^ 6) (fuel : ℕ) :
    ∃ s, ofExprAux v (fuel + 2) (Expr.lineTerm v a) = .ok s ∧
      s.Follows (fun q => a * q) (1 / 10 ^ 7) := by
  by_cases h1 : a = 1
  · refine ⟨.unknown, by rw [h1, Expr.lineTerm_one, ofExprAux_sym], fun x q hx _ => ?_⟩
    exact ⟨q, hasValue_unknown hx, by simp [h1]⟩
  have sign : (Expr.prod [.ofInt a, .sym v]).coeffMul.1.isNegative = decide (a < 0) :=
    Expr.isNegative_exact a
  have unsigned := unsigned_line (v := v) h0 h1
  rw [Expr.lineTerm_of_ne_one v h1]
  by_cases unit : |a| = 1
  · have factors : Expr.readFactors (Expr.unsigned [.ofInt a, .sym v]) = [.sym v] := by
      rw [unsigned, unit, Expr.lineTerm_one]
      rfl
    have product : ofExprAux v (fuel + 2) (.prod [.ofInt a, .sym v]) = .ok
        (.quotient (Expr.prod [.ofInt a, .sym v]).coeffMul.1.isNegative [.unknown] []) := by
      refine ofExprAux_prod ?_ ?_
      · rw [factors]
        exact List.forall_mem_singleton.2 rfl
      · rw [factors, List.mapM_cons, ofExprAux_sym]
        rfl
    rw [product, sign]
    refine ⟨_, rfl, fun x q hx hq => ⟨_, (hasValue_unknown hx).alone _, signed_near bound hq ?_⟩⟩
    rw [unit, Int.cast_one, one_mul]
    exact Double.isNear_self q
  · obtain ⟨y, hy, value⟩ := ofExprAux_ofInt (v := v) (c := |a|)
      (by have := Int.abs_eq_natAbs a; omega) fuel
    have unknown := ofExprAux_sym (v := v) fuel
    have order := readFactors_lineTerm (v := v) unit
    rw [← unsigned] at order
    rcases order with order | order
    · rw [ofExprAux_factors order rfl rfl hy unknown, sign]
      refine ⟨_, rfl, fun x q hx hq => ?_⟩
      obtain ⟨r, hr, near⟩ := (hasValue_constant value x).product (hasValue_unknown hx)
        ((size_le bound hq).trans (by norm_num)) (decide (a < 0))
      exact ⟨_, hr, signed_near bound hq near⟩
    · rw [ofExprAux_factors order rfl rfl unknown hy, sign]
      refine ⟨_, rfl, fun x q hx hq => ?_⟩
      have size := size_le bound hq
      rw [mul_comm] at size
      obtain ⟨r, hr, near⟩ := (hasValue_unknown hx).product (hasValue_constant value x)
        (size.trans (by norm_num)) (decide (a < 0))
      rw [mul_comm] at near
      exact ⟨_, hr, signed_near bound hq near⟩

/-- The terms of a line are added in one order or the other. -/
theorem ofExprAux_terms {l : List Expr} {fuel : ℕ} {f g : Expr}
    (terms : Builder.full.orderedTerms (.sum l) = [f, g]) (first : ofExprAux v fuel f = .ok s)
    (second : ofExprAux v fuel g = .ok t) :
    ofExprAux v (fuel + 1) (.sum l) = .ok (.sum [s, t]) := by
  rw [ofExprAux, terms, List.mapM_cons, List.mapM_cons, first, second]
  rfl

/-- What rounding adds to a sum is little. -/
theorem sum_near {a b : ℤ} (ha : |a| ≤ 10 ^ 6) (hb : |b| ≤ 10 ^ 6) {q r : ℚ} (hq : |q| ≤ 101)
    (close : |r - a * q| ≤ 1 / 10 ^ 7) : |r + b| ≤ 10 ^ 9 ∧
      ∀ {w}, IsNear w (r + b) → |w - (a * q + b)| ≤ 1 / 10 ^ 6 := by
  have product := size_le ha hq
  rw [abs_mul, ← Int.cast_abs, abs_abs, Int.cast_abs, ← abs_mul] at product
  have number : |(b : ℚ)| ≤ 10 ^ 6 := by exact_mod_cast hb
  obtain ⟨low, high⟩ := abs_le.1 product
  obtain ⟨low', high'⟩ := abs_le.1 number
  obtain ⟨below, above⟩ := abs_le.1 close
  have size : |r + b| ≤ 103 * 10 ^ 6 := by
    rw [abs_le]
    constructor <;> linarith
  refine ⟨size.trans (by norm_num), fun {w} near => ?_⟩
  obtain ⟨under, beyond⟩ := abs_le.1 (error_of_size near size)
  rw [abs_le]
  constructor <;> linarith

theorem line_follows {a b : ℤ} (h0 : a ≠ 0) (ha : |a| ≤ 10 ^ 6) (hb : |b| ≤ 10 ^ 6) :
    ∃ s, ofExpr v (Expr.line v a b) = .ok s ∧
      s.Follows (fun q => a * q + b) (1 / 10 ^ 6) := by
  obtain ⟨fuel, enough⟩ : ∃ fuel, 2 * (Expr.line v a b).size + 4 = fuel + 2 + 1 := ⟨_, rfl⟩
  unfold ofExpr
  rw [enough]
  obtain ⟨s, hs, follows⟩ := lineTerm_follows (v := v) h0 ha (fuel + 1)
  by_cases none : b = 0
  · rw [none, Expr.line_zero]
    refine ⟨s, hs, fun x q hx hq => ?_⟩
    obtain ⟨r, hr, close⟩ := follows x q hx hq
    refine ⟨r, hr, ?_⟩
    dsimp only at close ⊢
    rw [Int.cast_zero, add_zero]
    exact close.trans (by norm_num)
  · rw [Expr.line_of_ne_zero v a none]
    obtain ⟨y, hy, value⟩ := ofExprAux_ofInt (v := v) (c := b)
      (by have := Int.abs_eq_natAbs b; omega) (fuel + 1)
    obtain ⟨s, hs, follows⟩ := lineTerm_follows (v := v) h0 ha fuel
    have perm : (Builder.full.orderedTerms (.sum [.ofInt b, Expr.lineTerm v a])).Perm
        [.ofInt b, Expr.lineTerm v a] := Builder.full.orderTerms_perm _ _
    rcases List.perm_pair.1 perm with order | order
    · refine ⟨_, ofExprAux_terms order hy hs, fun x q hx hq => ?_⟩
      obtain ⟨r, hr, close⟩ := follows x q hx hq
      obtain ⟨size, sum⟩ := sum_near ha hb hq close
      rw [add_comm] at size
      obtain ⟨w, hw, near⟩ := (hasValue_constant value x).sum hr size
      rw [add_comm] at near
      exact ⟨w, hw, sum near⟩
    · refine ⟨_, ofExprAux_terms order hs hy, fun x q hx hq => ?_⟩
      obtain ⟨r, hr, close⟩ := follows x q hx hq
      obtain ⟨size, sum⟩ := sum_near ha hb hq close
      obtain ⟨w, hw, near⟩ := hr.sum (hasValue_constant value x) size
      exact ⟨w, hw, sum near⟩

end Sampler

namespace Symbolic

variable {v : String}

/-! ## Hits -/

/-- The residual of a line on the grid and at single points: a double next to its distance from
zero. -/
def Measures (r : Residual) (f : ℚ → ℚ) (error : ℚ) : Prop :=
  ∀ x q, toRat? x = some q → |q| ≤ 101 →
    ∃ y w, r.onGrid x = y ∧ r.onPoint x = .ok y ∧ toRat? y = some w ∧ |w - (|f q|)| ≤ error

theorem residualOf_measures {a b : ℤ} (h0 : a ≠ 0) (ha : |a| ≤ 10 ^ 6) (hb : |b| ≤ 10 ^ 6) :
    ∃ r, residualOf v (Expr.line v a b) = .ok r ∧
      Measures r (fun q => a * q + b) (1 / 10 ^ 6) := by
  have compound : (Expr.line v a b).int? = none := by
    unfold Expr.line
    split_ifs
    · rcases Expr.lineTerm_cases v a with ⟨-, eq⟩ | ⟨-, eq⟩ <;> rw [eq] <;> rfl
    · rfl
  obtain ⟨s, hs, follows⟩ := Sampler.line_follows (v := v) h0 ha hb
  unfold residualOf
  rw [compound]
  dsimp only
  rw [hs]
  refine ⟨_, rfl, fun x q hx hq => ?_⟩
  obtain ⟨r, ⟨y, hy, hy', value⟩, close⟩ := follows x q hx hq
  refine ⟨y.abs, |r|, ?_, ?_, Double.toRat?_abs value, (abs_abs_sub_abs_le _ _).trans close⟩
  · dsimp only
    rw [hy]
    rfl
  · dsimp only
    rw [hy']
    rfl

/-- A line that is a whole number of tenths is hit where it is zero. -/
theorem isHit_iff {y : Float} {w : ℚ} {k : ℤ} (hy : toRat? y = some w)
    (close : |w - (|(k : ℚ) / 10|)| ≤ 1 / 10 ^ 4) : isHit y = true ↔ k = 0 := by
  have tolerance : toRat? scanTolerance = some (5764607523034235 / 576460752303423488) := by
    decide +kernel
  obtain ⟨low, high⟩ := abs_le.1 close
  unfold isHit
  rw [Double.isFinite_of_value hy, Bool.true_and, decide_eq_true_iff,
    Double.lt_iff_of_values hy tolerance]
  rw [abs_div, abs_of_pos (by norm_num : (0 : ℚ) < 10)] at low high
  constructor
  · intro small
    by_contra other
    have least : (1 : ℚ) ≤ |(k : ℚ)| := by exact_mod_cast Int.one_le_abs other
    linarith
  · rintro rfl
    rw [Int.cast_zero, abs_zero, zero_div] at high
    linarith

/-- A point is a hit exactly when its tenth is the root of the line. -/
theorem hit_iff {r : Residual} {a b : ℤ} (ha : |a| ≤ 10 ^ 6)
    (measures : Measures r (fun q => a * q + b) (1 / 10 ^ 6)) {x : Float} {q : ℚ} {n : ℤ}
    (hn : |n| ≤ 1000) (hx : toRat? x = some q) (close : |q - n / 10| ≤ 1 / 10 ^ 12) :
    ∃ y, r.onGrid x = y ∧ r.onPoint x = .ok y ∧ (isHit y = true ↔ a * n + 10 * b = 0) := by
  have tenth : |(n : ℚ) / 10| ≤ 100 := by
    rw [abs_div, abs_of_pos (by norm_num : (0 : ℚ) < 10), div_le_iff₀ (by norm_num)]
    exact_mod_cast hn
  have size : |q| ≤ 101 := by
    obtain ⟨low, high⟩ := abs_le.1 tenth
    obtain ⟨below, above⟩ := abs_le.1 close
    rw [abs_le]
    constructor <;> linarith
  obtain ⟨y, w, grid, point, hy, near⟩ := measures x q hx size
  refine ⟨y, grid, point, isHit_iff hy ?_⟩
  have slope : |(a : ℚ)| ≤ 10 ^ 6 := by exact_mod_cast ha
  have moved : |((a : ℚ) * q + b) - (a * n + 10 * b : ℤ) / 10| ≤ 1 / 10 ^ 6 := by
    have factor : ((a : ℚ) * q + b) - (a * n + 10 * b : ℤ) / 10 = a * (q - n / 10) := by
      push_cast
      ring
    rw [factor, abs_mul]
    calc |(a : ℚ)| * |q - n / 10|
      _ ≤ 10 ^ 6 * (1 / 10 ^ 12) := mul_le_mul slope close (abs_nonneg _) (by norm_num)
      _ = 1 / 10 ^ 6 := by norm_num
  have sizes := (abs_abs_sub_abs_le _ _).trans moved
  obtain ⟨low, high⟩ := abs_le.1 near
  obtain ⟨below, above⟩ := abs_le.1 sizes
  rw [abs_le]
  constructor <;> linarith

/-! ## The scan -/

section Scan

variable {r : Residual} {a b : ℤ}

theorem isHit_gridPoint_iff (ha : |a| ≤ 10 ^ 6)
    (measures : Measures r (fun q => a * q + b) (1 / 10 ^ 6)) {i : ℕ} (h : i < gridSize) :
    isHit (r.onGrid (gridPoint i)) = true ↔ a * (i - 1000) + 10 * b = 0 := by
  obtain ⟨q, hq, close⟩ := gridPoint_near h
  have few : i ≤ 2000 := Nat.lt_succ_iff.1 h
  have tenth : |q - (((i : ℤ) - 1000 : ℤ) : ℚ) / 10| ≤ 1 / 10 ^ 12 := by
    push_cast
    exact close
  obtain ⟨y, grid, -, hit⟩ := hit_iff ha measures (by rw [abs_le]; omega) hq tenth
  rw [grid]
  exact hit

/-- The root of a line is the first hit, if it is a tenth of the grid. -/
theorem firstHit?_eq_some (h0 : a ≠ 0) (ha : |a| ≤ 10 ^ 6)
    (measures : Measures r (fun q => a * q + b) (1 / 10 ^ 6)) {n : ℤ} (hn : |n| ≤ 1000)
    (root : a * n + 10 * b = 0) : firstHit? r = some (gridPoint (n + 1000).toNat) := by
  obtain ⟨low, high⟩ := abs_le.1 hn
  obtain ⟨i, hi⟩ : ∃ i : ℕ, n = i - 1000 := ⟨(n + 1000).toNat, by omega⟩
  have index : (n + 1000).toNat = i := by omega
  have inside : i < gridSize := by
    unfold gridSize
    omega
  unfold firstHit?
  rw [index, List.find?_range_eq_some.2 ⟨?_, List.mem_range.2 inside, ?_⟩, Option.map_some]
  · rw [isHit_gridPoint_iff ha measures inside, ← hi, root]
  · intro j before
    have other : isHit (r.onGrid (gridPoint j)) ≠ true := by
      rw [Ne, isHit_gridPoint_iff ha measures (before.trans inside)]
      intro zero
      have same : a * (j - 1000) = a * n := by linarith
      have := mul_left_cancel₀ h0 same
      omega
    simp [other]

/-- With its root between the tenths a line has no hit. -/
theorem firstHit?_eq_none (ha : |a| ≤ 10 ^ 6)
    (measures : Measures r (fun q => a * q + b) (1 / 10 ^ 6))
    (apart : ∀ n : ℤ, a * n + 10 * b ≠ 0) : firstHit? r = none := by
  unfold firstHit?
  rw [Option.map_eq_none_iff, List.find?_range_eq_none]
  intro i inside
  have other : isHit (r.onGrid (gridPoint i)) ≠ true := by
    rw [Ne, isHit_gridPoint_iff ha measures inside]
    exact apart _
  simp [other]

/-- A root of an equation is found: one double next to it, which is told and was checked. -/
structure FindsRoot (s : Solution) (root : ℚ) : Prop where
  success : s.success = true
  verified : s.verified = true
  method : s.method = "linear"
  solution : ∃ x q, s.answer = .list [.measure x] ∧
    s.detailD "solutions" .nothing = .list [.measure x] ∧ toRat? x = some q ∧ |q - root| ≤ 1 / 20

/-- No root of an equation is found on the grid. -/
structure FindsNone (s : Solution) : Prop where
  success : s.success = false
  reason : s.reason = some "No solution found in range"
  method : s.method = "linear"

theorem symbols_line (v : String) (a b : ℤ) :
    ∀ other ∈ (Expr.line v a b).symbols, other = v := by
  have term : (Expr.lineTerm v a).symbolList = [v] := by
    rcases Expr.lineTerm_cases v a with ⟨-, eq⟩ | ⟨-, eq⟩ <;> rw [eq] <;> rfl
  have line : (Expr.line v a b).symbolList = [v] := by
    unfold Expr.line
    split_ifs
    · exact term
    · change [] ++ ((Expr.lineTerm v a).symbolList ++ []) = [v]
      rw [term]
      rfl
  intro other h
  rw [Expr.symbols, mem_sortNames, line] at h
  exact List.mem_singleton.1 h

/-- The scan of a line, by its residual. -/
theorem solveByScan_of_residual {x : Expr} (short : ¬ x.isTooLong)
    (alone : ∀ other ∈ x.symbols, other = v) (hr : residualOf v x = .ok r) :
    ∃ t, solveByScan x v = (scan t r).mapError .value := by
  obtain ⟨shown, hs⟩ := lineText_of_short short
  have others : (x.symbols.filter fun other => other ≠ v).isEmpty := by
    simpa [List.isEmpty_iff, List.filter_eq_nil_iff] using alone
  refine ⟨⟨v, x.text, shown⟩, ?_⟩
  rw [solveByScan, checkedText_of_short short, ok_bind]
  dsimp only
  rw [if_pos others, hs, ok_bind, hr, ok_bind]

/-- A root on the grid is found. -/
theorem solveByScan_finds (h0 : a ≠ 0) (ha : |a| ≤ 10 ^ 6) (hb : |b| ≤ 10 ^ 6) {n : ℤ}
    (hn : |n| ≤ 1000) (root : a * n + 10 * b = 0) (short : ¬ (Expr.line v a b).isTooLong) :
    ∃ s, solveByScan (Expr.line v a b) v = .ok s ∧ FindsRoot s (n / 10) := by
  obtain ⟨r, hr, measures⟩ := residualOf_measures (v := v) h0 ha hb
  obtain ⟨t, solved⟩ := solveByScan_of_residual short (symbols_line v a b) hr
  obtain ⟨low, high⟩ := abs_le.1 hn
  have inside : (n + 1000).toNat < gridSize := by
    unfold gridSize
    omega
  obtain ⟨p, hp, close⟩ := gridPoint_near inside
  have index : (((n + 1000).toNat : ℕ) : ℚ) - 1000 = n := by
    have whole : (((n + 1000).toNat : ℕ) : ℤ) = n + 1000 := by omega
    rw [← Int.cast_natCast, whole]
    push_cast
    ring
  rw [index] at close
  obtain ⟨q, hq, close⟩ := checkedPoint_near hp hn close
  obtain ⟨y, -, point, hit⟩ := hit_iff ha measures hn hq close
  have small : isHit y = true := hit.2 root
  unfold isHit at small
  rw [Bool.and_eq_true] at small
  have first := firstHit?_eq_some h0 ha measures hn root
  rw [solved]
  unfold scan
  rw [first]
  dsimp only
  unfold scanSolution
  change r.onPoint (Double.roundTo 2 (gridPoint (n + 1000).toNat) + 0.0) = .ok y at point
  dsimp only
  rw [point]
  refine ⟨_, rfl, ?_⟩
  exact ⟨rfl, small.2, rfl, _, q, rfl, rfl, hq, close.trans (by norm_num)⟩

/-- With its root between the tenths nothing is found. -/
theorem solveByScan_findsNone (h0 : a ≠ 0) (ha : |a| ≤ 10 ^ 6) (hb : |b| ≤ 10 ^ 6)
    (apart : ∀ n : ℤ, a * n + 10 * b ≠ 0) (short : ¬ (Expr.line v a b).isTooLong) :
    ∃ s, solveByScan (Expr.line v a b) v = .ok s ∧ FindsNone s := by
  obtain ⟨r, hr, measures⟩ := residualOf_measures (v := v) h0 ha hb
  obtain ⟨t, solved⟩ := solveByScan_of_residual short (symbols_line v a b) hr
  have none := firstHit?_eq_none ha measures apart
  rw [solved]
  unfold scan
  rw [none]
  dsimp only
  refine ⟨_, rfl, ?_⟩
  exact ⟨rfl, rfl, rfl⟩

end Scan

end Symbolic

end Reckoner
