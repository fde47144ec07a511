-- The degree of the polynomial that an equation comes to. A power of the unknown above the first
-- stands in its expression from the second degree on, and the coefficients that are found are its
-- own.
import Mathlib
import Reckoner.Proofs.Algebra.Arithmetic
import Reckoner.Symbolic.Equation

namespace Reckoner

open Polynomial

/-! ## Lists of coefficients -/

/-- The polynomial with the coefficients, from the constant one on. -/
noncomputable def polynomialOf : List ℤ → ℤ[X]
  | [] => 0
  | c :: l => C c + X * polynomialOf l

theorem coeff_polynomialOf (l : List ℤ) (k : ℕ) : (polynomialOf l).coeff k = l.getD k 0 := by
  induction l generalizing k with
  | nil => simp [polynomialOf]
  | cons c l ih =>
    cases k with
    | zero => simp [polynomialOf]
    | succ k =>
      rw [polynomialOf, coeff_add, coeff_C_succ, coeff_X_mul, ih, zero_add]
      rfl

/-- Zeros at the end do not count. -/
theorem polynomialOf_trimmed (l : List ℤ) :
    polynomialOf (l.rdropWhile (· = 0)) = polynomialOf l := by
  induction l using List.reverseRecOn with
  | nil => simp
  | append_singleton l c ih =>
    rw [List.rdropWhile_concat]
    split_ifs with zero
    · have ends : ∀ l : List ℤ, polynomialOf (l ++ [0]) = polynomialOf l := by
        intro l
        induction l with
        | nil => simp [polynomialOf]
        | cons c l ih => rw [List.cons_append, polynomialOf, polynomialOf, ih]
      obtain rfl : c = 0 := by simpa using zero
      rw [ih, ends]
    · rfl

/-- With a last coefficient other than zero, their number tells the degree. -/
theorem natDegree_polynomialOf {l : List ℤ} (hne : l ≠ []) (last : l.getLast hne ≠ 0) :
    (polynomialOf l).natDegree + 1 = l.length := by
  have positive := List.length_pos_iff.2 hne
  have top : (polynomialOf l).coeff (l.length - 1) ≠ 0 := by
    rw [coeff_polynomialOf, List.getD_eq_getElem _ _ (by omega), ← List.getLast_eq_getElem hne]
    exact last
  have above : (polynomialOf l).natDegree ≤ l.length - 1 := by
    refine natDegree_le_iff_coeff_eq_zero.2 fun k hk => ?_
    rw [coeff_polynomialOf, List.getD_eq_default _ _ (by omega)]
  have below := le_natDegree_of_ne_zero top
  omega

/-! ## Coefficients that are found -/

namespace Expr

theorem plus_ofInt (a b : ℤ) : plus (.ofInt a) (.ofInt b) = .ofInt (a + b) := by
  have sum : plus (ofPolynomial "" (C a)) (ofPolynomial "" (C b)) = ofPolynomial "" (C a + C b) :=
    plus_ofPolynomial _ _
  rwa [← C_add, ofPolynomial_C, ofPolynomial_C, ofPolynomial_C] at sum

/-- Nothing is multiplied out in a number. -/
theorem expand_ofInt (c : ℤ) : (ofInt c).expand = .ofInt c := by
  have up (f : Expr → Expr) : mapUp f (ofInt c) = f (ofInt c) := by rw [ofInt, mapUp]
  have logs : expandLogStep false (ofInt c) = ofInt c := rfl
  have multinomial : expandMultinomialStep (ofInt c) = ofInt c := rfl
  have products : expandMulStep (ofInt c) = ofInt c := rfl
  have bases : expandPowerBaseStep (ofInt c) = ofInt c := rfl
  have exponents : expandPowerExpStep (ofInt c) = ofInt c := rfl
  unfold expand
  simp only [up, logs, multinomial, products, bases, exponents]
  rw [expandLoop]
  simp only [up, logs, multinomial, products, if_true]

end Expr

namespace Coefficients

open Reckoner.Expr

/-- The coefficients are whole, and those of the polynomial. -/
def Represents (l : Coefficients) (p : ℤ[X]) : Prop :=
  ∃ m : List ℤ, l = m.map .ofInt ∧ polynomialOf m = p

variable {l m : Coefficients} {p q : ℤ[X]}

theorem represents_nil : Represents [] 0 := ⟨[], rfl, rfl⟩

theorem represents_ofInt (c : ℤ) : Represents [.ofInt c] (C c) :=
  ⟨[c], rfl, by simp [polynomialOf]⟩

theorem represents_unknown : Represents [.zero, .one] X :=
  ⟨[0, 1], by simp [zero_eq_ofInt, one_eq_ofInt], by simp [polynomialOf]⟩

theorem Represents.add (hl : Represents l p) (hm : Represents m q) :
    Represents (Coefficients.add l m) (p + q) := by
  obtain ⟨a, rfl, rfl⟩ := hl
  obtain ⟨b, rfl, rfl⟩ := hm
  induction a generalizing b with
  | nil => exact ⟨b, by simp [Coefficients.add], by simp [polynomialOf]⟩
  | cons c a ih =>
    cases b with
    | nil => exact ⟨c :: a, by simp [Coefficients.add], by simp [polynomialOf]⟩
    | cons d b =>
      obtain ⟨sum, hsum, value⟩ := ih b
      refine ⟨(c + d) :: sum, ?_, ?_⟩
      · simp only [List.map_cons, Coefficients.add, plus_ofInt, hsum]
      · simp only [polynomialOf, value, C_add]
        ring

theorem Represents.times (c : ℤ) (hm : Represents m q) :
    Represents (m.map (Expr.times (.ofInt c))) (C c * q) := by
  obtain ⟨b, rfl, rfl⟩ := hm
  refine ⟨b.map (c * ·), ?_, ?_⟩
  · simp [times_ofInt]
  · induction b with
    | nil => simp [polynomialOf]
    | cons d b ih =>
      simp only [List.map_cons, polynomialOf, ih, C_mul]
      ring

theorem Represents.shift (h : Represents l p) : Represents (Expr.zero :: l) (X * p) := by
  obtain ⟨a, rfl, rfl⟩ := h
  exact ⟨0 :: a, by simp [zero_eq_ofInt], by simp [polynomialOf]⟩

theorem Represents.mul (hl : Represents l p) (hm : Represents m q) :
    Represents (Coefficients.mul l m) (p * q) := by
  obtain ⟨a, rfl, rfl⟩ := hl
  induction a with
  | nil =>
    rw [polynomialOf, zero_mul]
    exact represents_nil
  | cons c a ih =>
    have sum := (hm.times c).add ih.shift
    have value : C c * q + X * (polynomialOf a * q) = polynomialOf (c :: a) * q := by
      rw [polynomialOf]
      ring
    rwa [value] at sum

theorem Represents.pow (h : Represents l p) (n : ℕ) :
    Represents (Coefficients.pow l n) (p ^ n) := by
  induction n with
  | zero =>
    have one := represents_ofInt 1
    rwa [← one_eq_ofInt, C_1] at one
  | succ n ih =>
    rw [pow_succ']
    exact h.mul ih

/-- Trimmed, the coefficients of a polynomial end with the leading one. -/
theorem Represents.trim (h : Represents l p) : ∃ m : List ℤ, l.trim = m.map .ofInt ∧
    polynomialOf m = p ∧ ∀ hne : m ≠ [], m.getLast hne ≠ 0 := by
  obtain ⟨a, rfl, rfl⟩ := h
  refine ⟨a.rdropWhile (· = 0), ?_, polynomialOf_trimmed a, fun hne => ?_⟩
  · have zero : (fun a : Expr => a.expand.isZero? == some true) ∘ Expr.ofInt = (· = (0 : ℤ)) := by
      funext c
      rw [Function.comp_apply, expand_ofInt]
      by_cases h : c = 0
      · subst h
        rfl
      · simp [isZero?_ofInt h, h]
    unfold Coefficients.trim List.rdropWhile
    rw [← List.map_reverse, List.dropWhile_map, zero, List.map_reverse]
  · simpa using List.rdropWhile_last_not _ a hne

end Coefficients

namespace Expr

variable (name : String)

open Coefficients

theorem coefficients_unknownPower (k : ℕ) :
    ∃ l, coefficients? name (unknownPower name k) = some l ∧ Represents l (X ^ k) := by
  unfold unknownPower
  split_ifs with h1
  · refine ⟨[.zero, .one], ?_, by rw [h1, pow_one]; exact represents_unknown⟩
    simp [coefficients?]
  · refine ⟨Coefficients.pow [.zero, .one] k, ?_, represents_unknown.pow k⟩
    have within : (Expr.pow (.sym name) (.ofInt k)).hasSymbol name = true := by
      simp [hasSymbol, any]
    have exponent : (ofInt k).hasSymbol name = false := by simp [hasSymbol, ofInt, any]
    simp [coefficients?, within, exponent, int?_ofInt]

theorem coefficients_partOf (t : ℤ × ℕ) :
    ∃ l, coefficients? name (partOf name t) = some l ∧ Represents l (monomial t.2 t.1) := by
  obtain ⟨c, k⟩ := t
  have number : coefficients? name (.ofInt c) = some [.ofInt c] := rfl
  unfold partOf
  by_cases hk : k = 0
  · subst hk
    exact ⟨[.ofInt c], rfl, by rw [monomial_zero_left]; exact represents_ofInt c⟩
  · obtain ⟨l, hl, power⟩ := coefficients_unknownPower name k
    simp only [hk, if_false]
    unfold scaledPower
    split_ifs with h1
    · refine ⟨l, hl, ?_⟩
      rwa [h1, monomial_one_right_eq_X_pow]
    · have product := ((represents_ofInt 1).mul (represents_ofInt c)).mul power
      rw [C_1, one_mul, C_mul_X_pow_eq_monomial, ← one_eq_ofInt] at product
      refine ⟨_, ?_, product⟩
      simp [coefficients?, coefficientLists?, number, hl]

theorem coefficientLists_parts (l : List (ℤ × ℕ)) :
    ∃ ls, coefficientLists? name (l.map (partOf name)) = some ls ∧
      ∀ {acc p}, Represents acc p →
        Represents (ls.foldl Coefficients.add acc) (p + partsSum l) := by
  induction l with
  | nil => exact ⟨[], rfl, by simp [partsSum]⟩
  | cons t l ih =>
    obtain ⟨ls, hls, sums⟩ := ih
    obtain ⟨m, hm, part⟩ := coefficients_partOf name t
    refine ⟨m :: ls, ?_, fun {acc p} h => ?_⟩
    · simp [coefficientLists?, hm, hls]
    · have sum := sums (h.add part)
      rw [add_assoc] at sum
      simpa [partsSum] using sum

/-- The coefficients that are found are those of the polynomial. -/
theorem coefficients_ofPolynomial (p : ℤ[X]) :
    ∃ l, coefficients? name (ofPolynomial name p) = some l ∧ Represents l p := by
  rcases ofPolynomial_cases name p with
    ⟨c, rfl, eq⟩ | ⟨c, k, hc, hk, rfl, eq⟩ | ⟨s, t, l, parts, eq⟩
  · rw [eq]
    exact ⟨[.ofInt c], rfl, represents_ofInt c⟩
  · obtain ⟨m, hm, part⟩ := coefficients_partOf name (c, k)
    rw [eq]
    refine ⟨m, ?_, part⟩
    rw [← hm, partOf, if_neg hk]
  · obtain ⟨ls, hls, sums⟩ := coefficientLists_parts name (s :: t :: l)
    have sum := sums represents_nil
    rw [zero_add, ← parts, partsSum_polynomialParts] at sum
    rw [eq]
    refine ⟨_, ?_, sum⟩
    rw [coefficients?, hls]
    rfl

/-! ## Nodes that pass a test -/

/-- Where neither a sum nor zero passes, a part of a sum does. -/
theorem any_rawSum {test : Expr → Bool} (sums : ∀ l, test (.sum l) = false)
    (zero : test .zero = false) (l : List Expr) : (rawSum l).any test = l.any (any test) := by
  match l with
  | [] => exact zero
  | [x] => rw [rawSum, List.any_cons, List.any_nil, Bool.or_false]
  | x :: y :: l => exact (congrArg (· || _) (sums _)).trans (anyList_eq test _)

end Expr

namespace Symbolic

open Reckoner.Expr

variable (name : String)

theorem secondDegree_eq (p : ℤ[X]) : secondDegree? name (ofPolynomial name p) =
    if p.natDegree = 2 then some [.ofInt (p.coeff 0), .ofInt (p.coeff 1), .ofInt (p.coeff 2)]
    else none := by
  obtain ⟨l, hl, represents⟩ := coefficients_ofPolynomial name p
  obtain ⟨m, trimmed, value, last⟩ := represents.trim
  have degree : m.length = 3 ↔ p.natDegree = 2 := by
    by_cases hne : m = []
    · subst hne
      rw [← value]
      simp [polynomialOf]
    · have := natDegree_polynomialOf hne (last hne)
      rw [value] at this
      omega
  unfold secondDegree?
  rw [hl, Option.map_some, trimmed]
  by_cases h : p.natDegree = 2
  · obtain ⟨c, b, a, rfl⟩ := List.length_eq_three.1 (degree.2 h)
    rw [if_pos h, ← value]
    simp [coeff_polynomialOf]
  · have other := mt degree.1 h
    rw [if_neg h]
    match m with
    | [] | [_] | [_, _] | _ :: _ :: _ :: _ :: _ => rfl
    | [_, _, _] => exact absurd rfl other

/-! ## Powers above the first -/

theorem isAboveOne_ofInt (k : ℤ) : isAboveOne (.ofInt k) = decide (1 < k) := by
  have real : (ofInt k).isRealNumber = true := by
    simp [isRealNumber, isClosed, any, ofInt, isReal?]
  have less : (ofInt k).sub .one = .ofInt (k - 1) := by
    simp [sub, one, ofInt, Number.sub, Number.add, Number.neg, sub_eq_add_neg]
  unfold isAboveOne
  rw [real, less, Bool.true_and]
  change (some ((k - 1 : ℤ) : ℚ).num.sign == some 1) = _
  rw [Rat.num_intCast, Bool.eq_iff_iff]
  simp [Int.sign_eq_one_iff_pos]

theorem hasExponent_unknownPower (k : ℕ) :
    hasExponent name (unknownPower name k) = decide (2 ≤ k) := by
  unfold unknownPower
  split_ifs with h1
  · simp [hasExponent, any, h1]
  · have exponent : (ofInt k).hasSymbol name = false := by simp [hasSymbol, ofInt, any]
    have base : (sym name).hasSymbol name = true := by simp [hasSymbol, any]
    have inner : hasExponent name (ofInt k) = false := by simp [hasExponent, ofInt, any]
    have above : isAboveOne (.ofInt k) = decide (2 ≤ k) := by
      rw [isAboveOne_ofInt, decide_eq_decide]
      omega
    unfold hasExponent at *
    simp [any, exponent, base, inner, above]

theorem hasExponent_partOf (t : ℤ × ℕ) : hasExponent name (partOf name t) = decide (2 ≤ t.2) := by
  obtain ⟨c, k⟩ := t
  have power := hasExponent_unknownPower name k
  unfold partOf
  by_cases hk : k = 0
  · simp [hk, hasExponent, ofInt, any]
  · simp only [hk, if_false]
    unfold scaledPower
    split_ifs with h1
    · exact power
    · have number : hasExponent name (ofInt c) = false := by simp [hasExponent, ofInt, any]
      unfold hasExponent at *
      simp [any, anyList, number, power]

/-- The unknown has an exponent above one from the second degree on. -/
theorem hasExponent_ofPolynomial (p : ℤ[X]) :
    hasExponent name (ofPolynomial name p) = decide (2 ≤ p.natDegree) := by
  have parts : hasExponent name (rawSum ((polynomialParts name p).map (partOf name))) =
      ((polynomialParts name p).map (partOf name)).any (hasExponent name) :=
    any_rawSum (fun _ => rfl) rfl _
  rw [ofPolynomial_eq_parts, parts, List.any_map, Bool.eq_iff_iff, List.any_eq_true,
    decide_eq_true_iff]
  simp only [Function.comp_apply, hasExponent_partOf, decide_eq_true_iff]
  constructor
  · rintro ⟨t, ht, high⟩
    obtain ⟨nonzero, coeff⟩ := mem_polynomialParts.1 ht
    exact high.trans (le_natDegree_of_ne_zero (coeff.symm ▸ nonzero))
  · intro high
    refine ⟨(p.leadingCoeff, p.natDegree), mem_polynomialParts.2 ⟨?_, rfl⟩, high⟩
    rw [Ne, leadingCoeff_eq_zero]
    rintro rfl
    simp at high

end Symbolic

end Reckoner
