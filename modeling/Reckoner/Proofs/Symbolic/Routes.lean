-- How an equation of two sums of powers is solved. Its sides are read as the polynomials that are
-- written, and the degree of their difference tells the way that is taken.
import Mathlib
import Reckoner.Proofs.Reading.WrittenSum
import Reckoner.Proofs.Symbolic.Degree
import Reckoner.Proofs.Symbolic.Formula
import Reckoner.Proofs.Symbolic.Line
import Reckoner.Proofs.Text.Pieces

namespace Reckoner

open Polynomial

/-! ## Sides -/

theorem marksText_no_equals (l : List (ℕ × Mark)) : '=' ∉ marksText l := by
  have mark (m : Mark) : '=' ∉ m.chars := by
    cases m with
    | number n => exact fun h => absurd (digitsOf_digits n _ h) (by decide)
    | _ => decide
  simp only [marksText, List.mem_flatMap, List.mem_append, not_exists, not_and, not_or]
  refine fun p _ => ⟨fun h => ?_, mark p.2⟩
  exact absurd (List.eq_of_mem_replicate h) (by decide)

variable {s left right : WrittenSum} {text l r : String}

namespace WrittenSum

theorem Shows.no_equals (shows : s.Shows text) : '=' ∉ text.toList := by
  obtain ⟨marks, -, rfl⟩ := shows
  rw [String.toList_ofList]
  exact marksText_no_equals marks

/-- Without the spaces around it a text shows the same sum. -/
theorem Shows.strip (shows : s.Shows text) (front back : ℕ) :
    ∃ t, stripText (String.ofList (List.replicate front ' ' ++ text.toList ++
      List.replicate back ' ')) = t ∧ s.Shows t ∧ t.length ≤ text.length := by
  obtain ⟨marks, eq, rfl⟩ := shows
  match marks with
  | [] => exact absurd eq.symm s.marks_ne_nil
  | (n, m) :: rest =>
    have spaces : List.replicate front ' ' ++ marksText ((n, m) :: rest) =
        marksText ((front + n, m) :: rest) := by
      rw [marksText_cons, marksText_cons, ← List.append_assoc, List.replicate_append_replicate]
    have spread : Spread ((front + n, m) :: rest) := by
      change (((n, m) :: rest).map Prod.snd).IsChain Mark.Apart
      rw [eq]
      exact s.marks_spread
    refine ⟨String.ofList (marksText ((0, m) :: rest)), ?_, ⟨(0, m) :: rest, eq, rfl⟩, ?_⟩
    · rw [stripText, String.toList_ofList, String.toList_ofList, spaces, stripBlank_marksText spread]
    · simp [marksText]

/-- The sides of an equation show the sums on either side of its sign. -/
theorem sidesOf_shows (hl : left.Shows l) (hr : right.Shows r) :
    ∃ l' r', Symbolic.sidesOf? (l ++ " = " ++ r) = some (l', r') ∧
      (left.Shows l' ∧ l'.length ≤ l.length) ∧ right.Shows r' ∧ r'.length ≤ r.length := by
  obtain ⟨l', strip, shown⟩ := hl.strip 0 1
  obtain ⟨r', strip', shown'⟩ := hr.strip 1 0
  refine ⟨l', r', ?_, shown, shown'⟩
  have text : (l ++ " = " ++ r).toList = (l.toList ++ [' ']) ++ '=' :: (' ' :: r.toList) := by
    simp
  have left : '=' ∉ l.toList ++ [' '] := by simpa using hl.no_equals
  have right : '=' ∉ ' ' :: r.toList := by simpa using hr.no_equals
  rw [Symbolic.sidesOf?, splitText, text, splitChars_append _ left, splitChars_of_not_mem right]
  rw [List.replicate_zero, List.nil_append] at strip
  rw [List.replicate_zero, List.append_nil] at strip'
  exact congrArg some (Prod.ext strip strip')

end WrittenSum

/-! ## Sizes of coefficients -/

/-- The degree is at most `d`, and no coefficient is larger than `b`. -/
structure Within (d : ℕ) (b : ℤ) (p : ℤ[X]) : Prop where
  degree : p.natDegree ≤ d
  size : ∀ k, |p.coeff k| ≤ b

namespace Within

variable {d : ℕ} {a b : ℤ} {p q : ℤ[X]}

theorem zero (d : ℕ) : Within d 0 0 := ⟨by simp, by simp⟩

theorem neg (h : Within d b p) : Within d b (-p) := by
  refine ⟨by rw [natDegree_neg]; exact h.degree, fun k => ?_⟩
  rw [coeff_neg, abs_neg]
  exact h.size k

theorem add (hp : Within d a p) (hq : Within d b q) : Within d (a + b) (p + q) := by
  refine ⟨natDegree_add_le_of_degree_le hp.degree hq.degree, fun k => ?_⟩
  rw [coeff_add]
  exact (abs_add_le _ _).trans (add_le_add (hp.size k) (hq.size k))

theorem sub (hp : Within d a p) (hq : Within d b q) : Within d (a + b) (p - q) := by
  rw [sub_eq_add_neg]
  exact hp.add hq.neg

theorem mono (h : Within d a p) (hab : a ≤ b) : Within d b p :=
  ⟨h.degree, fun k => (h.size k).trans hab⟩

end Within

/-- The polynomial of a modest term. -/
theorem WrittenTerm.within {t : WrittenTerm} (size : t.product.size ≤ 10 ^ 15)
    (exponent : t.product.exponent ≤ 100) : Within 100 (10 ^ 15) t.polynomial := by
  have coefficient : |t.coefficient| ≤ 10 ^ 15 := by
    have same : |t.coefficient| = t.product.size := by
      unfold coefficient
      split_ifs <;> simp
    rw [same]
    exact_mod_cast size
  refine ⟨(natDegree_monomial_le _).trans exponent, fun k => ?_⟩
  rw [polynomial, coeff_monomial]
  split_ifs
  · exact coefficient
  · simp

theorem length_le_termMarks (rest : List (Bool × WrittenTerm)) :
    rest.length ≤ (termMarks rest).length := by
  induction rest with
  | nil => exact Nat.zero_le _
  | cons p rest ih =>
    obtain ⟨minus, t⟩ := p
    rw [termMarks_cons]
    simp only [List.length_cons, List.length_append]
    omega

theorem length_le_marksText (l : List (ℕ × Mark)) : l.length ≤ (marksText l).length := by
  induction l with
  | nil => exact Nat.zero_le _
  | cons p l ih =>
    obtain ⟨n, m⟩ := p
    have some := List.length_pos_iff.2 (m.chars_word ▸ m.word.chars_ne_nil (m.allowed_word []))
    rw [marksText_cons]
    simp only [List.length_append, List.length_cons, List.length_replicate]
    omega

namespace WrittenSum

/-- A sum has no more terms than its text has characters. -/
theorem Shows.length_terms (shows : s.Shows text) : s.terms.length ≤ text.length := by
  obtain ⟨l, eq, rfl⟩ := shows
  have first : 0 < s.first.marks.length := by
    refine List.length_pos_iff.2 fun h => s.first.readTokens_ne_nil ?_
    rw [h]
    rfl
  have rest := length_le_termMarks s.rest
  have characters := length_le_marksText l
  have marks : l.length = s.first.marks.length + (termMarks s.rest).length := by
    rw [← List.length_map (f := Prod.snd), eq, marks, List.length_append]
  rw [String.length_ofList, terms, List.length_cons, List.length_map]
  omega

/-- Every further term adds to the coefficients by no more than its own. -/
theorem within_rest {rest : List (Bool × WrittenTerm)}
    (modest : ∀ t ∈ rest.map Prod.snd, t.product.size ≤ 10 ^ 15 ∧ t.product.exponent ≤ 100) :
    Within 100 (rest.length * 10 ^ 15)
      (rest.map fun (minus, t) => if minus then -t.polynomial else t.polynomial).sum := by
  induction rest with
  | nil => simpa using Within.zero 100
  | cons p rest ih =>
    obtain ⟨minus, t⟩ := p
    obtain ⟨⟨size, exponent⟩, later⟩ := List.forall_mem_cons.1 modest
    have term := WrittenTerm.within size exponent
    have signed : Within 100 (10 ^ 15) (if minus then -t.polynomial else t.polynomial) := by
      cases minus
      · exact term
      · exact term.neg
    rw [List.map_cons, List.sum_cons, List.length_cons, Nat.cast_succ, add_one_mul, add_comm]
    exact signed.add (ih later)

theorem IsModest.within (modest : s.IsModest) :
    Within 100 (s.terms.length * 10 ^ 15) s.polynomial := by
  obtain ⟨first, later⟩ := List.forall_mem_cons.1 modest
  refine ((WrittenTerm.within first.1 first.2).add (within_rest later)).mono (le_of_eq ?_)
  rw [terms, List.length_cons, List.length_map, Nat.cast_succ, add_one_mul, add_comm]

/-- The difference of two sums that are written in five hundred characters each. -/
theorem within_difference (hl : left.Shows l) (hr : right.Shows r) (leftModest : left.IsModest)
    (rightModest : right.IsModest) (leftShort : l.length ≤ 500) (rightShort : r.length ≤ 500) :
    Within 100 (10 ^ 18) (left.polynomial - right.polynomial) := by
  refine (leftModest.within.sub rightModest.within).mono ?_
  have leftTerms : (left.terms.length : ℤ) ≤ 500 := by
    exact_mod_cast hl.length_terms.trans leftShort
  have rightTerms : (right.terms.length : ℤ) ≤ 500 := by
    exact_mod_cast hr.length_terms.trans rightShort
  omega

end WrittenSum

/-! ## Texts of polynomials -/

namespace Expr

variable {name : String}

theorem lt_maxDigits {n : ℕ} (h : n < 2 ^ 60) : n < 10 ^ maxDigits := by
  have low : (2 : ℕ) ^ 60 ≤ 10 ^ 60 := Nat.pow_le_pow_left (by decide) 60
  have high : (10 : ℕ) ^ 60 ≤ 10 ^ maxDigits := Nat.pow_le_pow_right (by decide) (by decide)
  omega

theorem isTooLong_ofInt {c : ℤ} (h : c.natAbs < 2 ^ 60) : (ofInt c).isTooLong = false := by
  have number := lt_maxDigits h
  have one : 1 < 10 ^ maxDigits := lt_maxDigits (by decide)
  simp only [isTooLong, ofInt, any, Rat.num_intCast, Rat.den_intCast, Bool.or_eq_false_iff]
  exact ⟨decide_eq_false (by omega), decide_eq_false (by omega)⟩

theorem isTooLong_partOf (name : String) {t : ℤ × ℕ} (coefficient : t.1.natAbs < 2 ^ 60)
    (exponent : t.2 < 2 ^ 60) : (partOf name t).isTooLong = false := by
  obtain ⟨c, k⟩ := t
  have number := isTooLong_ofInt coefficient
  have power : (unknownPower name k).isTooLong = false := by
    unfold unknownPower
    have raised : (ofInt k).isTooLong = false := isTooLong_ofInt exponent
    split_ifs
    · rfl
    · unfold isTooLong at *
      simp [any, raised]
  unfold partOf scaledPower
  split_ifs
  · exact number
  · exact power
  · unfold isTooLong at *
    simp [any, anyList, number, power]

/-- A polynomial with moderate coefficients and exponents can be written. -/
theorem isTooLong_ofPolynomial {p : ℤ[X]} (coefficients : ∀ k, (p.coeff k).natAbs < 2 ^ 60)
    (degree : p.natDegree < 2 ^ 60) : (ofPolynomial name p).isTooLong = false := by
  have none : Expr.zero.isTooLong = false := isTooLong_ofInt (c := 0) (by decide)
  have parts : (rawSum ((polynomialParts name p).map (partOf name))).isTooLong =
      ((polynomialParts name p).map (partOf name)).any isTooLong :=
    any_rawSum (fun _ => rfl) (by exact none) _
  rw [ofPolynomial_eq_parts, parts, List.any_map, List.any_eq_false]
  intro t ht
  obtain ⟨nonzero, coeff⟩ := mem_polynomialParts.1 ht
  have exponent : t.2 ≤ p.natDegree := le_natDegree_of_ne_zero (coeff.symm ▸ nonzero)
  have part := isTooLong_partOf name (coeff ▸ coefficients t.2) (exponent.trans_lt degree)
  simp [part]

end Expr

namespace Symbolic

open Reckoner.Expr

/-! ## Routes -/

/-- The quadratic formula is given the coefficients `a`, `b` and `c`, as they are, and succeeds. -/
structure ByFormula (name : String) (x : Expr) (a b c : ℤ) (s : Solution) : Prop where
  coefficients : secondDegree? name x = some [.ofInt c, .ofInt b, .ofInt a]
  formula :
    Quadratic.solution ⟨(ofInt a).toDouble, (ofInt b).toDouble, (ofInt c).toDouble⟩ name = .ok s
  method : s.method = "quadratic_formula"
  success : s.success = true

/-- The solution comes by the way for the degree of the polynomial: a line is scanned, the second
degree has a formula, and above it the expression is told. -/
structure ByDegree (name : String) (p : ℤ[X]) (s : Solution) : Prop where
  line : p.natDegree ≤ 1 → s.method = "linear"
  second : p.natDegree = 2 →
    ByFormula name (ofPolynomial name p) (p.coeff 2) (p.coeff 1) (p.coeff 0) s
  above : 3 ≤ p.natDegree →
    s = .failure "symbolic_equation" "Complex equations require symbolic solver" []
      [("expression", (ofPolynomial name p).text)]

/-- A polynomial with moderate coefficients is solved by the way for its degree. -/
theorem solveZero_byDegree (name : String) {p : ℤ[X]}
    (coefficients : ∀ k, (p.coeff k).natAbs < 2 ^ 60) (degree : p.natDegree < 2 ^ 60) :
    ∃ s, solveZero (ofPolynomial name p) name = .ok s ∧ ByDegree name p s := by
  have short : ¬ (ofPolynomial name p).isTooLong := by
    simp [isTooLong_ofPolynomial coefficients degree]
  have exponent := hasExponent_ofPolynomial name p
  have quadratic := secondDegree_eq name p
  unfold solveZero
  rcases lt_trichotomy p.natDegree 2 with line | second | above
  · have small : ∀ k, (p.coeff k).natAbs < 2 ^ 63 := fun k =>
      (coefficients k).trans (Nat.pow_lt_pow_right one_lt_two (by decide))
    obtain ⟨s, hs, method⟩ := solveByScan_line name (by omega) small short
    rw [if_neg (by simpa [exponent] using line)]
    exact ⟨s, hs, fun _ => method, fun _ => by omega, fun _ => by omega⟩
  · have lead : p.coeff 2 ≠ 0 := by
      rw [← second, Ne, coeff_natDegree, leadingCoeff_eq_zero]
      rintro rfl
      simp at second
    obtain ⟨s, formula, hs, method, success⟩ := solveQuadratic_whole (ofPolynomial name p) name lead
      (coefficients 2) (coefficients 1) (coefficients 0)
    rw [if_pos second] at quadratic
    rw [if_pos (by simp [exponent, second]), quadratic]
    exact ⟨s, hs, fun _ => by omega, fun _ => ⟨quadratic, formula, method, success⟩,
      fun _ => by omega⟩
  · rw [if_neg (by omega)] at quadratic
    rw [if_pos (by simp [exponent]; omega), quadratic]
    dsimp only
    rw [checkedText_of_short short]
    exact ⟨_, rfl, fun _ => by omega, fun _ => by omega, fun _ => rfl⟩

/-- An equation of two sums of powers of `x`, written in up to five hundred characters each with
coefficients up to `10 ^ 15` and exponents up to a hundred, is solved by the way for the degree of
the difference. The difference is one that simplification and multiplying out leave in its normal
form. -/
theorem equations_are_routed_by_their_degree {left right : WrittenSum} {l r : String}
    (leftShows : left.Shows l) (rightShows : right.Shows r) (leftModest : left.IsModest)
    (rightModest : right.IsModest) (leftShort : l.length ≤ 500) (rightShort : r.length ≤ 500)
    (normal : (ofPolynomial "x" (left.polynomial - right.polynomial)).simplify.expand =
      ofPolynomial "x" (left.polynomial - right.polynomial)) :
    ∃ s, (solveEquation (.text (l ++ " = " ++ r)) (.text "x")).outcome = .ok s ∧
      ByDegree "x" (left.polynomial - right.polynomial) s := by
  have within := WrittenSum.within_difference leftShows rightShows leftModest rightModest leftShort
    rightShort
  have coefficients : ∀ k, ((left.polynomial - right.polynomial).coeff k).natAbs < 2 ^ 60 := by
    intro k
    have size := within.size k
    rw [Int.abs_eq_natAbs] at size
    omega
  obtain ⟨s, hs, byDegree⟩ := solveZero_byDegree "x" coefficients
    (within.degree.trans_lt (by norm_num))
  refine ⟨s, ?_, byDegree⟩
  obtain ⟨l', r', sides, ⟨leftShown, leftShorter⟩, rightShown, rightShorter⟩ :=
    WrittenSum.sidesOf_shows leftShows rightShows
  have reads : readSides l' r' ["x"] =
      .ok (ofPolynomial "x" left.polynomial, ofPolynomial "x" right.polynomial) := by
    unfold readSides
    rw [WrittenSum.readExpression_shows leftShown leftModest (leftShorter.trans leftShort),
      WrittenSum.readExpression_shows rightShown rightModest (rightShorter.trans rightShort)]
    rfl
  have difference_eq : difference (ofPolynomial "x" left.polynomial)
      (ofPolynomial "x" right.polynomial) =
        ofPolynomial "x" (left.polynomial - right.polynomial) := by
    rw [difference, sub_ofPolynomial, normal]
  have short : ¬ (ofPolynomial "x" (left.polynomial - right.polynomial)).isTooLong := by
    simp [isTooLong_ofPolynomial coefficients (within.degree.trans_lt (by norm_num))]
  simp [solveEquation, equationArgument, sides, Value.toText, Except.mapError, reads, solveSides,
    unknownOf, difference_eq, checkedText_of_short short, noteRearranged, hs]

/-- The unknown stands on both sides, and the difference is of the second degree. -/
theorem a_quadratic_equation_is_solved_by_the_formula :
    ∃ s, (solveEquation (.text "x**2 = 5*x - 6") (.text "x")).outcome = .ok s ∧
      ByFormula "x" (ofPolynomial "x" (X ^ 2 + (C (-5) * X + C 6))) 1 (-5) 6 s := by
  let left : WrittenSum := ⟨⟨false, .power (.raised false 2)⟩, []⟩
  let right : WrittenSum := ⟨⟨false, .scaled 5 .alone⟩, [(true, ⟨false, .number 6⟩)]⟩
  have leftShows : left.Shows "x**2" :=
    ⟨[(0, .unknown), (0, .power), (0, .number 2)], rfl, by decide⟩
  have rightShows : right.Shows "5*x - 6" :=
    ⟨[(0, .number 5), (0, .times), (0, .unknown), (1, .minus), (1, .number 6)], rfl, by decide⟩
  have leftModest : left.IsModest := by
    unfold WrittenSum.IsModest
    decide
  have rightModest : right.IsModest := by
    unfold WrittenSum.IsModest
    decide
  have difference : left.polynomial - right.polynomial = X ^ 2 + (C (-5) * X + C 6) := by
    change (monomial 2 1 + 0 : ℤ[X]) - (monomial 1 5 + (-monomial 0 6 + 0)) = _
    rw [monomial_one_right_eq_X_pow, ← C_mul_X_eq_monomial, monomial_zero_left, C_neg]
    ring
  have expression : ofPolynomial "x" (X ^ 2 + (C (-5) * X + C 6)) =
      .sum [.ofInt 6, .pow (.sym "x") (.ofInt 2), .prod [.ofInt (-5), .sym "x"]] := by
    rw [← plus_ofPolynomial, ← plus_ofPolynomial, ← monomial_one_right_eq_X_pow,
      C_mul_X_eq_monomial, ofPolynomial_monomial one_ne_zero two_ne_zero,
      ofPolynomial_monomial (by decide) one_ne_zero, ofPolynomial_C]
    decide +kernel
  have normal : (ofPolynomial "x" (left.polynomial - right.polynomial)).simplify.expand =
      ofPolynomial "x" (left.polynomial - right.polynomial) := by
    rw [difference, expression]
    decide +kernel
  obtain ⟨s, solved, byDegree⟩ := equations_are_routed_by_their_degree leftShows rightShows
    leftModest rightModest (by decide) (by decide) normal
  rw [difference] at byDegree
  have degree : (X ^ 2 + (C (-5) * X + C 6) : ℤ[X]).natDegree = 2 := by compute_degree!
  have square : (X ^ 2 + (C (-5) * X + C 6) : ℤ[X]).coeff 2 = 1 := by simp [coeff_X]
  have middle : (X ^ 2 + (C (-5) * X + C 6) : ℤ[X]).coeff 1 = -5 := by simp
  have constant : (X ^ 2 + (C (-5) * X + C 6) : ℤ[X]).coeff 0 = 6 := by simp
  have formula := byDegree.second degree
  rw [square, middle, constant] at formula
  exact ⟨s, solved, formula⟩

end Symbolic

end Reckoner
