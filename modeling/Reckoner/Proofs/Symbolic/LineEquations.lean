-- Equations of the first degree as they are written. The text of a line with whole coefficients
-- is read as the line, simplification leaves it as it is, and the scan finds the root if it is a
-- tenth.
import Reckoner.Proofs.Algebra.SimpleLines
import Reckoner.Proofs.Reading.PhraseValues
import Reckoner.Proofs.Symbolic.LineScan
import Reckoner.Proofs.Symbolic.Routes

namespace Reckoner

open Polynomial

/-! ## Phrases with a bound unknown -/

theorem Word.Allowed.mono {bound : List String} {w : Word} (h : w.Allowed []) :
    w.Allowed bound := by
  cases w with
  | name s => exact ⟨h.1, h.2.imp_right fun other => .inr (other.resolve_left List.not_mem_nil)⟩
  | number n | sign o => trivial

namespace Phrase

section Bound

variable (p : Phrase .sum)

/-- The names in a phrase are its letters, with the unknown bound or without. -/
theorem namesOutcome_text (short : p.text.length ≤ 500) :
    namesOutcome p.text ["x"] = .ok (sortNames p.letters) := by
  obtain ⟨ws, words, chars, spaced⟩ := p.wellSpaced
  have bound : WellSpaced ["x"] ws := ⟨spaced.apart, fun q hq => (spaced.allowed q hq).mono⟩
  have some : ws ≠ [] := by
    rintro rfl
    have single : SingleLetters [] := fun _ h => by cases h
    exact (p.wholeWords single).ne_nil words.symm
  have nonblank : ¬ (stripBlank p.text.toList).isEmpty := by
    rw [text, String.toList_ofList, ← chars]
    simpa using bound.stripBlank_ne_nil some
  have names : symbolNames p.text ["x"] = .ok (sortNames p.letters) := by
    rw [text, ← chars, bound.symbolNames (by rw [chars]; simpa [text] using short),
      ← p.symbols_words, ← words, List.flatMap_map]
  have name : ["x"].find? (fun name => !isName name.toList) = none := by decide
  unfold namesOutcome
  rw [name]
  dsimp only
  rw [if_neg nonblank, names]

variable {p} {s : WrittenSum}

/-- A phrase with the tree of a sum of powers is read as the polynomial that is written. -/
theorem readExpression_polynomial (same : p.tree false = s.tree)
    (letters : ∀ l ∈ p.letters, l = "x") (deep : p.depth ≤ maxDepth) (modest : s.IsModest)
    (short : p.text.length ≤ 500) :
    readExpression p.text ["x"] = .ok (Expr.ofPolynomial "x" s.polynomial) := by
  have unknown : ∀ name ∈ sortNames p.letters ++ ["x"], name = "x" :=
    List.forall_mem_append.2 ⟨fun name h => letters name (mem_sortNames.1 h), by simp⟩
  have only : UnknownOnly (sortNames p.letters ++ ["x"]) := ⟨by simp, unknown⟩
  have single : SingleLetters (sortNames p.letters ++ ["x"]) :=
    fun name h => ⟨'x', by decide, unknown name h⟩
  have parsed : treeOutcome (sortNames p.letters ++ ["x"]) p.text = .ok s.tree := by
    rw [treeOutcome, p.parseTree_text single deep, same]
  obtain ⟨w, hw, algebraic, x, hx, small⟩ := s.writesSmall only modest
  have written : s.tree.writtenOutcome (sortNames p.letters ++ ["x"]) p.text = .ok x := by
    simp [Tree.writtenOutcome, hw, algebraic, hx]
  have truths : checkTruths (sortNames p.letters ++ ["x"]) s.tree = .ok () := by
    refine checkTruths_of_no_truth fun name hname => ?_
    rw [termsTree_names s.rest s.first.names name hname]
    rfl
  have meaning : s.tree.meaningOutcome (sortNames p.letters ++ ["x"]) p.text =
      .ok (Expr.ofPolynomial "x" s.polynomial) := by
    rw [Tree.meaningOutcome, s.meaning only]
  rw [readExpression_eq, p.namesOutcome_text short, ok_bind, parsed, ok_bind, workOut_eq, written,
    ok_bind, truths, ok_bind, small.checkPowers, ok_bind, meaning]

end Bound

end Phrase

namespace Symbolic

/-! ## Lines -/

/-- The unknown with a coefficient, and a number in brackets. -/
def linePhrase (a b : ℤ) : Phrase .sum :=
  .plus (.term (decide (a < 0)) (.times (.factor (.alone (.number a.natAbs)))
      (.alone (.letter 'x' (by decide)))))
    (.factor (.alone (.brackets (.term (decide (b < 0)) (.factor (.alone (.number b.natAbs)))))))

/-- The sum of powers that is written without the brackets. -/
def lineSum (a b : ℤ) : WrittenSum :=
  ⟨⟨decide (a < 0), .scaled a.natAbs .alone⟩, [(false, ⟨decide (b < 0), .number b.natAbs⟩)]⟩

theorem tree_linePhrase (a b : ℤ) : (linePhrase a b).tree false = (lineSum a b).tree := rfl

theorem text_linePhrase (a b : ℤ) :
    (linePhrase a b).text = intText a ++ "*x + (" ++ intText b ++ ")" := by
  rw [← String.toList_inj, Phrase.text, String.toList_ofList]
  simp [linePhrase, Phrase.chars, chars_intText]

theorem polynomial_lineSum (a b : ℤ) : (lineSum a b).polynomial = C b + monomial 1 a := by
  have signed : ∀ n : ℤ, (if decide (n < 0) then -(n.natAbs : ℤ) else n.natAbs) = n := by
    intro n
    by_cases negative : n < 0
    · rw [decide_eq_true negative, if_pos rfl]
      omega
    · rw [decide_eq_false negative, if_neg Bool.false_ne_true]
      omega
  have first : (lineSum a b).first.polynomial = monomial 1 a :=
    congrArg (monomial 1) (signed a)
  have second : WrittenTerm.polynomial ⟨decide (b < 0), .number b.natAbs⟩ = C b := by
    rw [← monomial_zero_left]
    exact congrArg (monomial 0) (signed b)
  unfold WrittenSum.polynomial
  rw [first, lineSum, List.map_singleton, List.sum_singleton]
  simp only [Bool.false_eq_true, if_false]
  rw [second, add_comm]

/-! ## Reading -/

theorem length_digitsOf {n : ℕ} (few : n ≤ 10 ^ 6) : (digitsOf n).length ≤ 7 :=
  (Nat.length_repr_le_iff (by decide)).2 (few.trans_lt (by decide))

theorem readExpression_linePhrase {a b : ℤ} (ha : |a| ≤ 10 ^ 6) (hb : |b| ≤ 10 ^ 6) :
    readExpression (linePhrase a b).text ["x"] =
      .ok (Expr.ofPolynomial "x" (C b + monomial 1 a)) := by
  have sizeA : a.natAbs ≤ 10 ^ 6 := by
    rw [Int.abs_eq_natAbs] at ha
    exact_mod_cast ha
  have sizeB : b.natAbs ≤ 10 ^ 6 := by
    rw [Int.abs_eq_natAbs] at hb
    exact_mod_cast hb
  have modest : (lineSum a b).IsModest := by
    refine List.forall_mem_cons.2 ⟨⟨?_, (by decide : 1 ≤ 100)⟩,
      List.forall_mem_singleton.2 ⟨?_, (by decide : 0 ≤ 100)⟩⟩
    · exact sizeA.trans (by decide)
    · exact sizeB.trans (by decide)
  have short : (linePhrase a b).text.length ≤ 500 := by
    have sign : ∀ n : ℤ, (if decide (n < 0) then ['-'] else []).length ≤ 1 := by
      intro n
      split_ifs <;> simp
    have lengthA := length_digitsOf sizeA
    have lengthB := length_digitsOf sizeB
    have signA := sign a
    have signB := sign b
    rw [Phrase.text, String.length_ofList]
    simp only [linePhrase, Phrase.chars, List.length_append, List.length_cons, List.length_nil]
    omega
  have read := Phrase.readExpression_polynomial (tree_linePhrase a b)
    (fun l h => List.mem_singleton.1 h) (by decide : 2 ≤ maxDepth) modest short
  rw [read, polynomial_lineSum]

theorem readExpression_zero : readExpression "0" ["x"] = .ok (Expr.ofPolynomial "x" 0) := by
  have shows : WrittenSum.Shows ⟨⟨false, .number 0⟩, []⟩ "0" := ⟨[(0, .number 0)], rfl, by decide⟩
  have modest : WrittenSum.IsModest ⟨⟨false, .number 0⟩, []⟩ := by
    unfold WrittenSum.IsModest
    decide
  have polynomial : WrittenSum.polynomial ⟨⟨false, .number 0⟩, []⟩ = 0 := by
    change monomial 0 (0 : ℤ) + 0 = 0
    rw [monomial_zero_right, add_zero]
  rw [WrittenSum.readExpression_shows shows modest (by decide), polynomial]

/-- The text of a line that is to be zero. -/
def lineEquation (a b : ℤ) : String := intText a ++ "*x + (" ++ intText b ++ ") = 0"

theorem intText_chars (n : ℤ) : ∀ c ∈ (intText n).toList, c = '-' ∨ isAsciiDigit c = true := by
  intro c hc
  rw [chars_intText, List.mem_append] at hc
  rcases hc with sign | digit
  · split_ifs at sign
    · exact .inl (List.mem_singleton.1 sign)
    · cases sign
  · exact .inr (digitsOf_digits _ c digit)

theorem not_isBlank_intText (n : ℤ) : ∀ c ∈ (intText n).toList, isBlank c = false := by
  intro c hc
  rcases intText_chars n c hc with rfl | digit
  · decide
  · by_contra blank
    exact not_isNameChar_of_isBlank (by simpa using blank) (isNameChar_of_isAsciiDigit digit)

theorem intText_ne_nil (n : ℤ) : (intText n).toList ≠ [] := by
  rw [chars_intText]
  exact List.append_ne_nil_of_right_ne_nil _ (digitsOf_ne_nil _)

theorem sidesOf_lineEquation (a b : ℤ) :
    sidesOf? (lineEquation a b) = some ((linePhrase a b).text, "0") := by
  have text : (lineEquation a b).toList =
      ((linePhrase a b).text.toList ++ [' ']) ++ '=' :: [' ', '0'] := by
    rw [text_linePhrase]
    simp [lineEquation]
  have shape : (linePhrase a b).text.toList =
      (intText a).toList ++ (['*', 'x', ' ', '+', ' ', '('] ++ (intText b).toList ++ [')']) := by
    rw [text_linePhrase]
    simp
  have equals : ∀ n : ℤ, '=' ∉ (intText n).toList := by
    intro n h
    rcases intText_chars n '=' h with no | no <;> cases no
  have left : '=' ∉ (linePhrase a b).text.toList ++ [' '] := by
    rw [shape]
    simp [equals]
  have right : '=' ∉ [' ', '0'] := by decide
  have front : stripText (String.ofList ((linePhrase a b).text.toList ++ [' '])) =
      (linePhrase a b).text := by
    have first : ∀ c ∈ (linePhrase a b).text.toList.head?, isBlank c = false := by
      intro c hc
      rw [shape, List.head?_append_of_ne_nil _ (intText_ne_nil a)] at hc
      exact not_isBlank_intText a c (List.mem_of_mem_head? hc)
    have last : ∀ c ∈ (linePhrase a b).text.toList.getLast?, isBlank c = false := by
      intro c hc
      rw [shape, ← List.append_assoc, List.getLast?_concat] at hc
      obtain rfl : ')' = c := Option.some.inj hc
      decide
    have some : (linePhrase a b).text.toList ≠ [] := by
      rw [shape]
      exact List.append_ne_nil_of_left_ne_nil (intText_ne_nil a) _
    have around := stripBlank_around (List.forall_mem_nil _)
      (List.forall_mem_singleton.2 (by decide : isBlank ' ' = true)) some first last
    rw [stripText, String.toList_ofList]
    exact (congrArg String.ofList around).trans String.ofList_toList
  have back : stripText (String.ofList [' ', '0']) = "0" := by decide
  rw [sidesOf?, splitText, text, splitChars_append _ left, splitChars_of_not_mem right]
  exact congrArg some (Prod.ext front back)

/-! ## Solving -/

section Solving

variable {a b : ℤ}

theorem coeff_line (a b : ℤ) (k : ℕ) : (C b + monomial 1 a : ℤ[X]).coeff k =
    if k = 0 then b else if k = 1 then a else 0 := by
  rw [coeff_add, coeff_C, coeff_monomial]
  rcases k with _ | _ | k <;> simp

theorem natDegree_line (a b : ℤ) : (C b + monomial 1 a : ℤ[X]).natDegree ≤ 1 :=
  natDegree_add_le_of_degree_le (by simp) (natDegree_monomial_le a)

theorem short_line (h0 : a ≠ 0) (ha : |a| ≤ 10 ^ 6) (hb : |b| ≤ 10 ^ 6) :
    ¬ (Expr.line "x" a b).isTooLong := by
  have coefficients : ∀ k, ((C b + monomial 1 a : ℤ[X]).coeff k).natAbs < 2 ^ 60 := by
    intro k
    rw [Int.abs_eq_natAbs] at ha hb
    rw [coeff_line]
    split_ifs <;> omega
  rw [Expr.line_eq "x" h0, Expr.isTooLong_ofPolynomial coefficients
    ((natDegree_line a b).trans_lt (by norm_num))]
  exact Bool.false_ne_true

/-- The equation of a line is solved by its scan. -/
theorem solveEquation_line (h0 : a ≠ 0) (ha : |a| ≤ 10 ^ 6) (hb : |b| ≤ 10 ^ 6) :
    (solveEquation (.text (lineEquation a b)) (.text "x")).outcome =
      solveByScan (Expr.line "x" a b) "x" := by
  have reads : readSides (linePhrase a b).text "0" ["x"] =
      .ok (Expr.ofPolynomial "x" (C b + monomial 1 a), Expr.ofPolynomial "x" 0) := by
    unfold readSides
    rw [readExpression_linePhrase ha hb, readExpression_zero]
    rfl
  have same : difference (Expr.ofPolynomial "x" (C b + monomial 1 a)) (Expr.ofPolynomial "x" 0) =
      Expr.line "x" a b := by
    rw [difference, Expr.sub_ofPolynomial, sub_zero, ← Expr.line_eq "x" h0, Expr.simplify_line h0,
      Expr.expand_line h0]
  have low : hasExponent "x" (Expr.line "x" a b) = false := by
    rw [Expr.line_eq "x" h0, hasExponent_ofPolynomial, decide_eq_false]
    have := natDegree_line a b
    omega
  have short := short_line h0 ha hb
  have scanned : solveZero (Expr.line "x" a b) "x" = solveByScan (Expr.line "x" a b) "x" := by
    rw [solveZero, if_neg (by simp [low])]
  generalize C b + monomial 1 a = p at reads same
  simp [solveEquation, equationArgument, sidesOf_lineEquation, Value.toText, Except.mapError, reads,
    solveSides, unknownOf, same, checkedText_of_short short, noteRearranged, scanned]

/-- An equation of the first degree with a root between -100 and 100 is solved, and one solution
next to the root is told and was checked, if the root is a whole number of tenths. Otherwise no
solution is found. -/
theorem line_equations_are_solved_on_the_tenths (h0 : a ≠ 0) (ha : |a| ≤ 10 ^ 6)
    (hb : |b| ≤ 10 ^ 6) (range : |b| ≤ 100 * |a|) :
    ∃ s, (solveEquation (.text (lineEquation a b)) (.text "x")).outcome = .ok s ∧
      (a ∣ 10 * b → FindsRoot s (-b / a)) ∧ (¬ a ∣ 10 * b → FindsNone s) := by
  have short := short_line h0 ha hb
  have nonzero : (a : ℚ) ≠ 0 := by exact_mod_cast h0
  rw [solveEquation_line h0 ha hb]
  by_cases tenths : a ∣ 10 * b
  · obtain ⟨m, hm⟩ := tenths
    have root : a * -m + 10 * b = 0 := by
      rw [hm]
      ring
    have inside : |(-m)| ≤ 1000 := by
      have sizes : |a| * |m| = 10 * |b| := by
        rw [← abs_mul, ← hm, abs_mul]
        rfl
      have positive : 0 < |a| := abs_pos.2 h0
      rw [abs_neg]
      by_contra large
      nlinarith
    have value : ((-m : ℤ) : ℚ) / 10 = -b / a := by
      have scaled : (10 : ℚ) * b = a * m := by exact_mod_cast hm
      rw [div_eq_div_iff (by norm_num) nonzero]
      push_cast
      linarith
    obtain ⟨s, hs, finds⟩ := solveByScan_finds h0 ha hb inside root short
    rw [value] at finds
    exact ⟨s, hs, fun _ => finds, fun other => absurd ⟨m, hm⟩ other⟩
  · have apart : ∀ n : ℤ, a * n + 10 * b ≠ 0 := by
      intro n zero
      refine tenths ⟨-n, ?_⟩
      linarith
    obtain ⟨s, hs, none⟩ := solveByScan_findsNone h0 ha hb apart short
    exact ⟨s, hs, fun h => absurd h tenths, fun _ => none⟩

/-- The root of `4*x - 10` is a tenth. -/
theorem a_root_on_a_tenth_is_found :
    ∃ s, (solveEquation (.text "4*x + (-10) = 0") (.text "x")).outcome = .ok s ∧
      FindsRoot s (5 / 2) := by
  obtain ⟨s, hs, finds, -⟩ := line_equations_are_solved_on_the_tenths (a := 4) (b := -10)
    (by decide) (by decide) (by decide) (by decide)
  have root := finds (by decide)
  have value : -((-10 : ℤ) : ℚ) / (4 : ℤ) = 5 / 2 := by norm_num
  rw [value] at root
  exact ⟨s, hs, root⟩

/-- The root of `3*x - 1` lies between two tenths, so not every root in the range is found. -/
theorem a_root_between_two_tenths_is_missed :
    ¬ ∀ a b : ℤ, a ≠ 0 → |a| ≤ 10 ^ 6 → |b| ≤ 10 ^ 6 → |b| ≤ 100 * |a| →
      ∃ s, (solveEquation (.text (lineEquation a b)) (.text "x")).outcome = .ok s ∧
        FindsRoot s (-b / a) := by
  intro all
  obtain ⟨s, hs, finds⟩ := all 3 (-1) (by decide) (by decide) (by decide) (by decide)
  have short := short_line (a := 3) (b := -1) (by decide) (by decide) (by decide)
  have apart : ∀ n : ℤ, 3 * n + 10 * (-1) ≠ 0 := fun n => by omega
  obtain ⟨t, ht, none⟩ := solveByScan_findsNone (v := "x") (a := 3) (b := -1) (by decide)
    (by decide) (by decide) apart short
  rw [solveEquation_line (by decide) (by decide) (by decide), ht] at hs
  obtain rfl := Except.ok.inj hs
  exact Bool.false_ne_true (none.success.symm.trans finds.success)

end Solving

end Symbolic

end Reckoner
