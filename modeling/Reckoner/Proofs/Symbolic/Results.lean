-- Results of symbolic algebra as texts again. A result that is written with nothing but what a text
-- may hold is read back as a text that denotes the same, with the same symbols, unless a power in it
-- is refused. A constant that is written with a letter is read as a symbol.
import Reckoner.Proofs.Algebra.PlainText
import Reckoner.Proofs.Solution.Shape
import Reckoner.Proofs.Symbolic.Reporting

namespace Reckoner

/-! ## Texts of expressions -/

/-- The text is read as the tree. Its symbols are those of the expression, and the tree as it stands
denotes the expression. -/
structure Tree.Reads (tree : Tree) (text : String) (x : Expr) : Prop where
  names : symbolNames text [] = .ok x.symbols
  parsed : parseTree x.symbols text = some tree
  value : ∀ {K : Type} [Field K] (I : Interpretation K), tree.value I x.symbols = some (x.value I)

/-- A text that shows an expression is read unless a power is refused, and denotes the expression. -/
theorem Shown.reads {t : String} {x : Expr} (h : Shown .sum 3 t x) (short : t.length ≤ 500) :
    ∃ tree : Tree, tree.Reads t x ∧ ∃ w y, writtenExpression? t [] = some w ∧
      tree.meaning x.symbols = some (.value y) ∧
      readExpression t [] = (checkPowers w).map fun _ => y := by
  obtain ⟨p, prints, shallow⟩ := h
  have text : p.text = t := by rw [Phrase.text, ← prints.chars, String.ofList_toList]
  have names : sortNames p.letters = x.symbols :=
    eq_sortNames (sortNames_sorted _) fun s => mem_sortNames.trans (prints.letters s)
  have deep : p.depth ≤ maxDepth := by
    have length : p.chars.length ≤ 500 := by rwa [← prints.chars, String.length_toList]
    unfold Phrase.Shallow at shallow
    unfold maxDepth
    omega
  have single : SingleLetters x.symbols := fun s hs =>
    p.singleLetters s (mem_sortNames.1 (names ▸ hs))
  have bound : ∀ s ∈ p.letters, s ∈ x.symbols := fun s hs => names ▸ mem_sortNames.2 hs
  rw [← text] at short ⊢
  obtain ⟨w, y, written, meaning, outcome⟩ := p.readExpression_text short deep
  rw [names] at meaning
  refine ⟨p.tree false, ⟨?_, p.parseTree_text single deep, fun I => ?_⟩, w, y, written, meaning, outcome⟩
  · rw [p.symbolNames_text short, names]
  · rw [(p.value_tree I single bound).1, prints.value]

/-! ## Results -/

namespace Symbolic

section Answers

variable {s : String} {bound : List String} {make : Expr → Expr}

/-- If there is an answer, the text was read, and the answer is the text of what is made of the
expression. -/
def Tells (s : String) (bound : List String) (make : Expr → Expr) (solution : Solution) : Prop :=
  solution.success = true →
    ∃ x, readExpression s bound = .ok x ∧ solution.answer = .text (make x).text

theorem reportReading_tells {report : String → Solution} {next : Expr → Except Fault Solution}
    (failed : ∀ reason, (report reason).success = false)
    (told : ∀ x, Yields (fun solution => solution.answer = .text (make x).text) (next x)) :
    Yields (Tells s bound make) (reportReading (readArgument (.text s) bound) report next) := by
  change Yields _ (reportReading ((readExpression s bound).mapError .ofReading) report next)
  cases read : readExpression s bound with
  | ok x => exact fun solution h _ => ⟨x, read, told x solution h⟩
  | error f =>
    cases f with
    | value g => exact .error _
    | _ => exact .ok fun success => absurd success (by simp [failed])

/-- What is told with the text of an expression, where it can be written. -/
theorem checkedText_tells {x : Expr} {next : String → Except Fault Solution}
    (told : Yields (fun solution => solution.answer = .text x.text) (next x.text)) :
    Yields (fun solution => solution.answer = .text x.text) (x.checkedText >>= next) := by
  by_cases long : x.isTooLong
  · rw [checkedText_of_long long]
    exact .error _
  · rw [checkedText_of_short long]
    exact told

end Answers

/-- The solvers whose result is an expression. -/
inductive Rewriting where
  | simplification
  | factorization
  | differentiation (variableName : String)

namespace Rewriting

/-- The names that the solver binds. -/
def bound : Rewriting → List String
  | simplification | factorization => []
  | differentiation name => [name]

/-- The expression that the solver makes of another one. -/
def result : Rewriting → Expr → Expr
  | simplification => Expr.simplify
  | factorization => Expr.factor
  | differentiation name => Expr.derivative name

/-- What the solver answers for a text. -/
def solve (text : String) : Rewriting → Except Fault Solution
  | simplification => Symbolic.simplification (.text text)
  | factorization => Symbolic.factorization (.text text)
  | differentiation name => Symbolic.differentiation (.text text) (.text name)

/-- A solver that succeeds has read the text, and answers with the text of its result. -/
theorem solve_tells (r : Rewriting) (s : String) : Yields (Tells s r.bound r.result) (r.solve s) := by
  cases r with
  | simplification =>
    unfold solve Symbolic.simplification
    exact reportReading_tells (fun _ => rfl) fun x => checkedText_tells
      (.bind fun _ _ => .bind fun _ _ => .ok rfl)
  | factorization =>
    unfold solve Symbolic.factorization
    exact reportReading_tells (fun _ => rfl) fun x => checkedText_tells
      (.bind fun _ _ => .bind fun _ _ => .ok rfl)
  | differentiation name =>
    unfold solve Symbolic.differentiation
    refine .bind fun bound read => ?_
    obtain rfl : name = bound := Except.ok.inj read
    refine reportReading_tells (fun _ => rfl) fun x => .bind fun unknown known => ?_
    obtain rfl : name = unknown := Except.ok.inj known
    exact checkedText_tells (.bind fun _ _ => .bind fun _ _ => .bind fun _ _ => .ok rfl)

/-- A solver succeeds with a text that is read, if the result is not too long to be written. -/
theorem solve_succeeds (r : Rewriting) {s : String} {x : Expr} (read : readExpression s r.bound = .ok x)
    (short : ¬ (r.result x).isTooLong) :
    ∃ solution, r.solve s = .ok solution ∧ solution.success = true := by
  obtain ⟨shown, hs⟩ := lineText_of_short short
  have text := checkedText_of_short short
  have argument : readArgument (.text s) r.bound = .ok x := by
    change (readExpression s r.bound).mapError Fault.ofReading = .ok x
    rw [read]
    rfl
  cases r with
  | simplification | factorization =>
    obtain ⟨first, hfirst⟩ := line_of_texts ["Original: ", s]
    simp only [List.map_cons, List.map_nil] at hfirst
    simp only [bound, result] at argument text hs
    simp only [solve, Symbolic.simplification, Symbolic.factorization, argument, reportReading, text,
      hs, hfirst, ok_bind]
    exact ⟨_, rfl, rfl⟩
  | differentiation name =>
    obtain ⟨first, hfirst⟩ := line_of_texts ["f(", name, ") = ", s]
    obtain ⟨second, hsecond⟩ := line_of_texts ["f'(", name, ") = ", shown]
    simp only [List.map_cons, List.map_nil] at hfirst hsecond
    simp only [bound, result] at argument text hs
    simp only [solve, Symbolic.differentiation, Value.toText, Except.mapError, argument,
      reportReading, unknownOf, text, hs, hfirst, hsecond, ok_bind]
    exact ⟨_, rfl, rfl⟩

end Rewriting

/-- The quotient `sin(x)/x`. -/
def quotient : Expr := .prod [.pow (.sym "x") .negOne, .app .sin (.sym "x")]

/-- Its derivative. -/
def derivedQuotient : Expr :=
  .sum [.prod [.pow (.sym "x") .negOne, .app .cos (.sym "x")],
    .prod [.negOne, .pow (.sym "x") (.ofInt (-2)), .app .sin (.sym "x")]]

theorem readExpression_quotient : readExpression "sin(x)/x" ["x"] = .ok quotient := by
  have names : namesOutcome "sin(x)/x" ["x"] = .ok ["x"] := rfl
  have parsed : parseTree ["x", "x"] "sin(x)/x" =
      some (.binary .over (.call "sin" (.name "x")) (.name "x")) := by cbv
  rw [readExpression_of_tree names parsed]
  rfl

/-- A result in plain writing can be given to a solver again. For a text with which the solver
succeeds, it is read as a tree that denotes the result and has the same symbols. It is accepted
if no power in it is refused, and the expression read is the meaning of the tree. -/
theorem plain_results_are_read_again (r : Rewriting) {s : String} {solution : Solution}
    (solved : r.solve s = .ok solution) (success : solution.success = true) :
    ∃ x, readExpression s r.bound = .ok x ∧ solution.answer = .text (r.result x).text ∧
      ((r.result x).isPlain = true → (r.result x).text.length ≤ 500 →
        ∃ tree : Tree, tree.Reads (r.result x).text (r.result x) ∧
          ∃ w y, writtenExpression? (r.result x).text [] = some w ∧
            tree.meaning (r.result x).symbols = some (.value y) ∧
            readExpression (r.result x).text [] = (checkPowers w).map fun _ => y) := by
  obtain ⟨x, read, answer⟩ := r.solve_tells s solution solved success
  exact ⟨x, read, answer, fun plain short => (Expr.shown_text plain).reads short⟩

/-- The derivative of the quotient of a sine is written `cos(x)/x - sin(x)/x**2`, and read again. -/
theorem the_derivative_of_a_quotient_is_read_again :
    ∃ tree : Tree, tree.Reads "cos(x)/x - sin(x)/x**2" derivedQuotient ∧
      ∃ w y, writtenExpression? "cos(x)/x - sin(x)/x**2" [] = some w ∧
        tree.meaning ["x"] = some (.value y) ∧
        readExpression "cos(x)/x - sin(x)/x**2" [] = (checkPowers w).map fun _ => y := by
  have read : readExpression "sin(x)/x" ["x"] = .ok quotient := readExpression_quotient
  have derived : quotient.derivative "x" = derivedQuotient := by decide +kernel
  have text : derivedQuotient.text = "cos(x)/x - sin(x)/x**2" := by decide +kernel
  obtain ⟨solution, solved, success⟩ := (Rewriting.differentiation "x").solve_succeeds read
    (by rw [Rewriting.result, derived]; decide +kernel)
  obtain ⟨x, read', -, again⟩ := plain_results_are_read_again (.differentiation "x") solved success
  obtain rfl : quotient = x := Except.ok.inj (read.symm.trans read')
  rw [Rewriting.result, derived, text] at again
  exact again (by rfl) (by decide)

theorem readExpression_exp_one : readExpression "exp(1)" [] = .ok (.const .e) := by
  have names : namesOutcome "exp(1)" [] = .ok [] := rfl
  have parsed : parseTree [] "exp(1)" = some (.call "exp" (.whole "1")) := by cbv
  rw [readExpression_of_tree names parsed]
  rfl

theorem readExpression_letter : readExpression "E" [] = .ok (.sym "E") := by
  have names : namesOutcome "E" [] = .ok ["E"] := rfl
  have parsed : parseTree ["E"] "E" = some (.name "E") := by cbv
  rw [readExpression_of_tree names parsed]
  rfl

/-- The natural base is written with a letter, which is read as a symbol. The simplest form of
`exp(1)` has no symbol, and its text has one. -/
theorem the_natural_base_is_read_as_a_symbol : ∃ solution x,
    Rewriting.simplification.solve "exp(1)" = .ok solution ∧ solution.success = true ∧
    readExpression "exp(1)" [] = .ok x ∧ solution.answer = .text x.simplify.text ∧
    x.simplify.text.length ≤ 500 ∧ x.simplify.symbols = [] ∧
    readExpression x.simplify.text [] = .ok (.sym "E") := by
  have read := readExpression_exp_one
  have simple : (Expr.const .e).simplify = .const .e := rfl
  obtain ⟨solution, solved, success⟩ := Rewriting.simplification.solve_succeeds read
    (by rw [Rewriting.result, simple]; decide)
  obtain ⟨x, read', answer⟩ := Rewriting.simplification.solve_tells "exp(1)" solution solved success
  obtain rfl : .const .e = x := Except.ok.inj (read.symm.trans read')
  rw [Rewriting.result] at answer
  refine ⟨solution, _, solved, success, read, answer, ?_⟩
  rw [simple]
  exact ⟨by decide, by decide, readExpression_letter⟩

end Symbolic

end Reckoner
