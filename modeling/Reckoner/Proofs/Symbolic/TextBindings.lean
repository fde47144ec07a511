-- The value of an expression for texts in place of its symbols. The texts pass no check, but where
-- none would refuse one, the value is that for the expressions that are read from the texts.
import Mathlib
import Reckoner.Proofs.Solution.Shape
import Reckoner.Proofs.Symbolic.Reporting
import Reckoner.Proofs.Symbolic.TextValues

namespace Reckoner

/-! ## Steps that succeed alike -/

section Steps

variable {ε α β : Type} {f g : α → Except ε β} {l : List α} {r : List β}

/-- Where all steps succeed and other steps do as they do, the others succeed with the same. -/
theorem mapM_of_same (h : l.mapM f = .ok r) (same : ∀ a ∈ l, ∀ b, f a = .ok b → g a = .ok b) :
    l.mapM g = .ok r := by
  induction l generalizing r with
  | nil => exact h
  | cons a rest ih =>
    rw [List.mapM_cons] at h ⊢
    obtain ⟨b, hb, h⟩ := ok_of_bind h
    obtain ⟨bs, hbs, h⟩ := ok_of_bind h
    obtain ⟨first, later⟩ := List.forall_mem_cons.1 same
    rw [first b hb, ok_bind, ih hbs later]
    exact h

theorem exists_ok_of_mapM (h : l.mapM f = .ok r) : ∀ a ∈ l, ∃ b, f a = .ok b := by
  induction l generalizing r with
  | nil => simp
  | cons a rest ih =>
    rw [List.mapM_cons] at h
    obtain ⟨b, hb, h⟩ := ok_of_bind h
    obtain ⟨bs, hbs, -⟩ := ok_of_bind h
    exact List.forall_mem_cons.2 ⟨⟨b, hb⟩, ih hbs⟩

end Steps

namespace Symbolic

/-! ## Texts that are checked -/

/-- What a value puts in place of a symbol if a text is read as the text of an expression is. -/
def checkedReplacement (v : Value) : Except ValueFault Replacement :=
  match v with
  | .text s => match readExpression s [] with
    | .ok x => .ok (.expression x)
    | .error _ => .error (.unreadable s)
  | v => replacementOf v

section By

variable (replace : Value → Except ValueFault Replacement)

/-- The expression with the replacements of some kind in place of its symbols. -/
def substituteBy (x : Expr) (entries : List Value.Entry) : Except ValueFault Expr := do
  let names ← entries.mapM fun (key, _) => replacedName key
  let replacements ← entries.mapM fun (_, v) => replace v
  (replacementOrder (names.zip replacements)).foldlM (fun x (name, r) => replaceSymbol x name r) x

/-- The value of an expression for replacements of some kind. -/
def evaluationBy (expression bindings : Value) : Except Fault Solution := do
  let entries ← bindings.entries.mapError .value
  let fields ← (Value.fieldsOf entries).mapError .value
  reportReading (readArgument expression (fields.map (·.1)))
    (fun reason => .failure "evaluation" reason []
      [("expression", expression), ("variables", .record fields)])
    fun x => do
      let y ← (substituteBy replace x entries).mapError .value
      evaluationSolution expression fields (outcomeOf y)

end By

theorem evaluation_eq (expression bindings : Value) :
    evaluation expression bindings = evaluationBy replacementOf expression bindings := rfl

section Success

variable {replace : Value → Except ValueFault Replacement} {expression bindings : Value}
variable {entries : List Value.Entry} {s : Solution}

/-- What is read, replaced and told where the value of an expression is found. -/
theorem evaluationBy_succeeds_iff (given : bindings.entries = .ok entries) :
    evaluationBy replace expression bindings = .ok s ∧ s.success = true ↔
      s.success = true ∧ ∃ fields x y, Value.fieldsOf entries = .ok fields ∧
        readArgument expression (fields.map (·.1)) = .ok x ∧ substituteBy replace x entries = .ok y ∧
        evaluationSolution expression fields (outcomeOf y) = .ok s := by
  have fault : ∀ {α : Type} {m : Except ValueFault α} {a : α},
      m.mapError Fault.value = .ok a ↔ m = .ok a := by
    intro α m a
    cases m <;> simp [Except.mapError]
  rw [evaluationBy, given]
  change ((Value.fieldsOf entries).mapError Fault.value >>= _) = .ok s ∧ _ ↔ _
  constructor
  · rintro ⟨returned, success⟩
    refine ⟨success, ?_⟩
    obtain ⟨fields, hfields, returned⟩ := ok_of_bind returned
    unfold reportReading at returned
    split at returned
    · rename_i x hx
      obtain ⟨y, hy, told⟩ := ok_of_bind returned
      exact ⟨fields, x, y, fault.1 hfields, hx, fault.1 hy, told⟩
    · obtain rfl := Except.ok.inj returned
      cases success
    · cases returned
  · rintro ⟨success, fields, x, y, hfields, hx, hy, told⟩
    refine ⟨?_, success⟩
    rw [fault.2 hfields, ok_bind, hx]
    change ((substituteBy replace x entries).mapError Fault.value >>= _) = .ok s
    rw [fault.2 hy]
    exact told

theorem substituteBy_of_same {replace' : Value → Except ValueFault Replacement} {x y : Expr}
    (h : substituteBy replace x entries = .ok y)
    (same : ∀ key v, (key, v) ∈ entries → ∀ r, replace v = .ok r → replace' v = .ok r) :
    substituteBy replace' x entries = .ok y := by
  unfold substituteBy at h ⊢
  obtain ⟨names, hnames, h⟩ := ok_of_bind h
  obtain ⟨replacements, hreplacements, h⟩ := ok_of_bind h
  rw [hnames, ok_bind, mapM_of_same hreplacements fun e he r => same e.1 e.2 he r]
  exact h

theorem exists_replacement {x y : Expr} (h : substituteBy replace x entries = .ok y) {key v : Value}
    (hv : (key, v) ∈ entries) : ∃ r, replace v = .ok r := by
  unfold substituteBy at h
  obtain ⟨names, -, h⟩ := ok_of_bind h
  obtain ⟨replacements, hreplacements, -⟩ := ok_of_bind h
  exact exists_ok_of_mapM hreplacements (key, v) hv

end Success

/-- A text that stands for something is refused by a check, or it stands for the expression that is
read from it. -/
theorem replacementOf_text {text : String} {r : Replacement} (plain : IsUnambiguous text)
    (h : replacementOf (.text text) = .ok r) :
    (∃ x, r = .expression x ∧ readExpression text [] = .ok x) ∨ IsRefused text := by
  have read : ∀ m, meaningOfText? text = some m → m ≠ .function ∧ m ≠ .nothing →
      (∀ x, m = .value x → r = .expression x) →
        (∃ x, r = .expression x ∧ readExpression text [] = .ok x) ∨ IsRefused text := by
    intro m hm stands value
    refine (read_or_refused plain hm stands).imp_left ?_
    rintro ⟨x, rfl, hx⟩
    exact ⟨x, value x rfl, hx⟩
  unfold replacementOf at h
  dsimp only at h
  split at h
  · rename_i x hm
    refine read _ hm (by simp) fun y hy => ?_
    obtain rfl := Meaning.value.inj hy
    exact (Except.ok.inj h).symm
  · rename_i n hm
    exact read _ hm (by simp) fun y hy => by cases hy
  · rename_i b hm
    exact read _ hm (by simp) fun y hy => by cases hy
  · rename_i hm
    exact read _ hm (by simp) fun y hy => by cases hy
  · cases h

/-! ## One symbol -/

theorem read_symbol : readExpression "x" ["x"] = .ok (.sym "x") := by
  have names : namesOutcome "x" ["x"] = .ok ["x"] := rfl
  have parsed : parseTree ["x", "x"] "x" = some (.name "x") := by cbv
  rw [readExpression_of_tree names parsed]
  rfl

/-- The outcome is a real number. -/
def Outcome.isReal : Outcome → Bool
  | .real _ => true
  | .unbound _ | .notReal _ => false

/-- A symbol has the value of a text that stands for a real number. -/
theorem exists_value_of_symbol {text : String} {y : Expr}
    (stands : substituteBy replacementOf (.sym "x") [(.text "x", .text text)] = .ok y)
    (real : (outcomeOf y).isReal = true) :
    ∃ s, evaluation (.text "x") (.record [("x", .text text)]) = .ok s ∧ s.success = true := by
  have told : ∃ s, evaluationSolution (.text "x") [("x", .text text)] (outcomeOf y) = .ok s ∧
      s.success = true := by
    cases outcome : outcomeOf y with
    | real v =>
      obtain ⟨first, hfirst⟩ := line_of_texts ["Expression: ", "x"]
      obtain ⟨second, hsecond⟩ := @line_of_writable
        ["With ", .record [("x", .text text)], ": ", .measure v] 
        (by simp [Value.wholeNumbers, Value.wholeNumbersUnder])
      rw [evaluationSolution, show line ["Expression: ", .text "x"] = .ok first from hfirst, hsecond]
      exact ⟨_, rfl, rfl⟩
    | _ => simp [outcome, Outcome.isReal] at real
  obtain ⟨s, hs, success⟩ := told
  refine ⟨s, ?_, success⟩
  rw [evaluation_eq]
  refine ((evaluationBy_succeeds_iff rfl).2 ⟨success, _, .sym "x", y, rfl, ?_, stands, hs⟩).1
  change (readExpression "x" ["x"]).mapError Fault.ofReading = _
  rw [read_symbol]
  rfl

/-! ## All of it -/

theorem read_quarter : readExpression "1/4" [] = .ok (.ofRat (1 / 4)) := by
  have names : namesOutcome "1/4" [] = .ok [] := rfl
  have parsed : parseTree [] "1/4" = some (.binary .over (.whole "1") (.whole "4")) := by cbv
  rw [readExpression_of_tree names parsed]
  rfl

theorem isUnambiguous_quarter : IsUnambiguous "1/4" where
  line := by simp
  letters := by
    have none : textNames "1/4".toList = [] := by cbv
    rw [none]
    simp

end Symbolic

end Reckoner
