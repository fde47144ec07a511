-- What a summary tells, line by line. The steps stand below their heading with their numbers before
-- them, up to an empty line, so they can be read back; what became of the solution has lines of its
-- own, each below an empty one.
import Reckoner.Proofs.Reading.Words
import Reckoner.Proofs.Solution.Shape
import Reckoner.Proofs.Text.Pieces
import Reckoner.Solution.Summary

namespace Reckoner

/-! ## Lines of texts -/

/-- The lines of a text. -/
def linesOf (text : String) : List String := splitText '\n' text

/-- A text without a line break in it. -/
def OneLine (text : String) : Prop := '\n' ∉ text.toList

instance (text : String) : Decidable (OneLine text) := inferInstanceAs (Decidable (¬ _))

@[simp]
theorem oneLine_append {s t : String} : OneLine (s ++ t) ↔ OneLine s ∧ OneLine t := by
  simp [OneLine]

theorem linesOf_oneLine {text : String} (h : OneLine text) : linesOf text = [text] :=
  splitText_of_not_mem h

/-- A text that begins with a line break leaves an empty line before its own. -/
theorem linesOf_below {text : String} (h : OneLine text) : linesOf ("\n" ++ text) = ["", text] := by
  have chars : ("\n" ++ text).toList = [] ++ '\n' :: text.toList := by simp
  rw [linesOf, splitText, chars, splitChars_append _ List.not_mem_nil, splitChars_of_not_mem h]
  simp

theorem linesOf_joinTexts {parts : List String} (h : parts ≠ []) :
    linesOf (Value.joinTexts "\n" parts) = parts.flatMap linesOf :=
  splitText_joinTexts h

theorem oneLine_natText (n : ℕ) : OneLine (natText n) := fun h =>
  absurd (digitsOf_digits n _ h) (by decide)

/-- No other character has a line break among its capital letters. -/
theorem eq_break_of_mem_capitalsOf {c : Char} (h : '\n' ∈ capitalsOf c) : c = '\n' := by
  have runs : capitalRuns.all (fun r => decide ((10 : Int) < r.1 + r.2.2.2)) = true := by
    decide +kernel
  have sequences : capitalSequences.all (fun e => !(e.2.map Char.ofNat).contains '\n') = true := by
    decide +kernel
  have once : (capitalSequences.map Prod.fst).Nodup := by decide +kernel
  unfold capitalsOf changeCase? at h
  cases found : capitalRuns.find? _ with
  | some r =>
    obtain ⟨lo, hi, step, shift⟩ := r
    rw [found] at h
    have inside := List.find?_some found
    simp only [Bool.and_eq_true, decide_eq_true_eq] at inside
    have past : (10 : Int) < lo + shift :=
      of_decide_eq_true (List.all_eq_true.1 runs _ (List.mem_of_find?_eq_some found))
    have same : 10 = (Char.ofNat ((c.toNat : Int) + shift).toNat).toNat :=
      congrArg Char.toNat (List.mem_singleton.1 h)
    rcases toNat_ofNat_eq ((c.toNat : Int) + shift).toNat with kept | zero <;> omega
  | none =>
    rw [found] at h
    dsimp only [Option.map_none] at h
    cases entry : lookupEntry c.toNat capitalSequences with
    | some l =>
      rw [entry] at h
      have apart := List.all_eq_true.1 sequences _ ((mem_iff_lookupEntry once).2 entry)
      simp only [Bool.not_eq_true', List.contains_eq_mem, decide_eq_false_iff_not] at apart
      exact absurd h apart
    | none =>
      rw [entry] at h
      exact (List.mem_singleton.1 h).symm

theorem oneLine_capitals {text : String} (h : OneLine text) : OneLine (capitals text) := by
  unfold OneLine capitals
  rw [String.toList_ofList, List.mem_flatMap]
  rintro ⟨c, hc, broken⟩
  exact h (eq_break_of_mem_capitalsOf broken ▸ hc)

namespace Solution

/-! ## Numbered steps -/

theorem numbered_eq (n : ℕ) (steps : List String) :
    numbered n steps = steps.mapIdx fun i step => natText (n + i) ++ ". " ++ step := by
  induction steps generalizing n with
  | nil => rfl
  | cons step rest ih =>
    rw [numbered, ih, List.mapIdx_cons]
    simp only [Nat.add_zero, Nat.add_assoc, Nat.add_comm 1]

/-- The steps can be told from their lines. -/
theorem numbered_injective {n : ℕ} {steps others : List String}
    (h : numbered n steps = numbered n others) : steps = others := by
  induction steps generalizing n others with
  | nil =>
    cases others with
    | nil => rfl
    | cons other rest => cases h
  | cons step steps ih =>
    cases others with
    | nil => cases h
    | cons other rest =>
      obtain ⟨first, later⟩ := List.cons.inj h
      rw [ih later, (String.append_right_inj _).1 first]

theorem oneLine_of_mem_numbered {n : ℕ} {steps : List String} (h : ∀ step ∈ steps, OneLine step)
    {line : String} (hl : line ∈ numbered n steps) : OneLine line := by
  rw [numbered_eq, List.mem_mapIdx] at hl
  obtain ⟨i, hi, rfl⟩ := hl
  simp only [oneLine_append]
  exact ⟨⟨oneLine_natText _, by decide⟩, h _ (List.getElem_mem hi)⟩

/-! ## What a summary is made of -/

variable {s : Solution} {text : String}

def stepHeading : String := "**Step-by-Step Solution:**"

/-- The line that shows the answer: the list of solutions after the name of the variable, or else
the answer, if there is one. -/
def answerLine (s : Solution) : Except ValueFault (Option String) :=
  match s.detail "solutions" with
  | .list l => do
    let name ← (s.detailD "variable" "x").toText
    let texts ← l.mapM Value.toText
    return some ("**Solutions:** " ++ name ++ " = " ++ Value.joinTexts ", " texts)
  | _ =>
    if s.answer.isNothing then .ok none
    else do return some ("**Answer:** " ++ (← s.answer.toText))

/-- The line that tells of the check. -/
def checkLine (s : Solution) : Option String :=
  if s.verified then some "✓ Solution verified: Correct"
  else if s.answer.isNothing then none
  else some "✗ Solution not verified: Check required"

/-- The lines that tell what became of the solution, where this one shows the answer. -/
def outcomeTexts (s : Solution) (answer : Option String) : List String :=
  if s.success then answer.toList ++ s.checkLine.toList
  else ["**Error:** " ++ s.reason.getD "None"]

/-- The lines of a summary, where this one shows the answer. -/
def layout (s : Solution) (answer : Option String) : List String :=
  s.methodLines ++
    (if s.steps.isEmpty then [] else "" :: stepHeading :: numbered 1 s.steps) ++
    (s.outcomeTexts answer).flatMap fun line => ["", line]

theorem answerLines_eq (s : Solution) :
    s.answerLines = s.answerLine.map fun line => line.toList.map ("\n" ++ ·) := by
  unfold answerLines answerLine
  cases s.detail "solutions" with
  | list l =>
    dsimp only
    cases (s.detailD "variable" "x").toText with
    | error f => rfl
    | ok name =>
      cases l.mapM Value.toText with
      | error f => rfl
      | ok texts => rfl
  | _ =>
    dsimp only
    split_ifs
    · rfl
    · cases s.answer.toText <;> rfl

theorem checkLines_eq (s : Solution) : s.checkLines = s.checkLine.toList.map ("\n" ++ ·) := by
  unfold checkLines checkLine
  split_ifs <;> rfl

/-- There is a summary unless an answer is to be shown that cannot be written. -/
theorem summary_eq_ok_iff : s.summary = .ok text ↔
    ∃ answer, (s.success = true → s.answerLine = .ok answer) ∧
      text = Value.joinTexts "\n"
        (s.methodLines ++ s.stepLines ++ (s.outcomeTexts answer).map ("\n" ++ ·)) := by
  unfold summary outcomeLines outcomeTexts
  rw [answerLines_eq, checkLines_eq]
  cases s.success with
  | false =>
    have line : "\n**Error:** " ++ s.reason.getD "None" =
        "\n" ++ ("**Error:** " ++ s.reason.getD "None") := rfl
    simp only [Bool.false_eq_true, if_false, ok_bind, List.map_cons, List.map_nil, line,
      false_imp_iff, true_and, exists_const]
    exact ⟨fun h => (Except.ok.inj h).symm, fun h => congrArg Except.ok h.symm⟩
  | true =>
    cases s.answerLine with
    | error f =>
      simp only [if_true]
      exact ⟨nofun, fun ⟨_, told, _⟩ => nomatch told trivial⟩
    | ok answer =>
      simp only [if_true, List.map_append]
      constructor
      · intro h
        exact ⟨answer, fun _ => rfl, (Except.ok.inj h).symm⟩
      · rintro ⟨other, told, rfl⟩
        cases told trivial
        rfl

/-! ## Solutions that are told in lines -/

/-- What a summary shows of the solution has no line breaks in it. -/
structure IsOneLined (s : Solution) : Prop where
  method : OneLine s.method
  steps : ∀ step ∈ s.steps, OneLine step
  reason : ∀ reason, s.reason = some reason → OneLine reason
  answer : s.success = true → ∀ line, s.answerLine = .ok (some line) → OneLine line

/-- The lines of the text are those of the summary, where this one shows the answer. Where there is
nothing to be told, the one line is empty. -/
structure IsLaidOut (s : Solution) (answer : Option String) (text : String) : Prop where
  told : s.success = true → s.answerLine = .ok answer
  lines : linesOf text = s.layout answer ∨ s.layout answer = [] ∧ linesOf text = [""]

theorem oneLine_methodTitle (h : OneLine s.method) : OneLine s.methodTitle := by
  refine oneLine_capitals ?_
  unfold OneLine
  rw [String.toList_ofList, List.mem_map]
  rintro ⟨c, hc, broken⟩
  split_ifs at broken with mark
  · cases broken
  · exact h (broken ▸ hc)

theorem oneLine_checkLine {line : String} (h : s.checkLine = some line) : OneLine line := by
  unfold checkLine at h
  split_ifs at h <;> cases h <;> decide

namespace IsOneLined

theorem oneLine_outcomeTexts (h : s.IsOneLined) {answer : Option String}
    (told : s.success = true → s.answerLine = .ok answer) :
    ∀ line ∈ s.outcomeTexts answer, OneLine line := by
  intro line hl
  unfold outcomeTexts at hl
  split_ifs at hl with success
  · rcases List.mem_append.1 hl with shown | check
    · refine h.answer success line ?_
      rw [told success, Option.mem_toList.1 shown]
    · exact oneLine_checkLine (Option.mem_toList.1 check)
  · rw [List.mem_singleton.1 hl]
    refine oneLine_append.2 ⟨by decide, ?_⟩
    cases given : s.reason with
    | none => decide
    | some reason => exact h.reason reason given

theorem lines_methodLines (h : s.IsOneLined) : s.methodLines.flatMap linesOf = s.methodLines := by
  unfold methodLines
  split_ifs
  · rfl
  · have line : OneLine ("**Method Used:** " ++ s.methodTitle) :=
      oneLine_append.2 ⟨by decide, oneLine_methodTitle h.method⟩
    rw [List.flatMap_cons, List.flatMap_nil, linesOf_oneLine line, List.append_nil]

theorem lines_stepLines (h : s.IsOneLined) : s.stepLines.flatMap linesOf =
    if s.steps.isEmpty then [] else "" :: stepHeading :: numbered 1 s.steps := by
  unfold stepLines
  split_ifs
  · rfl
  · have plain : OneLine stepHeading := by decide
    have heading : linesOf "\n**Step-by-Step Solution:**" = ["", stepHeading] := linesOf_below plain
    have steps : (numbered 1 s.steps).flatMap linesOf = numbered 1 s.steps := by
      rw [List.flatMap_congr fun line hl => linesOf_oneLine (oneLine_of_mem_numbered h.steps hl)]
      exact List.flatMap_singleton' _
    rw [List.flatMap_cons, heading, steps]
    rfl

theorem lines_outcomeTexts (h : s.IsOneLined) {answer : Option String}
    (told : s.success = true → s.answerLine = .ok answer) :
    ((s.outcomeTexts answer).map ("\n" ++ ·)).flatMap linesOf =
      (s.outcomeTexts answer).flatMap fun line => ["", line] := by
  rw [List.flatMap_map]
  exact List.flatMap_congr fun line hl => linesOf_below (h.oneLine_outcomeTexts told line hl)

theorem exists_isLaidOut (h : s.IsOneLined) (ht : s.summary = .ok text) :
    ∃ answer, s.IsLaidOut answer text := by
  obtain ⟨answer, told, rfl⟩ := summary_eq_ok_iff.1 ht
  refine ⟨answer, told, ?_⟩
  have parts : (s.methodLines ++ s.stepLines ++ (s.outcomeTexts answer).map ("\n" ++ ·)).flatMap
      linesOf = s.layout answer := by
    rw [List.flatMap_append, List.flatMap_append, h.lines_methodLines, h.lines_stepLines,
      h.lines_outcomeTexts told, layout]
  by_cases none : s.methodLines ++ s.stepLines ++ (s.outcomeTexts answer).map ("\n" ++ ·) = []
  · rw [none] at parts ⊢
    exact .inr ⟨parts.symm, rfl⟩
  · exact .inl (by rw [linesOf_joinTexts none, parts])

end IsOneLined

/-! ## Where the lines stand -/

/-- A line that comes before those of the outcome, or an empty one. -/
inductive IsFrontLine : String → Prop
  | empty : IsFrontLine ""
  | method (title : String) : IsFrontLine ("**Method Used:** " ++ title)
  | heading : IsFrontLine stepHeading
  | step (n : ℕ) (step : String) : IsFrontLine (natText n ++ ". " ++ step)

/-- The beginnings of the lines that tell what became of a solution. -/
def outcomeLabels : List String :=
  ["**Error:** ", "**Solutions:** ", "**Answer:** ", "✓ Solution verified: Correct",
    "✗ Solution not verified: Check required"]

theorem natText_cons (n : ℕ) : ∃ c rest, (natText n).toList = c :: rest ∧ isAsciiDigit c := by
  obtain ⟨c, rest, digits⟩ := List.exists_cons_of_ne_nil (digitsOf_ne_nil n)
  exact ⟨c, rest, digits, digitsOf_digits n c (digits ▸ List.mem_cons_self)⟩

theorem IsFrontLine.not_labelled {line label : String} (front : IsFrontLine line)
    (known : label ∈ outcomeLabels) : ¬ label.toList <+: line.toList := by
  simp only [outcomeLabels, List.mem_cons, List.not_mem_nil, or_false] at known
  cases front with
  | empty => rcases known with rfl | rfl | rfl | rfl | rfl <;> decide
  | method title =>
    rw [String.toList_append]
    rcases known with rfl | rfl | rfl | rfl | rfl <;> simp
  | heading => rcases known with rfl | rfl | rfl | rfl | rfl <;> decide
  | step n step =>
    -- a digit begins the line, and none of the labels
    obtain ⟨c, rest, chars, digit⟩ := natText_cons n
    have apart : ∀ l : List Char, l.head?.all (fun c => !isAsciiDigit c) = true → l ≠ [] →
        ¬ l <+: (natText n ++ ". " ++ step).toList := by
      intro l other some front
      obtain ⟨d, l, rfl⟩ := List.exists_cons_of_ne_nil some
      rw [String.toList_append, String.toList_append, chars] at front
      obtain ⟨rfl, -⟩ := List.cons_prefix_cons.1 front
      simp [digit] at other
    rcases known with rfl | rfl | rfl | rfl | rfl <;> exact apart _ (by decide) (by decide)

theorem mem_numbered_front {n : ℕ} {steps : List String} {line : String}
    (h : line ∈ numbered n steps) : IsFrontLine line := by
  rw [numbered_eq, List.mem_mapIdx] at h
  obtain ⟨i, hi, rfl⟩ := h
  exact .step _ _

theorem front_or_outcome {answer : Option String} {line : String} (h : line ∈ s.layout answer) :
    IsFrontLine line ∨ line ∈ s.outcomeTexts answer := by
  unfold layout methodLines at h
  rcases List.mem_append.1 h with front | outcome
  · refine .inl ?_
    rcases List.mem_append.1 front with method | steps
    · split_ifs at method
      · cases method
      · exact List.mem_singleton.1 method ▸ .method _
    · split_ifs at steps
      · cases steps
      · rcases List.mem_cons.1 steps with rfl | steps
        · exact .empty
        · rcases List.mem_cons.1 steps with rfl | step
          · exact .heading
          · exact mem_numbered_front step
  · obtain ⟨told, ht, hl⟩ := List.mem_flatMap.1 outcome
    rcases List.mem_cons.1 hl with rfl | same
    · exact .inl .empty
    · exact .inr (List.mem_singleton.1 same ▸ ht)

theorem mem_layout_of_outcome {answer : Option String} {line : String}
    (h : line ∈ s.outcomeTexts answer) : line ∈ s.layout answer :=
  List.mem_append_right _ (List.mem_flatMap.2 ⟨line, h, by simp⟩)

/-- Some line of the text begins with the label. -/
def HasLine (text label : String) : Prop := ∃ line ∈ linesOf text, label.toList <+: line.toList

/-- What no line at the front is like has to be looked for among the lines of the outcome. -/
theorem IsLaidOut.exists_line_iff {answer : Option String} (h : s.IsLaidOut answer text)
    {P : String → Prop} (other : ∀ line, IsFrontLine line → ¬ P line) :
    (∃ line ∈ linesOf text, P line) ↔ ∃ line ∈ s.outcomeTexts answer, P line := by
  constructor
  · rintro ⟨line, hl, holds⟩
    rcases h.lines with same | ⟨-, empty⟩
    · rcases front_or_outcome (same ▸ hl) with front | outcome
      · exact absurd holds (other line front)
      · exact ⟨line, outcome, holds⟩
    · rw [empty] at hl
      exact absurd holds (other line (List.mem_singleton.1 hl ▸ .empty))
  · rintro ⟨line, hl, holds⟩
    have laid := mem_layout_of_outcome hl
    rcases h.lines with same | ⟨none, -⟩
    · exact ⟨line, same ▸ laid, holds⟩
    · rw [none] at laid
      cases laid

/-- The solution has a list of solutions or an answer. -/
def HasAnswer (s : Solution) : Prop :=
  (∃ l, s.detail "solutions" = .list l) ∨ s.answer ≠ .nothing

/-- The line with the answer, where there is one, is that of the solutions or that of the answer. -/
theorem answerLine_cases {answer : Option String} (h : s.answerLine = .ok answer) :
    (¬ s.HasAnswer ∧ answer = none) ∨
      (s.HasAnswer ∧ ∃ line, answer = some ("**Solutions:** " ++ line) ∨
        answer = some ("**Answer:** " ++ line)) := by
  unfold answerLine at h
  unfold HasAnswer
  cases found : s.detail "solutions" with
  | list l =>
    rw [found] at h
    obtain ⟨name, -, h⟩ := ok_of_bind h
    obtain ⟨texts, -, h⟩ := ok_of_bind h
    cases h
    simp only [String.append_assoc]
    exact .inr ⟨.inl ⟨l, rfl⟩, _, .inl rfl⟩
  | _ =>
    rw [found] at h
    cases given : s.answer with
    | nothing =>
      rw [given] at h
      cases h
      exact .inl ⟨by simp, rfl⟩
    | _ =>
      rw [given] at h
      obtain ⟨line, -, h⟩ := ok_of_bind h
      cases h
      exact .inr ⟨.inr nofun, line, .inr rfl⟩

theorem checkLine_verified : s.checkLine = some "✓ Solution verified: Correct" ↔
    s.verified = true := by
  unfold checkLine
  split_ifs with verified <;> simp [verified]

theorem checkLine_unverified : s.checkLine = some "✗ Solution not verified: Check required" ↔
    s.verified = false ∧ s.answer ≠ .nothing := by
  unfold checkLine
  cases s.verified <;> cases s.answer <;> simp [Value.isNothing]

/-- The line of the check says one of two things. -/
theorem checkLine_cases {line : String} (h : s.checkLine = some line) :
    line = "✓ Solution verified: Correct" ∨ line = "✗ Solution not verified: Check required" := by
  unfold checkLine at h
  split_ifs at h <;> cases h
  · exact .inl rfl
  · exact .inr rfl

/-! ## What became of the solution -/

section Outcome

variable {answer : Option String}

theorem error_in_outcome (told : s.success = true → s.answerLine = .ok answer) :
    (∃ line ∈ s.outcomeTexts answer, "**Error:** ".toList <+: line.toList) ↔
      s.success = false := by
  unfold outcomeTexts
  cases success : s.success with
  | false => simp
  | true =>
    have check : ∀ line, s.checkLine = some line → ¬ "**Error:** ".toList <+: line.toList := by
      intro line h
      rcases checkLine_cases h with rfl | rfl <;> decide
    rcases answerLine_cases (told success) with ⟨-, rfl⟩ | ⟨-, line, rfl | rfl⟩ <;>
      simpa [String.toList_append] using check

theorem answer_in_outcome (told : s.success = true → s.answerLine = .ok answer) :
    (∃ line ∈ s.outcomeTexts answer,
      "**Solutions:** ".toList <+: line.toList ∨ "**Answer:** ".toList <+: line.toList) ↔
      s.success = true ∧ s.HasAnswer := by
  unfold outcomeTexts
  cases success : s.success with
  | false => simp
  | true =>
    have check : ∀ line, s.checkLine = some line →
        ¬ ("**Solutions:** ".toList <+: line.toList ∨ "**Answer:** ".toList <+: line.toList) := by
      intro line h
      rcases checkLine_cases h with rfl | rfl <;> decide
    rcases answerLine_cases (told success) with ⟨no, rfl⟩ | ⟨has, line, rfl | rfl⟩
    · simpa [no] using check
    · simp [has]
    · simp [has]

theorem check_in_outcome (told : s.success = true → s.answerLine = .ok answer) {line : String}
    (check : line = "✓ Solution verified: Correct" ∨
      line = "✗ Solution not verified: Check required") :
    line ∈ s.outcomeTexts answer ↔ s.success = true ∧ s.checkLine = some line := by
  unfold outcomeTexts
  cases success : s.success with
  | false => rcases check with rfl | rfl <;> simp [← String.toList_inj]
  | true =>
    have answers : ∀ shown, answer = some shown → line ≠ shown := by
      rintro shown rfl rfl
      rcases answerLine_cases (told success) with ⟨-, h⟩ | ⟨-, t, h | h⟩ <;> cases h <;>
        rcases check with h | h <;> simp [← String.toList_inj] at h
    rw [if_pos rfl, List.mem_append, Option.mem_toList, Option.mem_toList]
    exact ⟨fun h => ⟨rfl, h.resolve_left fun shown => answers line shown rfl⟩, fun h => .inr h.2⟩

theorem outcome_labelled (told : s.success = true → s.answerLine = .ok answer) {line : String}
    (h : line ∈ s.outcomeTexts answer) : ∃ label ∈ outcomeLabels, label.toList <+: line.toList := by
  unfold outcomeTexts at h
  split_ifs at h with success
  · rcases List.mem_append.1 h with shown | check
    · rcases answerLine_cases (told success) with ⟨-, rfl⟩ | ⟨-, t, rfl | rfl⟩
      · cases shown
      · obtain rfl := List.mem_singleton.1 shown
        exact ⟨"**Solutions:** ", by decide, by simp⟩
      · obtain rfl := List.mem_singleton.1 shown
        exact ⟨"**Answer:** ", by decide, by simp⟩
    · rcases checkLine_cases (Option.mem_toList.1 check) with rfl | rfl
      · exact ⟨_, by decide, List.prefix_rfl⟩
      · exact ⟨_, by decide, List.prefix_rfl⟩
  · obtain rfl := List.mem_singleton.1 h
    exact ⟨"**Error:** ", by decide, by simp⟩

theorem not_front_of_outcome (told : s.success = true → s.answerLine = .ok answer) {line : String}
    (h : line ∈ s.outcomeTexts answer) : ¬ IsFrontLine line := fun front => by
  obtain ⟨label, known, begins⟩ := outcome_labelled told h
  exact front.not_labelled known begins

end Outcome

/-! ## The steps, read back -/

/-- The lines below the heading of the steps, up to the next empty one. -/
def stepPart (text : String) : List String :=
  (((linesOf text).dropWhile (· ≠ stepHeading)).drop 1).takeWhile (· ≠ "")

theorem ne_empty_of_mem_numbered {n : ℕ} {steps : List String} {line : String}
    (h : line ∈ numbered n steps) : line ≠ "" := by
  rw [numbered_eq, List.mem_mapIdx] at h
  obtain ⟨i, hi, rfl⟩ := h
  obtain ⟨c, rest, chars, -⟩ := natText_cons (n + i)
  simp [← String.toList_inj, chars]

theorem heading_not_mem_methodLines (s : Solution) : stepHeading ∉ s.methodLines := by
  unfold methodLines stepHeading
  split_ifs
  · exact List.not_mem_nil
  · simp [← String.toList_inj]

/-- The lines around those of the steps: what comes before the heading, and what follows the last
step, which is nothing or begins with an empty line. -/
theorem layout_of_steps (answer : Option String) (some : s.steps ≠ []) :
    ∃ rest, s.layout answer =
      (s.methodLines ++ [""]) ++ stepHeading :: (numbered 1 s.steps ++ rest) ∧
      rest.takeWhile (· ≠ "") = [] := by
  refine ⟨(s.outcomeTexts answer).flatMap fun line => ["", line], ?_, ?_⟩
  · rw [layout, if_neg (by simpa using some)]
    simp
  · cases s.outcomeTexts answer <;> simp

namespace IsLaidOut

variable {answer : Option String}

/-- The line of a check stands in the summary of a solution that has it. -/
theorem check_mem_iff (h : s.IsLaidOut answer text) {line : String}
    (check : line = "✓ Solution verified: Correct" ∨
      line = "✗ Solution not verified: Check required") :
    line ∈ linesOf text ↔ s.success = true ∧ s.checkLine = some line := by
  have known : line ∈ outcomeLabels := by rcases check with rfl | rfl <;> decide
  have other : ∀ l, IsFrontLine l → ¬ l = line := by
    rintro _ front rfl
    exact front.not_labelled known List.prefix_rfl
  rw [← check_in_outcome h.told check]
  simpa using h.exists_line_iff other

/-- The heading stands in the summary of a solution with steps, and in no other one. -/
theorem heading_mem_iff (h : s.IsLaidOut answer text) :
    stepHeading ∈ linesOf text ↔ s.steps ≠ [] := by
  constructor
  · intro shown bare
    rcases h.lines with same | ⟨-, blank⟩
    · rw [same, layout, bare] at shown
      rcases List.mem_append.1 shown with front | outcome
      · exact s.heading_not_mem_methodLines (by simpa using front)
      · obtain ⟨line, hl, below⟩ := List.mem_flatMap.1 outcome
        rcases List.mem_cons.1 below with empty | last
        · exact absurd empty (by decide)
        · rw [← List.mem_singleton.1 last] at hl
          exact not_front_of_outcome h.told hl .heading
    · rw [blank] at shown
      exact absurd (List.mem_singleton.1 shown) (by decide)
  · intro some
    obtain ⟨rest, parts, -⟩ := layout_of_steps answer some
    rcases h.lines with same | ⟨bare, -⟩
    · rw [same, parts]
      exact List.mem_append_right _ List.mem_cons_self
    · rw [parts] at bare
      exact absurd bare (by simp)

theorem stepPart_eq (h : s.IsLaidOut answer text) : stepPart text = numbered 1 s.steps := by
  unfold stepPart
  by_cases bare : s.steps = []
  · have missing : stepHeading ∉ linesOf text := fun shown => h.heading_mem_iff.1 shown bare
    have skipped : (linesOf text).dropWhile (· ≠ stepHeading) = [] :=
      List.dropWhile_eq_nil_iff.2 fun line hl => by
        simpa using ne_of_mem_of_not_mem hl missing
    rw [skipped, bare]
    rfl
  · obtain ⟨rest, parts, ends⟩ := layout_of_steps answer bare
    have before : ∀ line ∈ s.methodLines ++ [""], decide (line ≠ stepHeading) = true := by
      intro line hl
      rcases List.mem_append.1 hl with method | blank
      · simpa using ne_of_mem_of_not_mem method s.heading_not_mem_methodLines
      · rw [List.mem_singleton.1 blank]
        decide
    have steps : ∀ line ∈ numbered 1 s.steps, decide (line ≠ "") = true := fun line hl => by
      simpa using ne_empty_of_mem_numbered hl
    rcases h.lines with same | ⟨none, -⟩
    · rw [same, parts, List.dropWhile_append_of_pos before, List.dropWhile_cons_of_neg (by simp),
        List.drop_one, List.tail_cons, List.takeWhile_append_of_pos steps, ends, List.append_nil]
    · rw [parts] at none
      exact absurd none (by simp)

end IsLaidOut

/-! ## The law -/

/-- A summary can be read line by line. There is one unless its answer cannot be written. The steps
stand below their heading with their numbers, up to an empty line or the end, so that summaries that
are the same tell the same steps. A line with an error stands in it exactly if the solution failed,
and then there is no line with an answer or with a check; a check that was passed has its line, and
so has an answer that passed none. -/
theorem summaries_are_read_line_by_line {s : Solution} (h : s.IsOneLined) :
    ((∃ text, s.summary = .ok text) ↔
      (s.success = true → ∃ answer, s.answerLine = .ok answer)) ∧
    ∀ text, s.summary = .ok text →
      (stepHeading ∈ linesOf text ↔ s.steps ≠ []) ∧
      stepPart text = s.steps.mapIdx (fun i step => natText (i + 1) ++ ". " ++ step) ∧
      (∀ t : Solution, t.IsOneLined → t.summary = .ok text → t.steps = s.steps) ∧
      (HasLine text "**Error:** " ↔ s.success = false) ∧
      (HasLine text "**Solutions:** " ∨ HasLine text "**Answer:** " ↔
        s.success = true ∧ s.HasAnswer) ∧
      ("✓ Solution verified: Correct" ∈ linesOf text ↔ s.success = true ∧ s.verified = true) ∧
      ("✗ Solution not verified: Check required" ∈ linesOf text ↔
        s.success = true ∧ s.verified = false ∧ s.answer ≠ .nothing) := by
  refine ⟨⟨?_, ?_⟩, fun text ht => ?_⟩
  · rintro ⟨text, ht⟩ success
    obtain ⟨answer, told, -⟩ := summary_eq_ok_iff.1 ht
    exact ⟨answer, told success⟩
  · intro written
    by_cases success : s.success = true
    · obtain ⟨answer, told⟩ := written success
      exact ⟨_, summary_eq_ok_iff.2 ⟨answer, fun _ => told, rfl⟩⟩
    · exact ⟨_, summary_eq_ok_iff.2 ⟨none, fun yes => absurd yes success, rfl⟩⟩
  obtain ⟨answer, laid⟩ := h.exists_isLaidOut ht
  refine ⟨laid.heading_mem_iff, ?_, ?_, ?_, ?_, ?_, ?_⟩
  · rw [laid.stepPart_eq, numbered_eq]
    simp only [Nat.add_comm]
  · intro t plain same
    obtain ⟨other, laidOther⟩ := plain.exists_isLaidOut same
    exact numbered_injective (laidOther.stepPart_eq.symm.trans laid.stepPart_eq)
  · exact (laid.exists_line_iff fun _ front => front.not_labelled (by decide)).trans
      (error_in_outcome laid.told)
  · simp only [HasLine, ← exists_or, ← and_or_left]
    refine (laid.exists_line_iff fun _ front => ?_).trans (answer_in_outcome laid.told)
    exact not_or.2 ⟨front.not_labelled (by decide), front.not_labelled (by decide)⟩
  · rw [laid.check_mem_iff (.inl rfl), checkLine_verified]
  · rw [laid.check_mem_iff (.inr rfl), checkLine_unverified]

/-- A product that was not checked is told with its one step. -/
theorem an_unchecked_product_is_told :
    ∃ text, Solution.summary
        { method := "standard", answer := .whole 12, steps := ["3 × 4 = 12"] } = .ok text ∧
      stepPart text = ["1. 3 × 4 = 12"] ∧ ¬ HasLine text "**Error:** " ∧
      "✗ Solution not verified: Check required" ∈ linesOf text := by
  have line : Solution.answerLine
      { method := "standard", answer := .whole 12, steps := ["3 × 4 = 12"] } =
        .ok (some "**Answer:** 12") := by
    decide +kernel
  have plain : IsOneLined
      { method := "standard", answer := .whole 12, steps := ["3 × 4 = 12"] } := by
    refine ⟨by decide, by decide, nofun, fun _ shown told => ?_⟩
    rw [line] at told
    cases told
    decide
  obtain ⟨written, law⟩ := summaries_are_read_line_by_line plain
  obtain ⟨text, ht⟩ := written.2 fun _ => ⟨_, line⟩
  obtain ⟨-, steps, -, error, -, -, check⟩ := law text ht
  exact ⟨text, ht, steps, by simp [error], check.2 ⟨rfl, rfl, nofun⟩⟩

end Solution

end Reckoner
