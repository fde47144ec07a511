-- When a question is answered. Once a question is classified, all that goes wrong is told in its
-- answer. A number of too many digits keeps a question from being classified; nothing else does.
import Reckoner.Engine.Answer
import Reckoner.Proofs.Question.Literals

namespace Reckoner

/-! ## The text of a question -/

theorem questionText_written (question : Value) :
    WrittenWhen (questionText question) question.wholeNumbers fun _ => True := by
  cases question with
  | nothing => exact .ok trivial
  | _ => exact Value.toText_written _

/-- The numbers of a question have few enough digits: those that stand in its value can be
written, and those of its text can be read. -/
def HasReadableNumbers (question : Value) : Prop :=
  (∀ n ∈ question.wholeNumbers, Writable n) ∧
    ∀ text, questionText question = .ok text → ∀ l ∈ literals text, l.Readable

/-- The fault is a number of too many digits. -/
def IsTooLong : ValueFault → Prop
  | .tooLongToWrite => True
  | .tooLongToRead digits => maxDigits < digits
  | _ => False

theorem ofQuestion_of_readable {text : String} (h : ∀ l ∈ literals text, l.Readable) :
    ∃ c, Classification.ofQuestion text = .ok c := by
  obtain ⟨vs, hvs⟩ := literalValues_of_readable h
  exact ⟨_, by rw [Classification.ofQuestion, numbersIn, hvs]; rfl⟩

theorem ofQuestion_of_not_readable {text : String} (h : ∃ l ∈ literals text, ¬ l.Readable) :
    ∃ f, Classification.ofQuestion text = .error f ∧ IsTooLong f := by
  obtain ⟨l, -, hl, hvs⟩ := literalValues_of_not_readable h
  refine ⟨_, by rw [Classification.ofQuestion, numbersIn, hvs]; rfl, ?_⟩
  simp only [Literal.Readable, Classical.not_imp, not_le] at hl
  exact hl.2

/-! ## Answers -/

namespace Engine

/-- The work on a classified question: its options are read, and its route is followed. -/
def work (engine : Engine) (text : String) (c : Classification) (given : Value)
    (store : SettingStore) : Except Fault (Option (Route × Solution)) := do
  (engine.follow text c (← (readOptions given store).1)).outcome

/-- The answer tells what became of the work: what came out of it, or else what went wrong. -/
def Tells (a : Answer) : Except Fault (Option (Route × Solution)) → Prop
  | .ok outcome => a.outcome = outcome ∧ a.fault = none
  | .error f => a.outcome = none ∧ a.fault = some f

variable (engine : Engine) {question : Value} (given : Value) (store : SettingStore)

/-- What goes wrong in the work on a classified question does not stop the answer. -/
theorem solve_of_classified {text : String} {c : Classification}
    (ht : questionText question = .ok text) (hc : Classification.ofQuestion text = .ok c) :
    ∃ a, (engine.solve question given store).1.outcome = .ok a ∧ a.question = text ∧
      a.classification = c ∧ Tells a (engine.work text c given store) := by
  unfold solve work
  simp only [ht, ok_bind, hc]
  cases (readOptions given store).1 with
  | error f => exact ⟨⟨text, c, none, some f⟩, rfl, rfl, rfl, rfl, rfl⟩
  | ok options =>
    simp only [ok_bind, answerOf]
    cases (engine.follow text c options).outcome with
    | error f => exact ⟨⟨text, c, none, some f⟩, rfl, rfl, rfl, rfl, rfl⟩
    | ok outcome => exact ⟨⟨text, c, outcome, none⟩, rfl, rfl, rfl, rfl, rfl⟩

/-- A question that cannot be classified fails, and leaves the settings as they are. -/
theorem solve_of_not_classified {f : ValueFault}
    (h : (do Classification.ofQuestion (← questionText question)) = .error f) :
    engine.solve question given store = (.fail (.value f), store) := by
  unfold solve
  cases ht : questionText question with
  | error e =>
    rw [ht] at h
    cases h
    rfl
  | ok text =>
    rw [ht] at h
    simp only [ok_bind] at h
    simp only [ok_bind, h]

/-- A number of too many digits by itself cannot be classified. -/
theorem solve_of_long_number {digits : List Char} (hd : ∀ c ∈ digits, isDigit c)
    (hl : maxDigits < digits.length) :
    ∃ f, engine.solve (.text (String.ofList digits)) given store = (.fail (.value f), store) := by
  have hne : digits ≠ [] := by
    rintro rfl
    exact Nat.not_lt_zero _ hl
  have long : ∃ l ∈ literals (String.ofList digits), ¬ l.Readable := by
    rw [literals_digits hne hd]
    exact ⟨_, List.mem_singleton_self _, fun h => absurd (h rfl) (not_le.2 hl)⟩
  obtain ⟨f, hf, -⟩ := ofQuestion_of_not_readable long
  exact ⟨f, engine.solve_of_not_classified given store hf⟩

/-- A question is answered unless a number in it has too many digits. -/
theorem a_question_with_readable_numbers_is_answered (question : Value) :
    (HasReadableNumbers question ∧
        ∃ text c a, questionText question = .ok text ∧ Classification.ofQuestion text = .ok c ∧
          (engine.solve question given store).1.outcome = .ok a ∧ a.question = text ∧
          a.classification = c ∧ Tells a (engine.work text c given store)) ∨
      (¬ HasReadableNumbers question ∧
        ∃ f, IsTooLong f ∧ engine.solve question given store = (.fail (.value f), store)) := by
  rcases questionText_written question with ⟨hw, text, ht, -⟩ | ⟨⟨n, hn, hw⟩, ht⟩
  · by_cases hr : ∀ l ∈ literals text, l.Readable
    · obtain ⟨c, hc⟩ := ofQuestion_of_readable hr
      refine Or.inl ⟨⟨hw, fun t h => ?_⟩, text, c, ?_⟩
      · rw [ht] at h
        cases h
        exact hr
      · obtain ⟨a, ha⟩ := engine.solve_of_classified given store ht hc
        exact ⟨a, ht, hc, ha⟩
    · refine Or.inr ⟨fun h => hr (h.2 text ht), ?_⟩
      push Not at hr
      obtain ⟨f, hf, hlong⟩ := ofQuestion_of_not_readable hr
      exact ⟨f, hlong, engine.solve_of_not_classified given store (by rw [ht]; exact hf)⟩
  · refine Or.inr ⟨fun h => hw (h.1 n hn), .tooLongToWrite, trivial, ?_⟩
    exact engine.solve_of_not_classified given store (by rw [ht]; rfl)

/-- A number of 4301 digits by itself gets no answer. -/
theorem a_number_of_4301_digits_gets_no_answer :
    ¬ ∃ a, (fresh.solve (.text (String.ofList (List.replicate 4301 '1'))) .nothing {}).1.outcome =
      .ok a := by
  have digits : ∀ c ∈ List.replicate 4301 '1', isDigit c := by
    intro c hc
    rw [List.eq_of_mem_replicate hc]
    decide
  have long : maxDigits < (List.replicate 4301 '1').length := by
    rw [List.length_replicate]
    decide
  obtain ⟨f, hf⟩ := fresh.solve_of_long_number .nothing {} digits long
  rw [hf]
  rintro ⟨a, ha⟩
  cases ha

end Engine

end Reckoner
