-- What comes out of work that leaves records. The records never change what comes out, and only
-- an argument that cannot be written does.
import Reckoner.Log.Journal
import Reckoner.Proofs.Value.Writing

namespace Reckoner

namespace Logged

variable {α β : Type}

@[simp]
theorem outcome_bind (work : Logged α) (next : α → Logged β) :
    (work >>= next).outcome = work.outcome >>= fun a => (next a).outcome := by
  change (andThen work next).outcome = _
  unfold andThen
  cases work.outcome <;> rfl

@[simp]
theorem outcome_pure (a : α) : (pure a : Logged α).outcome = .ok a := rfl

@[simp]
theorem outcome_lift (outcome : Except Fault α) : (liftM outcome : Logged α).outcome = outcome :=
  rfl

@[simp]
theorem outcome_ofOutcome (outcome : Except Fault α) : (ofOutcome outcome).outcome = outcome := rfl

@[simp]
theorem outcome_note (level : LogLevel) (message : String) (fields : List (String × Value)) :
    (note level message fields).outcome = .ok () := rfl

end Logged

/-! ## Timed work -/

theorem argumentText_written {v : Value} (h : ∀ n ∈ v.wholeNumbers, Writable n) :
    ∃ text, argumentText v = .ok text := by
  rcases v.toText_written with ⟨-, text, ht, -⟩ | ⟨⟨n, hn, hw⟩, -⟩
  · unfold argumentText
    rw [ht]
    exact ⟨_, rfl⟩
  · exact absurd (h n hn) hw

theorem argumentTexts_written {arguments : List Value}
    (h : ∀ v ∈ arguments, ∀ n ∈ v.wholeNumbers, Writable n) :
    ∃ texts, argumentTexts arguments = .ok texts := by
  induction arguments with
  | nil => exact ⟨[], rfl⟩
  | cons v rest ih =>
    obtain ⟨text, ht⟩ := argumentText_written (h v (by simp))
    obtain ⟨texts, hts⟩ := ih fun w hw => h w (List.mem_cons_of_mem _ hw)
    exact ⟨text :: texts, by rw [argumentTexts, ht, hts]; rfl⟩

/-- Timed work comes out as the work does, where its arguments can be written. -/
theorem timed_outcome {α : Type} (name : String) {arguments : List Value} (work : Logged α)
    (h : ∀ v ∈ arguments, ∀ n ∈ v.wholeNumbers, Writable n) :
    (timed name arguments [] work).outcome = work.outcome := by
  obtain ⟨texts, ht⟩ := argumentTexts_written h
  simp [timed, ht, namedTexts]

theorem argumentText_not_written {v : Value} (h : ∃ n ∈ v.wholeNumbers, ¬ Writable n) :
    argumentText v = .error (.value .tooLongToWrite) := by
  rcases v.toText_written with ⟨hw, -⟩ | ⟨-, ht⟩
  · obtain ⟨n, hn, hl⟩ := h
    exact absurd (hw n hn) hl
  · unfold argumentText
    rw [ht]
    rfl

theorem argumentTexts_not_written {arguments : List Value}
    (h : ∃ v ∈ arguments, ∃ n ∈ v.wholeNumbers, ¬ Writable n) :
    argumentTexts arguments = .error (.value .tooLongToWrite) := by
  induction arguments with
  | nil => simp at h
  | cons v rest ih =>
    rw [argumentTexts]
    by_cases first : ∃ n ∈ v.wholeNumbers, ¬ Writable n
    · rw [argumentText_not_written first]
      rfl
    · obtain ⟨text, ht⟩ := argumentText_written (v := v) (by push Not at first; exact first)
      rw [ht, ih (by simpa [first] using h)]
      rfl

/-- Timed work is not begun where one of its arguments cannot be written. -/
theorem timed_not_written {α : Type} (name : String) {arguments : List Value} (work : Logged α)
    (h : ∃ v ∈ arguments, ∃ n ∈ v.wholeNumbers, ¬ Writable n) :
    (timed name arguments [] work).outcome = .error (.value .tooLongToWrite) := by
  simp [timed, argumentTexts_not_written h]

end Reckoner
