-- Timed work against the work by itself. Its arguments are written down before it begins, so it is
-- done as it would be by itself as far as all of them can be written, and not at all otherwise.
import Reckoner.Proofs.Log.Lines
import Reckoner.Proofs.Log.Outcome

namespace Reckoner

/-! ## Texts of arguments -/

/-- The texts of named arguments are those of their values, in order. -/
theorem namedTexts_eq (named : List (String × Value)) :
    namedTexts named = do
      let texts ← argumentTexts (named.map Prod.snd)
      return (named.map Prod.fst).zip (texts.map Value.text) := by
  induction named with
  | nil => rfl
  | cons p rest ih =>
    obtain ⟨name, v⟩ := p
    rw [namedTexts, ih, List.map_cons, argumentTexts]
    cases argumentText v with
    | error fault => rfl
    | ok text => cases argumentTexts (rest.map Prod.snd) <;> rfl

/-- The texts that are told of named arguments have no numbers in them. -/
theorem wholeNumbers_namedTexts {named fields : List (String × Value)}
    (h : namedTexts named = .ok fields) : (Value.record fields).wholeNumbers = [] := by
  rw [namedTexts_eq] at h
  obtain ⟨texts, -, told⟩ := ok_of_bind h
  obtain rfl := Except.ok.inj told
  refine List.eq_nil_iff_forall_not_mem.2 fun n hn => ?_
  rw [Value.wholeNumbers] at hn
  obtain ⟨⟨name, v⟩, hp, hn⟩ := Value.mem_wholeNumbersUnder.1 hn
  obtain ⟨text, -, rfl⟩ := List.mem_map.1 (List.of_mem_zip hp).2
  cases hn

/-! ## The records of timed work -/

/-- The record that work begins, with the texts of its arguments. -/
def startRecord (name : String) (texts : List String) (named : List (String × Value)) :
    LogRecord where
  level := .debug
  message := "Starting " ++ name
  fields := [("args", .texts texts), ("kwargs", .record named)]

variable {α : Type} {name : String} {arguments : List Value} {named : List (String × Value)}

/-- The record of the start, the records of the work and the record of its end. -/
theorem timed_of_texts {texts : List String} {fields : List (String × Value)}
    (ht : argumentTexts arguments = .ok texts) (hf : namedTexts named = .ok fields)
    (work : Logged α) :
    timed name arguments named work =
      ⟨startRecord name texts fields :: (work.records ++ [endRecord name work.outcome]),
        work.outcome⟩ := by
  unfold timed
  rw [ht, hf]
  rfl

/-- Work is not begun where one of its arguments cannot be written. -/
theorem timed_of_long_argument
    (h : ∃ v ∈ arguments ++ named.map Prod.snd, ∃ n ∈ v.wholeNumbers, ¬ Writable n)
    (work : Logged α) :
    timed name arguments named work = .fail (.value .tooLongToWrite) := by
  unfold timed
  by_cases first : ∃ v ∈ arguments, ∃ n ∈ v.wholeNumbers, ¬ Writable n
  · rw [argumentTexts_not_written first]
    rfl
  · obtain ⟨texts, ht⟩ := @argumentTexts_written arguments (by push Not at first; exact first)
    have later : ∃ v ∈ named.map Prod.snd, ∃ n ∈ v.wholeNumbers, ¬ Writable n := by
      obtain ⟨v, hv, hn⟩ := h
      exact ⟨v, (List.mem_append.1 hv).resolve_left fun hv => first ⟨v, hv, hn⟩, hn⟩
    rw [ht, namedTexts_eq, argumentTexts_not_written later]
    rfl

theorem startRecord_isWritable (name : String) (texts : List String)
    {fields : List (String × Value)} (h : (Value.record fields).wholeNumbers = []) :
    (startRecord name texts fields).IsWritable := by
  intro n hn
  simp [startRecord, Value.wholeNumbersUnder, Value.wholeNumbers_texts, h] at hn

theorem endRecord_isWritable (name : String) (outcome : Except Fault α) :
    (endRecord name outcome).IsWritable := by
  intro n hn
  cases outcome <;>
    simp [endRecord, completedRecord, failedRecord, Value.wholeNumbersUnder, Value.wholeNumbers]
      at hn

/-! ## Timed work and the work by itself -/

/-- The run of some work leaves a record of the start, the records of the work, and one record of
the end, which tells whether the work failed. -/
structure IsTold (name : String) (run work : Logged α) (log : Logger) : Prop where
  outcome : run.outcome = work.outcome
  lines : ∃ start first last, start.level = .debug ∧ start.message = "Starting " ++ name ∧
    run.records = start :: (work.records ++ [endRecord name work.outcome]) ∧
    log.line start = .ok first ∧ log.line (endRecord name work.outcome) = .ok last ∧
    log.lines run.records = log.told .debug first ++ (log.lines work.records ++
      log.told (endRecord name work.outcome).level last)

end Reckoner
