-- Which records have a line in a log. A field with a whole number of too many digits in it takes
-- the line away, and nothing else does.
import Mathlib
import Reckoner.Log.Logger
import Reckoner.Proofs.Sorting
import Reckoner.Proofs.Value.Writing

namespace Reckoner

/-! ## Entries that are put in -/

section Entries

variable {name : String} {v : Value} {fields : List (String × Value)}

theorem lookupEntry_putField (name : String) (v : Value) (fields : List (String × Value))
    (k : String) :
    lookupEntry k (putField name v fields) = if k = name then some v else lookupEntry k fields := by
  unfold putField
  induction fields with
  | nil => simp only [addEntry, lookupEntry, eq_comm (a := name)]
  | cons p r ih =>
    obtain ⟨l, w⟩ := p
    unfold addEntry
    by_cases same : l = name
    · subst same
      simp only [if_true, lookupEntry, eq_comm (a := l)]
      split_ifs <;> rfl
    · by_cases first : l = k
      · subst first
        simp [lookupEntry, same]
      · simp [lookupEntry, same, first, ih]

theorem nodup_putField (name : String) (v : Value) (h : (fields.map Prod.fst).Nodup) :
    ((putField name v fields).map Prod.fst).Nodup := by
  unfold putField
  rw [keys_addEntry]
  split_ifs with known
  · exact h
  · exact List.nodup_append.2 ⟨h, List.nodup_singleton name, fun a ha b hb same =>
      known (List.mem_singleton.1 hb ▸ same ▸ ha)⟩

/-- What stands in a list of entries was there before, or is the entry that was put in. -/
theorem mem_putField {p : String × Value} (h : p ∈ putField name v fields) :
    p = (name, v) ∨ p ∈ fields := by
  unfold putField at h
  induction fields with
  | nil => exact .inl (List.mem_singleton.1 h)
  | cons q r ih =>
    obtain ⟨l, w⟩ := q
    unfold addEntry at h
    split_ifs at h with same
    · rcases List.mem_cons.1 h with rfl | later
      · exact .inl (by rw [same])
      · exact .inr (List.mem_cons_of_mem _ later)
    · rcases List.mem_cons.1 h with rfl | later
      · exact .inr List.mem_cons_self
      · exact (ih later).imp_right (List.mem_cons_of_mem _)

/-- All the entries, put in one after another. -/
def putFields (start fields : List (String × Value)) : List (String × Value) :=
  fields.foldl (fun acc (name, v) => putField name v acc) start

variable {start : List (String × Value)}

theorem putFields_cons (start : List (String × Value)) (p : String × Value)
    (fields : List (String × Value)) :
    putFields start (p :: fields) = putFields (putField p.1 p.2 start) fields := rfl

theorem mem_putFields {p : String × Value} (h : p ∈ putFields start fields) :
    p ∈ start ∨ p ∈ fields := by
  induction fields generalizing start with
  | nil => exact .inl h
  | cons q r ih =>
    rcases ih h with before | later
    · exact (mem_putField before).elim (fun same => .inr (same ▸ List.mem_cons_self)) .inl
    · exact .inr (List.mem_cons_of_mem _ later)

theorem nodup_putFields (fields : List (String × Value)) (h : (start.map Prod.fst).Nodup) :
    ((putFields start fields).map Prod.fst).Nodup := by
  induction fields generalizing start with
  | nil => exact h
  | cons p r ih => exact ih (nodup_putField p.1 p.2 h)

/-- Where no name stands twice, every entry that was put in is found, and what was there before
is found under the other names. -/
theorem lookupEntry_putFields (nodup : (fields.map Prod.fst).Nodup) (k : String) :
    lookupEntry k (putFields start fields) =
      (lookupEntry k fields).orElse fun _ => lookupEntry k start := by
  induction fields generalizing start with
  | nil => rfl
  | cons p r ih =>
    obtain ⟨name, v⟩ := p
    obtain ⟨new, nodup⟩ := List.nodup_cons.1 nodup
    rw [putFields_cons, ih nodup, lookupEntry_putField]
    rw [lookupEntry]
    by_cases same : k = name
    · subst same
      rw [lookupEntry_eq_none_iff.2 new, if_pos rfl, if_pos rfl]
      rfl
    · rw [if_neg same, if_neg (Ne.symm same)]

end Entries

/-! ## Numbers in fields -/

namespace Value

theorem mem_wholeNumbersUnder {n : Int} {fields : List (String × Value)} :
    n ∈ wholeNumbersUnder fields ↔ ∃ p ∈ fields, n ∈ p.2.wholeNumbers := by
  induction fields with
  | nil => simp [wholeNumbersUnder]
  | cons p r ih =>
    obtain ⟨name, v⟩ := p
    simp [wholeNumbersUnder, ih]

theorem wholeNumbers_texts (l : List String) : (texts l).wholeNumbers = [] := by
  rw [texts, wholeNumbers]
  induction l with
  | nil => rfl
  | cons s r ih => simp [wholeNumbersOf, wholeNumbers, ih]

theorem objectNumber_written (q : Quantity) :
    WrittenWhen (objectNumber q) (number q).wholeNumbers fun _ => True := by
  cases q with
  | whole n =>
    rw [wholeNumbers]
    exact (wholeText_written n).imp fun _ _ => trivial
  | measure x => exact .ok trivial

mutual
theorem objectForm_written : ∀ v : Value, WrittenWhen v.objectForm v.wholeNumbers fun _ => True
  | number q => by
    rw [objectForm]
    exact objectNumber_written q
  | list l => by
    rw [objectForm, wholeNumbers]
    exact (objectItems_written l).map _ fun _ _ => trivial
  | record l => by
    rw [objectForm, wholeNumbers]
    exact (objectEntries_written l).map _ fun _ _ => trivial
  | nothing | truth _ | text _ | formula _ | cycle _ => .ok trivial
theorem objectItems_written :
    ∀ l : List Value, WrittenWhen (objectItems l) (wholeNumbersOf l) fun _ => True
  | [] => .ok trivial
  | a :: r => by
    rw [objectItems, wholeNumbersOf]
    exact (objectForm_written a).bind fun _ _ => (objectItems_written r).map _ fun _ _ => trivial
theorem objectEntries_written :
    ∀ l : List (String × Value), WrittenWhen (objectEntries l) (wholeNumbersUnder l) fun _ => True
  | [] => .ok trivial
  | (_, a) :: r => by
    rw [objectEntries, wholeNumbersUnder]
    exact (objectForm_written a).bind fun _ _ => (objectEntries_written r).map _ fun _ _ => trivial
end

end Value

/-! ## Lines -/

namespace LogRecord

variable {r : LogRecord}

/-- The fields as they are told are the session and the fields by their names in the log. -/
theorem toldFields_eq (r : LogRecord) :
    r.toldFields = putFields [("session_id", .text sessionMark)]
      (r.fields.map (Prod.map fieldName id)) := by
  unfold toldFields putFields
  rw [List.foldl_map]
  rfl

theorem nodup_toldFields (r : LogRecord) : (r.toldFields.map Prod.fst).Nodup := by
  rw [toldFields_eq]
  exact nodup_putFields _ (List.nodup_singleton _)

/-- All that a record tells can be written. -/
def IsWritable (r : LogRecord) : Prop := ∀ n ∈ Value.wholeNumbersUnder r.fields, Writable n

theorem IsWritable.told (h : r.IsWritable) {p : String × Value} (hp : p ∈ r.toldFields) {n : Int}
    (hn : n ∈ p.2.wholeNumbers) : Writable n := by
  rw [toldFields_eq] at hp
  rcases mem_putFields hp with session | field
  · rw [List.mem_singleton.1 session] at hn
    cases hn
  · obtain ⟨q, hq, rfl⟩ := List.mem_map.1 field
    exact h n (Value.mem_wholeNumbersUnder.2 ⟨q, hq, hn⟩)

theorem IsWritable.session (h : r.IsWritable) : ∃ s, r.session.toText = .ok s := by
  refine Value.exists_toText_iff.2 fun n hn => ?_
  unfold LogRecord.session Value.field Value.field? at hn
  cases found : lookupEntry "session_id" r.toldFields with
  | none =>
    rw [found] at hn
    cases hn
  | some v =>
    rw [found] at hn
    exact h.told ((mem_iff_lookupEntry r.nodup_toldFields).2 found) hn

/-- A record that can be written has a line for readers. -/
theorem IsWritable.textLine (h : r.IsWritable) : ∃ s, r.textLine = .ok s := by
  obtain ⟨session, told⟩ := h.session
  have extra : ∀ l : List (String × Value), (∀ p ∈ l, p ∈ r.toldFields) →
      ∃ texts, l.mapM fieldText = .ok texts := by
    intro l hl
    induction l with
    | nil => exact ⟨[], rfl⟩
    | cons p l ih =>
      obtain ⟨first, rest⟩ := List.forall_mem_cons.1 hl
      obtain ⟨s, hs⟩ := Value.exists_toText_iff.2 fun n hn => h.told first hn
      obtain ⟨texts, ht⟩ := ih rest
      refine ⟨(p.1 ++ "=" ++ s) :: texts, ?_⟩
      rw [List.mapM_cons, fieldText, hs, ht]
      rfl
  obtain ⟨texts, ht⟩ := extra r.extraFields fun p hp => (List.mem_filter.1 hp).1
  unfold LogRecord.textLine
  rw [told, ht]
  exact ⟨_, rfl⟩

/-- What a line tells as an object: the parts of every record, the session and the fields. -/
def objectFields (logName : String) (r : LogRecord) (session : List (String × Value)) :
    List (String × Value) :=
  putFields ([("timestamp", .text timeMark), ("level", .text r.level.name),
    ("message", .text r.message), ("logger", .text logName)] ++ session) r.extraFields

theorem objectLine_eq (logName : String) (r : LogRecord) :
    r.objectLine logName = (do
      let session ← r.sessionEntry
      Value.objectForm (.record (objectFields logName r session))) := rfl

/-- A record that can be written has a line as an object. -/
theorem IsWritable.objectLine (h : r.IsWritable) (logName : String) :
    ∃ s, r.objectLine logName = .ok s := by
  obtain ⟨text, told⟩ := h.session
  obtain ⟨session, entry, plain⟩ : ∃ session, r.sessionEntry = .ok session ∧
      ∀ p ∈ session, p.2.wholeNumbers = [] := by
    unfold LogRecord.sessionEntry
    rw [told]
    by_cases hs : r.session.isTrue
    · rw [if_pos hs]
      exact ⟨_, rfl, by simp [Value.wholeNumbers]⟩
    · rw [if_neg hs]
      exact ⟨_, rfl, by simp⟩
  have numbers : ∀ n ∈
      (Value.record (objectFields logName r session)).wholeNumbers, Writable n := by
    intro n hn
    rw [Value.wholeNumbers] at hn
    obtain ⟨p, hp, hn⟩ := Value.mem_wholeNumbersUnder.1 hn
    rcases mem_putFields hp with start | extra
    · rcases List.mem_append.1 start with common | entry
      · have none : p.2.wholeNumbers = [] := by
          simp only [List.mem_cons, List.not_mem_nil, or_false] at common
          rcases common with rfl | rfl | rfl | rfl <;> rfl
        rw [none] at hn
        cases hn
      · rw [plain p entry] at hn
        cases hn
    · exact h.told (List.mem_filter.1 extra).1 hn
  rw [objectLine_eq, entry]
  rcases Value.objectForm_written (.record (objectFields logName r session)) with
    ⟨-, s, hs, -⟩ | ⟨⟨n, hn, no⟩, -⟩
  · exact ⟨s, hs⟩
  · exact absurd (numbers n hn) no

/-- A record that can be written has a line in every log. -/
theorem IsWritable.line (h : r.IsWritable) (log : Logger) : ∃ s, log.line r = .ok s := by
  unfold Logger.line
  split_ifs
  · exact h.objectLine log.name
  · exact h.textLine

end LogRecord

namespace Logger

/-- A line that a log keeps from a level on. -/
def told (log : Logger) (level : LogLevel) (line : String) : List String :=
  if log.keeps level then [line] else []

theorem lines_append (log : Logger) (first rest : List LogRecord) :
    log.lines (first ++ rest) = log.lines first ++ log.lines rest :=
  List.filterMap_append

/-- A record with a line leaves it in the log, from its level on. -/
theorem lines_singleton {log : Logger} {r : LogRecord} {line : String}
    (h : log.line r = .ok line) : log.lines [r] = log.told r.level line := by
  unfold lines told
  rw [List.filterMap_cons, List.filterMap_nil, h]
  split_ifs <;> rfl

end Logger

end Reckoner
