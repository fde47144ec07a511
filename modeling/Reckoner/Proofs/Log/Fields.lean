-- What the line of a call tells. The fields stand beside the parts that every line has, so a field
-- with the name of such a part takes its place, and the call itself has some names of its own.
import Reckoner.Proofs.Log.Lines
import Reckoner.Proofs.Log.Objects

namespace Reckoner

/-! ## Names of fields -/

theorem lookupEntry_filter {β : Type} (keep : String → Bool) (k : String)
    (l : List (String × β)) : lookupEntry k (l.filter fun p => keep p.1) =
      if keep k then lookupEntry k l else none := by
  induction l with
  | nil => exact (ite_self _).symm
  | cons p l ih =>
    obtain ⟨name, v⟩ := p
    rw [List.filter_cons]
    dsimp only
    by_cases same : name = k
    · subst same
      split_ifs with kept
      · rw [lookupEntry, lookupEntry, if_pos rfl, if_pos rfl]
      · rw [ih, if_neg kept]
    · split_ifs with this other other <;> simp [lookupEntry, same, ih, other]

/-- A name that is told and does not begin with an underscore is that of the field. -/
theorem eq_of_fieldName {name k : String} (h : fieldName name = k)
    (plain : k.toList.head? ≠ some '_') : name = k := by
  unfold fieldName at h
  split_ifs at h with reserved
  · refine absurd ?_ plain
    rw [← h, String.toList_append]
    rfl
  · exact h

theorem fieldsAreData_iff {l : List (String × Value)} :
    fieldsAreData l = true ↔ ∀ p ∈ l, p.2.isData = true := by
  induction l with
  | nil => simp [fieldsAreData]
  | cons p l ih =>
    obtain ⟨name, v⟩ := p
    rw [fieldsAreData, Bool.and_eq_true, ih, List.forall_mem_cons]

/-! ## Calls at a level -/

/-- A call of the method of a level. -/
def LogLevel.call (level : LogLevel) (message : String) (fields : List (String × Value)) :
    LogCall := ⟨small level.name, .text message, fields⟩

/-- The names that a call has for itself. -/
def takenNames : List String := ["self", "message", "level"]

theorem find?_small (level : LogLevel) :
    LogLevel.all.find? (fun other => small other.name == small level.name) = some level := by
  cases level <;> decide +kernel

/-- A call leaves a record of what it was given, unless a field has a name of the call. -/
theorem record_call (level : LogLevel) (message : String) (fields : List (String × Value)) :
    (level.call message fields).record.toOption =
      if ∀ p ∈ fields, p.1 ∉ takenNames then some ⟨level, message, fields⟩ else none := by
  have own : (level.call message fields).level? = some level := find?_small level
  have found : (Value.field? "level" (level.call message fields).fields).isSome = true ↔
      "level" ∈ fields.map Prod.fst := by
    change (lookupEntry "level" fields).isSome = true ↔ _
    rw [Option.isSome_iff_ne_none, Ne, lookupEntry_eq_none_iff, not_not]
  unfold LogCall.record
  rw [own]
  dsimp only
  by_cases free : ∀ p ∈ fields, p.1 ∉ takenNames
  · have unnamed : ∀ name ∈ fields.map Prod.fst, name ∉ takenNames := by
      rintro _ named
      obtain ⟨p, hp, rfl⟩ := List.mem_map.1 named
      exact free p hp
    have untaken : (level.call message fields).takenField? = none := by
      refine List.find?_eq_none.2 fun name named taken => unnamed name named ?_
      simp only [Bool.or_eq_true, decide_eq_true_eq] at taken
      rcases taken with rfl | rfl <;> decide
    have unleveled : "level" ∉ fields.map Prod.fst := fun named => unnamed _ named (by decide)
    rw [if_pos free, untaken]
    dsimp only
    rw [if_neg (mt found.1 unleveled)]
    rfl
  · rw [if_neg free]
    push Not at free
    obtain ⟨p, hp, named⟩ := free
    cases taken : (level.call message fields).takenField? with
    | some name => rfl
    | none =>
      have other := List.find?_eq_none.1 taken p.1 (List.mem_map_of_mem hp)
      simp only [Bool.or_eq_true, decide_eq_true_eq, not_or] at other
      simp only [takenNames, List.mem_cons, other, List.not_mem_nil, false_or, or_false] at named
      dsimp only
      rw [if_pos (found.2 (List.mem_map.2 ⟨p, hp, named⟩))]
      rfl

/-! ## What a line tells -/

namespace LogRecord

variable {r : LogRecord} {p : String × Value}

/-- No two fields of a record are told under one name. -/
def IsApart (r : LogRecord) : Prop := (r.fields.map fun p => fieldName p.1).Nodup

theorem IsApart.keys (h : r.IsApart) :
    ((r.fields.map (Prod.map fieldName id)).map Prod.fst).Nodup := by
  rw [List.map_map]
  exact h

theorem lookupEntry_told (h : r.IsApart) (k : String) : lookupEntry k r.toldFields =
    (lookupEntry k (r.fields.map (Prod.map fieldName id))).orElse fun _ =>
      lookupEntry k [("session_id", .text sessionMark)] := by
  rw [toldFields_eq, lookupEntry_putFields h.keys]

/-- A field is told under its name. -/
theorem lookupEntry_field (h : r.IsApart) (hp : p ∈ r.fields) :
    lookupEntry (fieldName p.1) r.toldFields = some p.2 := by
  have named : (fieldName p.1, p.2) ∈ r.fields.map (Prod.map fieldName id) :=
    List.mem_map.2 ⟨p, hp, rfl⟩
  rw [lookupEntry_told h, (mem_iff_lookupEntry h.keys).1 named]
  rfl

/-- Under another name than those of the fields and the session nothing is told. -/
theorem lookupEntry_told_eq_none {k : String} (h : r.IsApart) (plain : k.toList.head? ≠ some '_')
    (other : k ≠ "session_id") (free : ∀ p ∈ r.fields, p.1 ≠ k) :
    lookupEntry k r.toldFields = none := by
  have new : lookupEntry k (r.fields.map (Prod.map fieldName id)) = none := by
    rw [lookupEntry_eq_none_iff, List.map_map]
    intro named
    obtain ⟨p, hp, eq⟩ := List.mem_map.1 named
    exact free p hp (eq_of_fieldName eq plain)
  rw [lookupEntry_told h, new]
  simp [lookupEntry, Ne.symm other]

theorem lookupEntry_extra (r : LogRecord) {k : String} (h : k ≠ "session_id") :
    lookupEntry k r.extraFields = lookupEntry k r.toldFields := by
  have filtered := lookupEntry_filter (fun name => decide (name ≠ "session_id")) k r.toldFields
  rw [if_pos (decide_eq_true h)] at filtered
  exact filtered

theorem nodup_extra (r : LogRecord) : (r.extraFields.map Prod.fst).Nodup :=
  r.nodup_toldFields.sublist (List.filter_sublist.map _)

/-- The parts of a record that every line tells. -/
def parts (logName : String) (r : LogRecord) : List (String × Value) :=
  [("timestamp", .text timeMark), ("level", .text r.level.name), ("message", .text r.message),
    ("logger", .text logName)]

/-- On a line stand the fields, and the parts of the record under the other names. -/
theorem lookupEntry_object (logName : String) (session : List (String × Value)) (k : String) :
    lookupEntry k (objectFields logName r session) =
      (lookupEntry k r.extraFields).orElse fun _ =>
        lookupEntry k (r.parts logName ++ session) :=
  lookupEntry_putFields r.nodup_extra k

end LogRecord

/-! ## Lines that tell what was recorded -/

/-- The names of the parts that every line has. -/
def lineNames : List String := ["timestamp", "level", "message", "logger", "session_id"]

/-- What a line tells is what was recorded: the parts of the record itself, and each field under a
name of its own. -/
structure IsFaithful (logName : String) (r : LogRecord) (entries : List (String × Value)) :
    Prop where
  nodup : (entries.map Prod.fst).Nodup
  level : lookupEntry "level" entries = some (.text r.level.name)
  message : lookupEntry "message" entries = some (.text r.message)
  logger : lookupEntry "logger" entries = some (.text logName)
  session : lookupEntry "session_id" entries = some (.text sessionMark)
  fields : ∃ name : String → String, (r.fields.map fun p => name p.1).Nodup ∧
    ∀ p ∈ r.fields, (name p.1 ∈ lineNames → p.1 ∈ lineNames) ∧
      lookupEntry (name p.1) entries = some p.2

/-- Fields that a call can tell: none has a name of the call, one with the name of a part of the
record has its value, no two of them are told under one name, and all numbers can be written. -/
structure Tellable (logName : String) (fields : List (String × Value)) : Prop where
  free : ∀ p ∈ fields, p.1 ∉ takenNames
  logger : ∀ p ∈ fields, p.1 = "logger" → p.2 = .text logName
  session : ∀ p ∈ fields, p.1 = "session_id" → p.2 = .text sessionMark
  apart : (fields.map fun p => fieldName p.1).Nodup
  written : ∀ p ∈ fields, ∀ n ∈ p.2.wholeNumbers, Writable n

theorem plain_of_mem_lineNames {k : String} (h : k ∈ lineNames) : k.toList.head? ≠ some '_' := by
  simp only [lineNames, List.mem_cons, List.not_mem_nil, or_false] at h
  rcases h with rfl | rfl | rfl | rfl | rfl <;> decide

/-- A part keeps its name: the one that is reserved is taken by the call. -/
theorem fieldName_part {k : String} (part : k ∈ lineNames) (free : k ∉ takenNames) :
    fieldName k = k := by
  simp only [lineNames, List.mem_cons, List.not_mem_nil, or_false] at part
  rcases part with rfl | rfl | rfl | rfl | rfl
  · rfl
  · exact absurd (by decide) free
  · exact absurd (by decide) free
  · rfl
  · rfl

section Data

variable {logName : String} {r : LogRecord} {session : List (String × Value)}

theorem sessionEntry_of_session (h : r.session = .text sessionMark) :
    r.sessionEntry = .ok [("session_id", .text sessionMark)] := by
  unfold LogRecord.sessionEntry
  rw [h]
  rfl

/-- The entry of the session is its text, under its name. -/
theorem sessionEntry_cases (h : r.sessionEntry = .ok session) :
    session = [] ∨ ∃ s, r.session.toText = .ok s ∧ session = [("session_id", .text s)] := by
  unfold LogRecord.sessionEntry at h
  split_ifs at h
  · obtain ⟨s, hs, told⟩ := ok_of_bind h
    exact .inr ⟨s, hs, (Except.ok.inj told).symm⟩
  · exact .inl (Except.ok.inj h).symm

theorem nodup_object (h : r.sessionEntry = .ok session) :
    ((LogRecord.objectFields logName r session).map Prod.fst).Nodup := by
  refine nodup_putFields _ ?_
  rcases sessionEntry_cases h with rfl | ⟨s, -, rfl⟩ <;> simp

/-- On a line stand a part of the record, or a field under its name in the log. -/
theorem mem_object (h : r.sessionEntry = .ok session) {p : String × Value}
    (hp : p ∈ LogRecord.objectFields logName r session) :
    (p.1 ∈ lineNames ∧ ∃ s, p.2 = .text s) ∨ ∃ q ∈ r.fields, p = (fieldName q.1, q.2) := by
  rcases mem_putFields hp with start | extra
  · refine .inl ?_
    rcases List.mem_append.1 start with common | own
    · simp only [List.mem_cons, List.not_mem_nil, or_false] at common
      rcases common with rfl | rfl | rfl | rfl <;> exact ⟨by dsimp only; decide, _, rfl⟩
    · rcases sessionEntry_cases h with rfl | ⟨s, -, rfl⟩
      · cases own
      · rw [List.mem_singleton.1 own]
        exact ⟨by dsimp only; decide, s, rfl⟩
  · have told := (List.mem_filter.1 extra).1
    rw [LogRecord.toldFields_eq] at told
    rcases mem_putFields told with start | field
    · rw [List.mem_singleton.1 start]
      exact .inl ⟨by dsimp only; decide, _, rfl⟩
    · obtain ⟨q, hq, rfl⟩ := List.mem_map.1 field
      exact .inr ⟨q, hq, rfl⟩

/-- What is told of plain data is plain data. -/
theorem isData_object (data : fieldsAreData r.fields = true) (h : r.sessionEntry = .ok session) :
    (Value.record (LogRecord.objectFields logName r session)).isData = true := by
  rw [Value.isData, Bool.and_eq_true, decide_eq_true_iff, fieldsAreData_iff]
  refine ⟨nodup_object h, fun p hp => ?_⟩
  rcases mem_object h hp with ⟨-, s, eq⟩ | ⟨q, hq, rfl⟩
  · rw [eq]
    rfl
  · exact fieldsAreData_iff.1 data q hq

/-- The line of a record of plain data is read as what it tells. -/
theorem readObject?_objectLine (data : fieldsAreData r.fields = true) {line : String}
    (h : r.objectLine logName = .ok line) : ∃ session, r.sessionEntry = .ok session ∧
      (Value.record (LogRecord.objectFields logName r session)).objectForm = .ok line ∧
      readObject? line = some (.record (LogRecord.objectFields logName r session)) := by
  rw [LogRecord.objectLine_eq] at h
  obtain ⟨session, entry, form⟩ := ok_of_bind h
  exact ⟨session, entry, form, readObject?_objectForm (isData_object data entry) form⟩

theorem signed_ne_mark {a : Numeral} (plain : a.IsPlain) (negative : Bool) :
    (if negative then '-' :: a.chars else a.chars) ≠ sessionMark.toList := by
  obtain ⟨c, rest, head, digit⟩ := plain.exists_first
  cases negative with
  | true => exact fun eq => absurd (List.cons.inj eq).1 (by decide)
  | false =>
    rw [if_neg Bool.false_ne_true, head]
    intro eq
    rw [(List.cons.inj eq).1] at digit
    cases digit

/-- Only the mark of the session has its text. -/
theorem eq_mark_of_toText {v : Value} (data : v.isData = true)
    (h : v.toText = .ok sessionMark) : v = .text sessionMark := by
  cases v with
  | text s => rw [Except.ok.inj h]
  | nothing => exact absurd (Except.ok.inj h) (by decide)
  | truth b => cases b <;> exact absurd (Except.ok.inj h) (by decide)
  | number q =>
    exfalso
    cases q with
    | whole n =>
      by_cases written : Writable n
      · have text := (wholeText_of_writable written).symm.trans h
        refine signed_ne_mark (Numeral.ofNat_isPlain n.natAbs) (decide (n < 0)) ?_
        rw [← intText_signed, Except.ok.inj text]
      · cases (wholeText_of_not_writable written).symm.trans h
    | measure x =>
      obtain ⟨_, value⟩ := Double.exists_value data
      obtain ⟨a, text⟩ := Double.exists_isTextOf value
      refine signed_ne_mark text.plain (Double.isNegative x) ?_
      rw [← text.chars]
      exact congrArg String.toList (Except.ok.inj h)
  | list l =>
    obtain ⟨texts, -, told⟩ := ok_of_bind h
    have chars := congrArg String.toList (Except.ok.inj told)
    simp [sessionMark] at chars
  | record l =>
    obtain ⟨texts, -, told⟩ := ok_of_bind h
    have chars := congrArg String.toList (Except.ok.inj told)
    simp [sessionMark] at chars
  | formula f | cycle l => cases data

end Data

/-! ## Fields that are told -/

section Told

variable {logName : String} {r : LogRecord} {session : List (String × Value)}

theorem lookupEntry_session (session : List (String × Value)) :
    lookupEntry "session_id" (LogRecord.objectFields logName r session) =
      lookupEntry "session_id" session := by
  have extra : lookupEntry "session_id" r.extraFields = none := by
    have filtered := lookupEntry_filter (fun name => decide (name ≠ "session_id")) "session_id"
      r.toldFields
    rw [if_neg (by decide)] at filtered
    exact filtered
  rw [LogRecord.lookupEntry_object, extra]
  simp [LogRecord.parts, lookupEntry]

/-- Under a name other than that of the session a line tells the field of the name. -/
theorem lookupEntry_object_field (apart : r.IsApart) {p : String × Value} (hp : p ∈ r.fields)
    (other : fieldName p.1 ≠ "session_id") :
    lookupEntry (fieldName p.1) (LogRecord.objectFields logName r session) = some p.2 := by
  rw [LogRecord.lookupEntry_object, LogRecord.lookupEntry_extra r other,
    LogRecord.lookupEntry_field apart hp]
  rfl

/-- What is told under a name that does not begin with an underscore is the field of that name. -/
theorem field_of_told {k : String} {v : Value} (plain : k.toList.head? ≠ some '_')
    (found : lookupEntry k (r.fields.map (Prod.map fieldName id)) = some v) (apart : r.IsApart) :
    (k, v) ∈ r.fields := by
  obtain ⟨q, hq, eq⟩ := List.mem_map.1 ((mem_iff_lookupEntry apart.keys).2 found)
  obtain ⟨name, value⟩ := Prod.mk.inj eq
  rw [← eq_of_fieldName name plain, ← value]
  exact hq

/-- Fields that can be told are told faithfully. -/
theorem Tellable.isFaithful (h : Tellable logName r.fields) :
    r.sessionEntry = .ok [("session_id", .text sessionMark)] ∧
      IsFaithful logName r
        (LogRecord.objectFields logName r [("session_id", .text sessionMark)]) := by
  have apart : r.IsApart := h.apart
  have session : lookupEntry "session_id" r.toldFields = some (.text sessionMark) := by
    rw [LogRecord.lookupEntry_told apart]
    cases found : lookupEntry "session_id" (r.fields.map (Prod.map fieldName id)) with
    | none => rfl
    | some v =>
      rw [← h.session _ (field_of_told (by decide) found apart) rfl]
      rfl
  have entry : r.sessionEntry = .ok [("session_id", .text sessionMark)] := by
    refine sessionEntry_of_session ?_
    rw [LogRecord.session, Value.field, Value.field?, session]
    rfl
  -- the names of the call are not told, so the parts of the record stand under them
  have part : ∀ k ∈ takenNames, k.toList.head? ≠ some '_' → k ≠ "session_id" →
      lookupEntry k r.extraFields = none := fun k taken plain other => by
    rw [LogRecord.lookupEntry_extra r other]
    exact LogRecord.lookupEntry_told_eq_none apart plain other fun p hp eq =>
      h.free p hp (eq ▸ taken)
  refine ⟨entry, nodup_object entry, ?_, ?_, ?_, lookupEntry_session _, fieldName, apart,
    fun p hp => ⟨fun own => ?_, ?_⟩⟩
  · rw [LogRecord.lookupEntry_object, part "level" (by decide) (by decide) (by decide)]
    rfl
  · rw [LogRecord.lookupEntry_object, part "message" (by decide) (by decide) (by decide)]
    rfl
  · rw [LogRecord.lookupEntry_object, LogRecord.lookupEntry_extra r (by decide),
      LogRecord.lookupEntry_told apart]
    cases found : lookupEntry "logger" (r.fields.map (Prod.map fieldName id)) with
    | none => rfl
    | some v =>
      rw [← h.logger _ (field_of_told (by decide) found apart) rfl]
      rfl
  · rwa [eq_of_fieldName rfl (plain_of_mem_lineNames own)]
  · by_cases other : fieldName p.1 = "session_id"
    · rw [other, lookupEntry_session, h.session p hp (eq_of_fieldName other (by decide))]
      rfl
    · exact lookupEntry_object_field apart hp other

/-- Fields that have names of their own on a line are told under different names. -/
theorem isApart_of_names {name : String → String} (distinct : (r.fields.map Prod.fst).Nodup)
    (free : ∀ p ∈ r.fields, p.1 ∉ takenNames) (h : r.sessionEntry = .ok session)
    (apart : (r.fields.map fun p => name p.1).Nodup)
    (told : ∀ p ∈ r.fields, (name p.1 ∈ lineNames → p.1 ∈ lineNames) ∧
      lookupEntry (name p.1) (LogRecord.objectFields logName r session) = some p.2) :
    r.IsApart := by
  have same := List.inj_on_of_nodup_map apart
  -- the fields that have no name of a part, by their names
  let own : Finset String := ((r.fields.map Prod.fst).filter fun k => k ∉ lineNames).toFinset
  have mem_own : ∀ k, k ∈ own ↔ (∃ p ∈ r.fields, p.1 = k) ∧ k ∉ lineNames := by
    intro k
    simp only [own, List.mem_toFinset, List.mem_filter, List.mem_map, decide_eq_true_eq]
  have names : Set.InjOn name own := by
    intro k hk l hl eq
    obtain ⟨⟨p, hp, rfl⟩, -⟩ := (mem_own k).1 hk
    obtain ⟨⟨q, hq, rfl⟩, -⟩ := (mem_own l).1 hl
    rw [same hp hq eq]
  have inside : own.image name ⊆ own.image fieldName := by
    intro k hk
    obtain ⟨_, mem, rfl⟩ := Finset.mem_image.1 hk
    obtain ⟨⟨p, hp, rfl⟩, other⟩ := (mem_own _).1 mem
    obtain ⟨outside, found⟩ := told p hp
    have on := (mem_iff_lookupEntry (nodup_object h)).2 found
    rcases mem_object h on with ⟨part, -⟩ | ⟨q, hq, eq⟩
    · exact absurd (outside part) other
    · have named : name p.1 = fieldName q.1 := congrArg Prod.fst eq
      refine Finset.mem_image.2 ⟨q.1, (mem_own _).2 ⟨⟨q, hq, rfl⟩, fun part => ?_⟩, named.symm⟩
      rw [named, fieldName_part part (free q hq)] at outside
      exact other (outside part)
  have fields : Set.InjOn fieldName own := by
    refine Finset.card_image_iff.1 (le_antisymm Finset.card_image_le ?_)
    rw [← Finset.card_image_of_injOn names]
    exact Finset.card_le_card inside
  have keys : ∀ k ∈ r.fields.map Prod.fst, ∀ l ∈ r.fields.map Prod.fst,
      fieldName k = fieldName l → k = l := by
    intro k hk l hl eq
    obtain ⟨p, hp, rfl⟩ := List.mem_map.1 hk
    obtain ⟨q, hq, rfl⟩ := List.mem_map.1 hl
    by_cases first : p.1 ∈ lineNames
    · rw [fieldName_part first (free p hp)] at eq
      exact (eq_of_fieldName eq.symm (plain_of_mem_lineNames first)).symm
    by_cases second : q.1 ∈ lineNames
    · rw [fieldName_part second (free q hq)] at eq
      exact eq_of_fieldName eq (plain_of_mem_lineNames second)
    · exact fields ((mem_own _).2 ⟨⟨p, hp, rfl⟩, first⟩) ((mem_own _).2 ⟨⟨q, hq, rfl⟩, second⟩) eq
  have nodup := List.Nodup.map_on keys distinct
  rw [List.map_map] at nodup
  exact nodup

/-- Fields that are told faithfully can be told. -/
theorem IsFaithful.tellable {entries : List (String × Value)}
    (data : (Value.record r.fields).isData = true) (free : ∀ p ∈ r.fields, p.1 ∉ takenNames)
    {line : String} (told : r.objectLine logName = .ok line)
    (read : readObject? line = some (.record entries)) (h : IsFaithful logName r entries) :
    Tellable logName r.fields := by
  rw [Value.isData, Bool.and_eq_true, decide_eq_true_iff] at data
  obtain ⟨session, entry, form, own⟩ := readObject?_objectLine data.2 told
  obtain rfl := Value.record.inj (Option.some.inj (own.symm.trans read))
  obtain ⟨name, names, found⟩ := h.fields
  have apart := isApart_of_names data.1 free entry names found
  have mark : ∀ p ∈ r.fields, p.1 = "session_id" → p.2 = .text sessionMark := by
    intro p hp eq
    have value : r.session = p.2 := by
      have field := LogRecord.lookupEntry_field apart hp
      rw [eq, show fieldName "session_id" = "session_id" from rfl] at field
      rw [LogRecord.session, Value.field, Value.field?, field]
      rfl
    have mark := h.session
    rw [lookupEntry_session] at mark
    rcases sessionEntry_cases entry with rfl | ⟨s, text, rfl⟩
    · cases mark
    · obtain rfl := Value.text.inj (Option.some.inj mark)
      rw [value] at text
      exact eq_mark_of_toText (fieldsAreData_iff.1 data.2 p hp) text
  refine ⟨free, fun p hp eq => ?_, mark, apart, fun p hp n hn => ?_⟩
  · have field : lookupEntry (fieldName p.1) (LogRecord.objectFields logName r session) = _ :=
      lookupEntry_object_field apart hp (by rw [eq]; decide)
    rw [eq, show fieldName "logger" = "logger" from rfl, h.logger] at field
    exact (Option.some.inj field).symm
  · by_cases other : fieldName p.1 = "session_id"
    · rw [mark p hp (eq_of_fieldName other (by decide))] at hn
      cases hn
    · have on := (mem_iff_lookupEntry h.nodup).2 (lookupEntry_object_field apart hp other)
      rcases Value.objectForm_written (.record (LogRecord.objectFields logName r session)) with
        ⟨written, -⟩ | ⟨-, fault⟩
      · exact written n (Value.mem_wholeNumbersUnder.2 ⟨_, on, hn⟩)
      · cases form.symm.trans fault

end Told

/-! ## Calls that are told -/

theorem line_of_lines {log : Logger} {r : LogRecord} {line : String}
    (h : log.lines [r] = [line]) : log.line r = .ok line := by
  have mem : line ∈ log.lines [r] := h ▸ List.mem_singleton_self line
  obtain ⟨s, hs, told⟩ := List.mem_filterMap.1 mem
  obtain rfl := List.mem_singleton.1 hs
  split_ifs at told
  cases written : log.line s with
  | ok t =>
    rw [written] at told
    rw [Option.some.inj told]
  | error fault =>
    rw [written] at told
    cases told

section Line

variable {log : Logger} {level : LogLevel} {message : String} {fields : List (String × Value)}

/-- A call whose line tells what was recorded has fields that can be told. -/
theorem tellable_of_isFaithful (objects : log.asObjects = true)
    (data : (Value.record fields).isData = true) {r : LogRecord} {line : String}
    {entries : List (String × Value)} (record : (level.call message fields).record = .ok r)
    (told : log.callLines [level.call message fields] = [line])
    (read : readObject? line = some (.record entries))
    (faithful : IsFaithful log.name ⟨level, message, fields⟩ entries) :
    Tellable log.name fields := by
  have recorded := record_call level message fields
  rw [record] at recorded
  by_cases free : ∀ p ∈ fields, p.1 ∉ takenNames
  · rw [if_pos free] at recorded
    obtain rfl := Option.some.inj recorded
    rw [Logger.callLines, List.filterMap_cons, record] at told
    have written := line_of_lines told
    rw [Logger.line, if_pos objects] at written
    exact faithful.tellable data free written read
  · rw [if_neg free] at recorded
    cases recorded

/-- Fields that can be told have a line that tells what was recorded. -/
theorem Tellable.exists_line (h : Tellable log.name fields) (objects : log.asObjects = true)
    (kept : log.keeps level = true) (data : (Value.record fields).isData = true) :
    ∃ r line entries, (level.call message fields).record = .ok r ∧
      log.callLines [level.call message fields] = [line] ∧
      readObject? line = some (.record entries) ∧
      IsFaithful log.name ⟨level, message, fields⟩ entries := by
  obtain ⟨r, hr⟩ : ∃ r : LogRecord, r = ⟨level, message, fields⟩ := ⟨_, rfl⟩
  have own : r.fields = fields := by rw [hr]
  have record : (level.call message fields).record = .ok r := by
    have recorded := record_call level message fields
    rw [if_pos h.free, ← hr] at recorded
    cases outcome : (level.call message fields).record with
    | ok s =>
      rw [outcome] at recorded
      rw [Option.some.inj recorded]
    | error fault =>
      rw [outcome] at recorded
      cases recorded
  have writable : r.IsWritable := by
    intro n hn
    rw [own] at hn
    obtain ⟨p, hp, hn⟩ := Value.mem_wholeNumbersUnder.1 hn
    exact h.written p hp n hn
  obtain ⟨line, written⟩ := writable.objectLine log.name
  rw [← own] at h data
  obtain ⟨entry, faithful⟩ := h.isFaithful
  rw [Value.isData, Bool.and_eq_true] at data
  obtain ⟨session, entry', -, read⟩ := readObject?_objectLine data.2 written
  obtain rfl := Except.ok.inj (entry.symm.trans entry')
  have lined : log.line r = .ok line := by rw [Logger.line, if_pos objects, written]
  have own : r.level = level := by rw [hr]
  refine ⟨r, line, _, record, ?_, read, hr ▸ faithful⟩
  rw [Logger.callLines, List.filterMap_cons, record]
  change log.lines [r] = [line]
  rw [Logger.lines_singleton lined, Logger.told, own, if_pos kept]

end Line

/-- A call of a log whose lines are objects leaves a record and a line, and the line is read as the
parts of the record itself and each field under a name of its own: exactly where the fields can be
told. Else the call is a fault, or there is no line, or a field is lost or stands as a part of the
record. -/
theorem a_call_is_told_faithfully_iff_tellable (log : Logger) (objects : log.asObjects = true)
    (level : LogLevel) (kept : log.keeps level = true) (message : String)
    (fields : List (String × Value)) (data : (Value.record fields).isData = true) :
    (∃ r line entries, (level.call message fields).record = .ok r ∧
      log.callLines [level.call message fields] = [line] ∧
      readObject? line = some (.record entries) ∧
      IsFaithful log.name ⟨level, message, fields⟩ entries) ↔ Tellable log.name fields :=
  ⟨fun ⟨_, _, _, record, told, read, faithful⟩ =>
    tellable_of_isFaithful objects data record told read faithful,
    fun h => h.exists_line objects kept data⟩

/-- A field with a name that is reserved is told, next to one with a name of its own. -/
theorem a_user_and_a_count_are_told :
    ∃ r line entries, (LogLevel.info.call "hello" [("user", "ada"), ("args", .whole 1)]).record =
        .ok r ∧
      (Logger.mk "oracle" 20 .absent true).callLines
        [LogLevel.info.call "hello" [("user", "ada"), ("args", .whole 1)]] = [line] ∧
      readObject? line = some (.record entries) ∧
      IsFaithful "oracle" ⟨.info, "hello", [("user", "ada"), ("args", .whole 1)]⟩ entries := by
  refine (a_call_is_told_faithfully_iff_tellable (.mk "oracle" 20 .absent true) rfl .info
    (by decide) "hello" [("user", "ada"), ("args", .whole 1)] (by decide)).2 ⟨?_, ?_, ?_, ?_, ?_⟩
  · decide
  · simp
  · simp
  · decide
  · intro p hp n hn
    simp only [List.mem_cons, List.not_mem_nil, or_false] at hp
    rcases hp with rfl | rfl
    · cases hn
    · rw [List.mem_singleton.1 hn]
      exact writable_of_small (by decide)

/-- A field with the name of the logger stands in its place. -/
theorem a_field_forges_the_logger :
    (Value.record [("logger", "evil")]).isData = true ∧
      ¬ ∃ r line entries, (LogLevel.info.call "hello" [("logger", "evil")]).record = .ok r ∧
        (Logger.mk "oracle" 20 .absent true).callLines
          [LogLevel.info.call "hello" [("logger", "evil")]] = [line] ∧
        readObject? line = some (.record entries) ∧
        IsFaithful "oracle" ⟨.info, "hello", [("logger", "evil")]⟩ entries := by
  refine ⟨by decide, fun ⟨r, line, entries, record, told, read, faithful⟩ => ?_⟩
  have tellable : Tellable "oracle" [("logger", "evil")] :=
    @tellable_of_isFaithful (.mk "oracle" 20 .absent true) .info "hello" _ rfl (by decide) _ _ _
      record told read faithful
  have same := tellable.logger _ (List.mem_singleton_self _) rfl
  exact absurd (Value.text.inj same) (by decide)

end Reckoner
