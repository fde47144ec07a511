-- The shape of solutions. A solution has an answer or tells why there is none, only an answer
-- that is there passes a check, and the details leave the names of the other fields alone, so
-- that the record of a solution shows all of it.
import Mathlib.Data.List.Nodup
import Reckoner.Proofs.Sorting
import Reckoner.Solution.Basic

namespace Reckoner

/-! ## What a computation returns -/

section Yields

variable {ε ε' α β : Type} {P : α → Prop}

/-- A computation in two parts returns what the second part returns for what the first one does. -/
theorem bind_eq_ok_iff {m : Except ε β} {next : β → Except ε α} {a : α} :
    m >>= next = .ok a ↔ ∃ b, m = .ok b ∧ next b = .ok a := by
  cases m with
  | ok b => exact ⟨fun h => ⟨b, rfl, h⟩, fun ⟨_, hb, h⟩ => Except.ok.inj hb ▸ h⟩
  | error f => exact ⟨nofun, nofun⟩

theorem exists_of_isOk {m : Except ε α} (h : m.isOk = true) : ∃ a, m = .ok a := by
  cases m with
  | ok a => exact ⟨a, rfl⟩
  | error f => cases h

/-- What the computation returns, if it returns, has the property. -/
def Yields (P : α → Prop) (m : Except ε α) : Prop := ∀ a, m = .ok a → P a

theorem Yields.ok {a : α} (h : P a) : Yields P (.ok a : Except ε α) := by
  rintro _ ⟨⟩
  exact h

theorem Yields.error (f : ε) : Yields P (.error f : Except ε α) := nofun

theorem Yields.bind {m : Except ε β} {next : β → Except ε α}
    (h : ∀ b, m = .ok b → Yields P (next b)) : Yields P (m >>= next) := by
  cases m with
  | ok b => exact h b rfl
  | error f => exact .error f

theorem Yields.map {m : Except ε β} {f : β → α} (h : ∀ b, P (f b)) : Yields P (m.map f) := by
  cases m with
  | ok b => exact .ok (h b)
  | error f => exact .error f

theorem Yields.mapError {m : Except ε α} (f : ε → ε') (h : Yields P m) :
    Yields P (m.mapError f) := by
  cases m with
  | ok a => exact .ok (h a rfl)
  | error e => exact .error (f e)

end Yields

namespace Solution

/-! ## Well-formed solutions -/

/-- The names of the fields that are no details. -/
def coreNames : List String := ["method", "result", "steps", "verified", "success", "error"]

/-- A solution in which what it tells of the outcome fits together, and no detail hides a field or
another detail. -/
structure WellFormed (s : Solution) : Prop where
  failed_iff : s.success = false ↔ s.reason.isSome
  of_failed : s.success = false → s.answer = .nothing ∧ s.verified = false
  of_verified : s.verified = true → s.success = true ∧ s.answer ≠ .nothing
  names_new : ∀ name ∈ s.details.map (·.1), name ∉ coreNames
  names_nodup : (s.details.map (·.1)).Nodup

theorem names_coreFields (s : Solution) : ∀ name ∈ s.coreFields.map (·.1), name ∈ coreNames := by
  unfold coreFields
  cases s.reason <;> simp [coreNames]

/-- Fields with new names are all added. -/
theorem addNew_eq_append {fields more : List (String × Value)}
    (new : ∀ name ∈ more.map (·.1), name ∉ fields.map (·.1)) (nodup : (more.map (·.1)).Nodup) :
    addNew fields more = fields ++ more := by
  induction more generalizing fields with
  | nil => exact (List.append_nil _).symm
  | cons d rest ih =>
    obtain ⟨name, v⟩ := d
    simp only [List.map_cons, List.forall_mem_cons] at new
    simp only [List.map_cons, List.nodup_cons] at nodup
    have missing : Value.field? name fields = none := lookupEntry_eq_none_iff.2 new.1
    have added : addNew fields ((name, v) :: rest) = addNew (fields ++ [(name, v)]) rest := by
      simp [addNew, missing]
    rw [added, ih ?_ nodup.2, List.append_assoc, List.singleton_append]
    intro other h
    simp only [List.map_append, List.map_singleton, List.mem_append, List.mem_singleton, not_or]
    exact ⟨new.2 other h, fun same => nodup.1 (same ▸ h)⟩

/-- The record of a well-formed solution shows its fields and all of its details. -/
theorem WellFormed.toRecord_eq {s : Solution} (h : s.WellFormed) :
    s.toRecord = .record (s.coreFields ++ s.details) :=
  congrArg Value.record (addNew_eq_append
    (fun name hd hc => h.names_new name hd (s.names_coreFields name hc)) h.names_nodup)

/-! ## Solutions of solvers -/

/-- The names that the details of solvers leave alone: those of the other fields, and the one under
which a solution asks for a writer. -/
def reservedNames : List String := "requires_ai" :: coreNames

/-- The details have names of their own, and each has another one. -/
def FreeNames (details : List (String × Value)) : Prop :=
  (∀ name ∈ details.map (·.1), name ∉ reservedNames) ∧ (details.map (·.1)).Nodup

@[simp]
theorem mem_reservedNames {name : String} : name ∈ reservedNames ↔ name = "requires_ai" ∨
    name = "method" ∨ name = "result" ∨ name = "steps" ∨ name = "verified" ∨ name = "success" ∨
    name = "error" := by
  simp [reservedNames, coreNames]

@[simp]
theorem freeNames_nil : FreeNames [] := by simp [FreeNames]

@[simp]
theorem freeNames_cons {name : String} {v : Value} {rest : List (String × Value)} :
    FreeNames ((name, v) :: rest) ↔
      name ∉ reservedNames ∧ name ∉ rest.map (·.1) ∧ FreeNames rest := by
  simp only [FreeNames, List.map_cons, List.forall_mem_cons, List.nodup_cons]
  tauto

/-- A well-formed solution that does not ask for a writer. -/
structure Regular (s : Solution) : Prop extends s.WellFormed where
  asks_no_writer : "requires_ai" ∉ s.details.map (·.1)

theorem Regular.of_free {s : Solution} (failed_iff : s.success = false ↔ s.reason.isSome)
    (of_failed : s.success = false → s.answer = .nothing ∧ s.verified = false)
    (of_verified : s.verified = true → s.success = true ∧ s.answer ≠ .nothing)
    (free : FreeNames s.details) : s.Regular where
  failed_iff := failed_iff
  of_failed := of_failed
  of_verified := of_verified
  names_new name h hc := free.1 name h (List.mem_cons_of_mem _ hc)
  names_nodup := free.2
  asks_no_writer h := free.1 _ h List.mem_cons_self

/-- A failure is told with the reason, and with nothing in place of the answer. -/
theorem Regular.failure {details : List (String × Value)} (free : FreeNames details)
    (method reason : String) (steps : List String) :
    (Solution.failure method reason steps details).Regular :=
  .of_free (by simp [Solution.failure]) (fun _ => ⟨rfl, rfl⟩) nofun free

/-- A success tells no reason, and its answer is there if it passed a check. -/
theorem Regular.answered {answer : Value} {verified : Bool} {details : List (String × Value)}
    (present : verified = true → answer ≠ .nothing) (free : FreeNames details) (method : String)
    (steps : List String) :
    Regular { method, answer, steps, verified, details } :=
  .of_free (by simp) nofun (fun h => ⟨rfl, present h⟩) free

/-- An answer that was not checked may be anything. -/
theorem Regular.unchecked {details : List (String × Value)} (free : FreeNames details)
    (method : String) (answer : Value) (steps : List String) :
    Regular { method, answer, steps, details } :=
  .of_free (by simp) nofun nofun free

/-- A solution without a detail asks for nothing by it. -/
theorem detail_eq_nothing {s : Solution} {name : String} (h : name ∉ s.details.map (·.1)) :
    s.detail name = .nothing := by
  have missing : Value.field? name s.details = none := lookupEntry_eq_none_iff.2 h
  rw [detail, detailD, missing, Option.getD_none]

end Solution

end Reckoner
