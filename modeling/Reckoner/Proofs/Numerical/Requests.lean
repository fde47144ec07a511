-- Requests for numerical methods, against calls of the methods themselves. A request is looked at
-- before anything is computed: it is refused, or it comes out as the call with its arguments does.
import Reckoner.Engine.Solver
import Reckoner.Proofs.Log.Outcome
import Reckoner.Proofs.Sorting

namespace Reckoner

/-! ## Named arguments -/

section Arguments

variable {arguments : List (String × Value)} {name : String} {v : Value}

theorem field_of_mem (keys : (arguments.map Prod.fst).Nodup) (h : (name, v) ∈ arguments) :
    Value.field name arguments = v := by
  rw [Value.field, Value.field?, (mem_iff_lookupEntry keys).1 h, Option.getD_some]

/-- No argument of the name is more than nothing. -/
theorem field_isNothing_iff (keys : (arguments.map Prod.fst).Nodup) :
    (Value.field name arguments).isNothing = true ↔ ∀ v, (name, v) ∈ arguments → v = .nothing := by
  have nothing : ∀ v : Value, v.isNothing = true ↔ v = .nothing := by
    intro v
    cases v <;> simp [Value.isNothing]
  rw [nothing]
  constructor
  · intro h v hv
    rw [← field_of_mem keys hv, h]
  · intro h
    unfold Value.field Value.field?
    cases found : lookupEntry name arguments with
    | none => rfl
    | some v => exact h v ((mem_iff_lookupEntry keys).2 found)

/-- Arguments under the names of parameters are bound as they are, where none is missing. -/
theorem addNamed_known {call : String} {parameters : List Parameter} :
    ∀ {named bound : List (String × Value)}, ((bound ++ named).map Prod.fst).Nodup →
      (∀ e ∈ named, e.1 ∈ parameters.map (·.name)) →
      addNamed call parameters bound named = .ok (bound ++ named)
  | [], bound, _, _ => by rw [addNamed, List.append_nil]
  | (name, v) :: rest, bound, keys, known => by
    obtain ⟨first, later⟩ := List.forall_mem_cons.1 known
    have parameter : (parameters.any fun p => p.name == name) = true := by
      simpa [List.any_eq_true, List.mem_map] using first
    have new : Value.field? name bound = none := by
      rw [Value.field?, lookupEntry_eq_none_iff]
      rw [List.map_append, List.nodup_append] at keys
      exact fun old => keys.2.2 name old name (by simp) rfl
    have moved : bound ++ (name, v) :: rest = bound ++ [(name, v)] ++ rest := by simp
    rw [addNamed, parameter, new, moved]
    exact addNamed_known (by rwa [← moved]) later

end Arguments

namespace Numerical

namespace Method

/-! ## Arguments that fit a method -/

/-- The names of the parameters. -/
def parameterNames (m : Method) : List String := m.parameters.map (·.name)

/-- The parameters without a default for which nothing is given, in their order. -/
def missing (m : Method) (arguments : List (String × Value)) : List String :=
  (requiredNames m.parameters).filter fun name => (Value.field name arguments).isNothing

/-- The arguments fit the method: all that has to be given is there, nothing else than its
parameters is, and what is to be a function is one. -/
structure Accepts (m : Method) (arguments : List (String × Value)) : Prop where
  given : ∀ p ∈ m.parameters, p.default = none → ∃ v, (p.name, v) ∈ arguments ∧ v ≠ .nothing
  known : ∀ e ∈ arguments, e.1 ∈ m.parameterNames
  callable : ∀ e ∈ arguments, e.1 ∈ functionArguments → e.2.isFunction = true

theorem ofName?_name (m : Method) : ofName? m.name = some m := by cases m <;> rfl

theorem ofName?_eq_some_iff {operation : String} {m : Method} :
    ofName? operation = some m ↔ m.name = operation := by
  constructor
  · intro h
    simpa using List.find?_some h
  · rintro rfl
    exact ofName?_name m

variable {m : Method} {arguments : List (String × Value)}

theorem missing_eq_nil_iff (keys : (arguments.map Prod.fst).Nodup) : m.missing arguments = [] ↔
    ∀ p ∈ m.parameters, p.default = none → ∃ v, (p.name, v) ∈ arguments ∧ v ≠ .nothing := by
  simp only [missing, requiredNames, List.filter_eq_nil_iff, List.mem_map, List.mem_filter,
    Parameter.isRequired, Option.isNone_iff_eq_none, field_isNothing_iff keys, forall_exists_index,
    and_imp]
  constructor
  · intro h p hp required
    simpa using h p.name p hp required rfl
  · rintro h _ p hp required rfl
    simpa using h p hp required

/-- Arguments that fit are those that a call binds. -/
theorem Accepts.bindArguments (h : m.Accepts arguments) (keys : (arguments.map Prod.fst).Nodup)
    (call : String) : bindArguments call m.parameters [] arguments = .ok arguments := by
  have bound : addNamed call m.parameters [] arguments = .ok arguments :=
    addNamed_known (by simpa using keys) h.known
  have complete : ((requiredNames m.parameters).filter fun name =>
      (Value.field? name arguments).isNone) = [] := by
    simp only [requiredNames, List.filter_eq_nil_iff, List.mem_map, List.mem_filter,
      Parameter.isRequired, Option.isNone_iff_eq_none, forall_exists_index, and_imp]
    rintro _ p hp required rfl
    obtain ⟨v, hv, -⟩ := h.given p hp required
    rw [Value.field?, (mem_iff_lookupEntry keys).1 hv]
    exact Option.some_ne_none v
  simp only [Reckoner.bindArguments, placed, List.zip_nil_right, List.map_nil, bound, ok_bind,
    List.length_nil, Nat.not_lt_zero, if_false, complete]
  rfl

end Method

/-! ## Refusals -/

/-- Why a request for a method is refused. What is missing is noticed before what is unexpected, and
that before what cannot be called. -/
inductive Refused (operation : String) (arguments : List (String × Value)) : RequestFault → Prop where
  | unknown : (∀ m : Method, m.name ≠ operation) →
    Refused operation arguments (.unknownOperation operation Method.sortedNames)
  | missing {m : Method} : m.name = operation → m.missing arguments ≠ [] →
    Refused operation arguments (.missing (m.missing arguments))
  /-- The first name that is no parameter is told. -/
  | unexpected {m : Method} {front back : List (String × Value)} {name : String} {v : Value} :
    m.name = operation → m.missing arguments = [] → arguments = front ++ (name, v) :: back →
    (∀ e ∈ front, e.1 ∈ m.parameterNames) → name ∉ m.parameterNames →
    Refused operation arguments (.unexpected operation name)
  | notCallable {m : Method} {name : String} {v : Value} :
    m.name = operation → m.missing arguments = [] → (∀ e ∈ arguments, e.1 ∈ m.parameterNames) →
    (name, v) ∈ arguments → name ∈ functionArguments → v.isFunction = false →
    Refused operation arguments (.notCallable name)

section Requests

variable {operation : String} {arguments : List (String × Value)}

theorem Refused.not_accepts {fault : RequestFault} (h : Refused operation arguments fault)
    (keys : (arguments.map Prod.fst).Nodup) (m : Method) (hm : m.name = operation) :
    ¬ m.Accepts arguments := by
  have same : ∀ {m' : Method}, m'.name = operation → m' = m := by
    intro m' hm'
    have := Method.ofName?_name m'
    rw [hm', ← hm, Method.ofName?_name] at this
    exact (Option.some.inj this).symm
  intro accepts
  cases h with
  | unknown h => exact h m hm
  | missing hm' h =>
    cases same hm'
    exact h ((Method.missing_eq_nil_iff keys).2 accepts.given)
  | unexpected hm' _ split _ h =>
    cases same hm'
    exact h (accepts.known (_, _) (split ▸ List.mem_append_right _ (List.mem_cons_self ..)))
  | notCallable _ _ _ h function no =>
    rw [accepts.callable _ h function] at no
    cases no

/-- A request is checked: its method accepts the arguments, or there is a reason to refuse it. -/
theorem checkRequest_cases (operation : String) (keys : (arguments.map Prod.fst).Nodup) :
    (∃ m, m.name = operation ∧ m.Accepts arguments ∧ checkRequest operation arguments = .ok m) ∨
    ∃ fault, Refused operation arguments fault ∧
      checkRequest operation arguments = .error fault := by
  unfold checkRequest
  cases named : Method.ofName? operation with
  | none =>
    refine .inr ⟨_, .unknown fun m hm => ?_, rfl⟩
    rw [← hm, Method.ofName?_name] at named
    cases named
  | some m =>
    have hm := Method.ofName?_eq_some_iff.1 named
    have required : requireArguments arguments (requiredNames m.parameters) =
        if (m.missing arguments).isEmpty then
          .ok ((requiredNames m.parameters).map fun name => Value.field name arguments)
        else .error (.missing (m.missing arguments)) := rfl
    have parameter : ∀ name, (m.parameters.map (·.name)).contains name = true ↔
        name ∈ m.parameterNames := fun name => List.contains_iff_mem
    dsimp only
    rw [required]
    split_ifs with none_missing
    · rw [ok_bind]
      have given := List.isEmpty_iff.1 none_missing
      split
      · rename_i name v first
        obtain ⟨no, front, back, split, before⟩ := List.find?_eq_some_iff_append.1 first
        simp only [Bool.not_eq_true', ← Bool.not_eq_true, parameter, not_not] at no before
        exact .inr ⟨_, .unexpected hm given split before no, rfl⟩
      · rename_i all
        have known := List.find?_eq_none.1 all
        simp only [Bool.not_eq_true', ← Bool.not_eq_true, parameter, not_not] at known
        split
        · rename_i name first
          have function := List.mem_of_find?_eq_some first
          have no := List.find?_some first
          simp only [beq_iff_eq, Option.map_eq_some_iff] at no
          obtain ⟨v, found, no⟩ := no
          have entry := (mem_iff_lookupEntry keys).2 found
          exact .inr ⟨_, .notCallable hm given known entry function no, rfl⟩
        · rename_i all
          refine .inl ⟨m, hm, ⟨(Method.missing_eq_nil_iff keys).1 given, known, fun e he hf => ?_⟩, rfl⟩
          have callable := List.find?_eq_none.1 all e.1 hf
          have found : Value.field? e.1 arguments = some e.2 := (mem_iff_lookupEntry keys).1 he
          simpa [found] using callable
    · rw [List.isEmpty_iff] at none_missing
      exact .inr ⟨_, .missing hm none_missing, rfl⟩

/-- A call of the method itself with these arguments computes it. -/
theorem call_eq {m : Method} (h : m.Accepts arguments) (keys : (arguments.map Prod.fst).Nodup) :
    ((Solver.numerical m).call [] arguments).outcome = (m.runNamed arguments).mapError .value := by
  have bound := h.bindArguments keys (Solver.numerical m).name
  unfold Solver.call
  simp only [Solver.parameters, bound]
  rfl

end Requests

end Numerical

/-! ## The capability -/

/-- What can be written is told before the request is worked on, and the outcome is that of the work. -/
theorem Capability.numerical_handle {operation : String} {arguments : List (String × Value)}
    (written : ∃ text, (Value.record arguments).toText = .ok text) :
    (numerical.handle operation arguments).outcome = Numerical.handle operation arguments := by
  have numbers := Value.exists_toText_iff.1 written
  unfold handle
  dsimp only
  rw [timed_outcome]
  · rfl
  · simpa [Value.wholeNumbers] using numbers

namespace Numerical

/-- A method that is called does not refuse its arguments. -/
theorem category_of_value {outcome : Except ValueFault Solution} {fault : Fault}
    (h : outcome.mapError .value = .error fault) : fault.category ≠ .invalidInput := by
  cases outcome with
  | ok s => cases h
  | error f =>
    cases h
    exact Category.noConfusion

/-- Arguments under different names are looked at before a method is called: a request is refused as
invalid exactly when no method of the name accepts them, for the first reason there is. In all other
cases it comes out as a call of the method with these arguments, and with the defaults for the others. -/
theorem a_request_is_refused_or_called {operation : String} {arguments : List (String × Value)}
    (keys : (arguments.map Prod.fst).Nodup)
    (written : ∃ text, (Value.record arguments).toText = .ok text) :
    let outcome := (Capability.numerical.handle operation arguments).outcome
    ((∃ fault, outcome = .error fault ∧ fault.category = .invalidInput) ↔
      ¬ ∃ m : Method, m.name = operation ∧ m.Accepts arguments) ∧
    (∀ fault, outcome = .error fault → fault.category = .invalidInput →
      ∃ reason, fault = .request reason ∧ Refused operation arguments reason) ∧
    ∀ m : Method, m.name = operation → m.Accepts arguments →
      outcome = ((Solver.numerical m).call [] arguments).outcome := by
  intro outcome
  have handled : outcome = Numerical.handle operation arguments :=
    Capability.numerical_handle written
  unfold Numerical.handle at handled
  rcases checkRequest_cases operation keys with ⟨m, hm, accepts, checked⟩ | ⟨reason, why, checked⟩
  · have called : outcome = (m.runNamed arguments).mapError .value := by
      rw [handled, checked]
      rfl
    have valid : ∀ fault, outcome = .error fault → fault.category ≠ .invalidInput := fun fault h =>
      category_of_value (called.symm.trans h)
    refine ⟨⟨?_, fun no => absurd ⟨m, hm, accepts⟩ no⟩, fun fault h hc => absurd hc (valid fault h), ?_⟩
    · rintro ⟨fault, h, hc⟩
      exact absurd hc (valid fault h)
    · intro m' hm' accepts'
      obtain rfl : m = m' := by
        have := Method.ofName?_name m
        rw [hm, ← hm', Method.ofName?_name] at this
        exact (Option.some.inj this).symm
      rw [called, call_eq accepts keys]
  · have refused : outcome = .error (.request reason) := by
      rw [handled, checked]
      rfl
    have none : ∀ m : Method, m.name = operation → ¬ m.Accepts arguments := why.not_accepts keys
    refine ⟨⟨?_, fun _ => ⟨_, refused, rfl⟩⟩, ?_, fun m hm accepts => absurd accepts (none m hm)⟩
    · rintro - ⟨m, hm, accepts⟩
      exact none m hm accepts
    · intro fault h _
      rw [refused] at h
      cases h
      exact ⟨reason, rfl, why⟩

/-- What is missing is told before what is unexpected, in the order of the parameters. -/
theorem a_bisection_without_a_function_is_refused :
    let arguments := [("c", .whole 1), ("b", .nothing), ("a", .whole 0)]
    (arguments.map Prod.fst).Nodup ∧ (∃ text, (Value.record arguments).toText = .ok text) ∧
      (Capability.numerical.handle "bisection" arguments).outcome =
        .error (.request (.missing ["f", "b"])) := by
  intro arguments
  have keys : (arguments.map Prod.fst).Nodup := by decide
  have written : ∃ text, (Value.record arguments).toText = .ok text := by
    refine Value.exists_toText_iff.2 fun n hn => writable_of_small ?_
    have numbers : (Value.record arguments).wholeNumbers = [1, 0] := rfl
    rw [numbers] at hn
    fin_cases hn <;> decide
  have named : ∀ m : Method, m.name = "bisection" → m = .bisection := by
    intro m hm
    cases m <;> first | rfl | exact absurd hm (by decide)
  have missing : Method.bisection.missing arguments = ["f", "b"] := by decide
  obtain ⟨refused, reasons, -⟩ := @a_request_is_refused_or_called "bisection" _ keys written
  have no : ¬ ∃ m : Method, m.name = "bisection" ∧ m.Accepts arguments := by
    rintro ⟨m, hm, accepts⟩
    cases named m hm
    have given := (Method.missing_eq_nil_iff keys).2 accepts.given
    rw [missing] at given
    cases given
  obtain ⟨fault, told, invalid⟩ := refused.2 no
  obtain ⟨reason, rfl, why⟩ := reasons fault told invalid
  refine ⟨keys, written, told.trans ?_⟩
  cases why with
  | unknown h => exact absurd rfl (h .bisection)
  | missing hm => rw [named _ hm, missing]
  | unexpected hm given | notCallable hm given =>
    cases named _ hm
    rw [missing] at given
    cases given

end Numerical

end Reckoner
