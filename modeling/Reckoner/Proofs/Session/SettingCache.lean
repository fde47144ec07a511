-- The settings over a session. They are read from the environment when a step asks for them and
-- they are not there, or when they are to be read again; then they are kept until they are
-- forgotten. A change of the environment and a failed reading leave them as they are.
import Reckoner.Engine.Session
import Reckoner.Proofs.Engine.Answering

namespace Reckoner

/-! ## Loads -/

namespace SettingStore

/-- The store after the settings were asked for, or not. -/
def demanded (store : SettingStore) : Option Bool → SettingStore
  | some reload => (store.load reload).2
  | none => store

/-- The environment is read: the settings are asked for, and they are not there or are to be read
again. -/
def Reads (store : SettingStore) (demand : Option Bool) : Prop :=
  ∃ reload, demand = some reload ∧ (store.cached = none ∨ reload = true)

variable {store : SettingStore} {reload : Bool} {demand : Option Bool}

theorem load_of_cached {c : Settings} (h : store.cached = some c) :
    store.load false = (.ok c, store) := by
  simp [load, h]

theorem load_of_reads (h : store.Reads (some reload)) :
    store.load reload = match Settings.ofEnvironment store.env with
      | .ok c => (.ok c, { store with cached := some c })
      | .error e => (.error e, store) := by
  obtain ⟨_, ⟨rfl⟩, h⟩ := h
  unfold load
  rcases h with h | rfl
  · cases Settings.ofEnvironment store.env <;> cases reload <;> simp [h]
  · cases store.cached <;> rfl

theorem demanded_of_not_reads (h : ¬ store.Reads demand) : store.demanded demand = store := by
  cases demand with
  | none => rfl
  | some reload =>
    cases cached : store.cached with
    | none => exact absurd ⟨reload, rfl, .inl cached⟩ h
    | some c =>
      cases reload with
      | true => exact absurd ⟨true, rfl, .inr rfl⟩ h
      | false => exact congrArg Prod.snd (load_of_cached cached)

/-- The settings after they were asked for: those of the environment where it was read with success,
and else the ones before. -/
theorem cached_demanded (store : SettingStore) (demand : Option Bool) (c : Settings) :
    (store.demanded demand).cached = some c ↔
      store.Reads demand ∧ Settings.ofEnvironment store.env = .ok c ∨
        (∀ d, ¬ (store.Reads demand ∧ Settings.ofEnvironment store.env = .ok d)) ∧
          store.cached = some c := by
  by_cases reads : store.Reads demand
  · obtain ⟨reload, rfl, -⟩ := id reads
    simp only [demanded, load_of_reads reads, reads, true_and]
    cases Settings.ofEnvironment store.env with
    | ok d => simp
    | error e => simp
  · simp [demanded_of_not_reads reads, reads]

/-- A failed reading leaves the store as it is. -/
theorem demanded_of_fault {e : SettingFault} (h : Settings.ofEnvironment store.env = .error e) :
    store.demanded demand = store := by
  by_cases reads : store.Reads demand
  · obtain ⟨reload, rfl, -⟩ := id reads
    simp only [demanded, load_of_reads reads, h]
  · exact demanded_of_not_reads reads

theorem env_demanded (store : SettingStore) (demand : Option Bool) :
    (store.demanded demand).env = store.env := by
  by_cases reads : store.Reads demand
  · obtain ⟨reload, rfl, -⟩ := id reads
    simp only [demanded, load_of_reads reads]
    cases Settings.ofEnvironment store.env <;> rfl
  · rw [demanded_of_not_reads reads]

end SettingStore

/-! ## What steps ask for -/

/-- How options ask for the settings: only where they name no variable, so that the one of the
settings is taken. -/
def optionsDemand : Value → Option Bool
  | .record fields => if (Value.field? "variable" fields).isNone then some false else none
  | _ => none

/-- How the options of a question ask for the settings. -/
def givenDemand (given : Value) : Option Bool :=
  match given.entries with
  | .ok entries => optionsDemand (.record (Value.textFields entries))
  | .error _ => none

/-- The question can be classified. -/
def isClassified (question : Value) : Bool :=
  (do Classification.ofQuestion (← questionText question)).isOk

namespace Step

/-- How a step asks for the settings: not at all, or as they are (`false`), or read again (`true`).
A question asks for them once it is classified. -/
def demand : Step → Option Bool
  | .settings reload => some reload
  | .same => some false
  | .options given => optionsDemand given
  | .solve question given => if isClassified question then givenDemand given else none
  | _ => none

/-- The environment after a step. -/
def environment (env : Environment) : Step → Environment
  | .setVariable name text => addEntry (fun _ new => new) name text env
  | .unsetVariable name => env.filter fun (n, _) => n ≠ name
  | _ => env

/-- The step only changes the environment. -/
def ChangesEnvironment : Step → Prop
  | .setVariable _ _ | .unsetVariable _ => True
  | _ => False

end Step

theorem ofValue_store (given : Value) (store : SettingStore) :
    (Options.ofValue given store).2 = store.demanded (optionsDemand given) := by
  unfold optionsDemand
  cases given with
  | record fields =>
    cases named : Value.field? "variable" fields with
    | some v => simp [Options.ofValue, named, SettingStore.demanded]
    | none =>
      simp only [Options.ofValue, named, Option.isNone_none, if_true, SettingStore.demanded]
      rcases store.load false with ⟨settings | settings, next⟩ <;> rfl
  | _ => rfl

theorem readOptions_store (given : Value) (store : SettingStore) :
    (Engine.readOptions given store).2 = store.demanded (givenDemand given) := by
  unfold Engine.readOptions givenDemand
  cases given.entries with
  | error f => rfl
  | ok entries => exact ofValue_store _ _

theorem solve_store (engine : Engine) (question given : Value) (store : SettingStore) :
    (engine.solve question given store).2 =
      store.demanded (if isClassified question then givenDemand given else none) := by
  unfold isClassified
  cases classified : (do Classification.ofQuestion (← questionText question)) with
  | error f =>
    rw [engine.solve_of_not_classified given store classified]
    rfl
  | ok c =>
    obtain ⟨text, ht, hc⟩ := ok_of_bind classified
    unfold Engine.solve
    simp only [ht, ok_bind, hc]
    exact readOptions_store given store

/-- Where options name no variable, a fault of the settings is told. -/
theorem ofValue_of_fault {given : Value} {store : SettingStore} {e : SettingFault}
    (reads : store.Reads (optionsDemand given))
    (h : Settings.ofEnvironment store.env = .error e) :
    (Options.ofValue given store).1 = .error (.settings e) := by
  obtain ⟨reload, asked, -⟩ := id reads
  rw [asked] at reads
  unfold optionsDemand at asked
  cases given with
  | record fields =>
    simp only [Option.isNone_iff_eq_none, Option.ite_none_right_eq_some, Option.some.injEq] at asked
    obtain ⟨missing, rfl⟩ := asked
    simp [Options.ofValue, missing, SettingStore.load_of_reads reads, h]
  | _ => cases asked

theorem readOptions_of_fault {given : Value} {store : SettingStore} {e : SettingFault}
    (reads : store.Reads (givenDemand given)) (h : Settings.ofEnvironment store.env = .error e) :
    (Engine.readOptions given store).1 = .error (.setting e) := by
  unfold givenDemand at reads
  unfold Engine.readOptions
  cases read : given.entries with
  | error f =>
    rw [read] at reads
    obtain ⟨reload, ⟨⟩, -⟩ := reads
  | ok entries =>
    rw [read] at reads
    simp [ofValue_of_fault reads h, Except.mapError, Fault.ofOptions]

/-! ## Single steps -/

namespace Session

variable {s : Session} {step : Step} {c : Settings}

/-- What a step does to the settings: it gives or takes a variable of the environment, forgets what
was read, or loads the settings as it asks for them. -/
theorem step_store (s : Session) (step : Step) :
    (s.step step).2.store =
      match step with
      | .setVariable name text => s.store.set name text
      | .unsetVariable name => s.store.unset name
      | .reset => s.store.reset
      | step => s.store.demanded step.demand := by
  cases step with
  | options given => exact ofValue_store given s.store
  | solve question given => exact solve_store s.engine question given s.store
  | register name =>
    change (s.registerStep (.echo name)).2.store = s.store
    unfold registerStep
    split <;> rfl
  | _ => rfl

theorem step_env (s : Session) (step : Step) :
    (s.step step).2.store.env = step.environment s.store.env := by
  rw [step_store]
  cases step with
  | setVariable | unsetVariable | reset => rfl
  | _ => exact SettingStore.env_demanded _ _

/-- The step reads the settings from the environment with success. -/
def Loads (s : Session) (step : Step) (c : Settings) : Prop :=
  s.store.Reads step.demand ∧ Settings.ofEnvironment s.store.env = .ok c

/-- After a step the settings are those that it loaded. Where it loaded none and did not forget them
they are those before. -/
theorem step_cached (s : Session) (step : Step) (c : Settings) :
    (s.step step).2.store.cached = some c ↔
      s.Loads step c ∨ (∀ d, ¬ s.Loads step d) ∧ step ≠ .reset ∧ s.store.cached = some c := by
  have kept : s.store.demanded none = s.store := rfl
  have idle : ¬ s.store.Reads none := by
    rintro ⟨reload, ⟨⟩, -⟩
  rw [step_store]
  unfold Loads
  cases step with
  | setVariable name text => simp [Step.demand, idle, SettingStore.set]
  | unsetVariable name => simp [Step.demand, idle, SettingStore.unset]
  | reset => simp [Step.demand, idle, SettingStore.reset]
  | _ => simpa using SettingStore.cached_demanded s.store _ c

/-- What went wrong with the settings is told: as the answer of the step, or in the answer to its
question. -/
def Tells (s : Session) (step : Step) (f : Fault) : Prop :=
  match step with
  | .solve question given =>
    ∃ a, (s.engine.solve question given s.store).1.outcome = .ok a ∧ a.fault = some f
  | step => (s.step step).1.outcome = .error f

/-- A failed reading leaves the session as it is, and it is told. -/
theorem step_of_fault {e : SettingFault} (reads : s.store.Reads step.demand)
    (h : Settings.ofEnvironment s.store.env = .error e) :
    (s.step step).2 = s ∧ s.Tells step (.setting e) := by
  have failed {reload : Bool} (reads : s.store.Reads (some reload)) :
      s.store.load reload = (.error e, s.store) := by
    rw [SettingStore.load_of_reads reads, h]
  cases step with
  | settings reload | same =>
    change s.store.Reads (some _) at reads
    simp only [Session.step, Tells, settingsStep, failed reads]
    exact ⟨trivial, rfl⟩
  | options given =>
    have fault := ofValue_of_fault reads h
    have store : (Options.ofValue given s.store).2 = s.store :=
      (ofValue_store given s.store).trans (SettingStore.demanded_of_fault h)
    simp only [Session.step, Tells, fault, store]
    exact ⟨trivial, rfl⟩
  | solve question given =>
    obtain ⟨classified, reads⟩ : isClassified question ∧ s.store.Reads (givenDemand given) := by
      change s.store.Reads (if isClassified question then givenDemand given else none) at reads
      split_ifs at reads with classified
      · exact ⟨classified, reads⟩
      · obtain ⟨reload, ⟨⟩, -⟩ := reads
    have store := (solve_store s.engine question given s.store).trans
      (SettingStore.demanded_of_fault h)
    refine ⟨by simp [Session.step, solveStep, store], ?_⟩
    unfold isClassified at classified
    cases hc : (do Classification.ofQuestion (← questionText question)) with
    | error f =>
      rw [hc] at classified
      cases classified
    | ok c =>
      obtain ⟨text, ht, hc⟩ := ok_of_bind hc
      obtain ⟨a, ha, -, -, told⟩ := s.engine.solve_of_classified given s.store ht hc
      have work : s.engine.work text c given s.store = .error (.setting e) := by
        rw [Engine.work, readOptions_of_fault reads h]
        rfl
      rw [work] at told
      exact ⟨a, ha, told.2⟩
  | _ => obtain ⟨reload, ⟨⟩, -⟩ := reads

/-! ## Runs -/

theorem run_env (s : Session) (steps : List Step) :
    (s.run steps).2.store.env = steps.foldl Step.environment s.store.env := by
  induction steps generalizing s with
  | nil => rfl
  | cons step rest ih =>
    refine (ih (s.step step).2).trans ?_
    rw [step_env]
    rfl

/-- Changes of the environment alone leave the settings as they were read. -/
theorem run_changes (s : Session) {changes : List Step}
    (h : ∀ step ∈ changes, step.ChangesEnvironment) :
    (s.run changes).2.store.cached = s.store.cached := by
  induction changes generalizing s with
  | nil => rfl
  | cons step rest ih =>
    refine (ih (s.step step).2 fun t ht => h t (List.mem_cons_of_mem _ ht)).trans ?_
    have change := h step List.mem_cons_self
    cases step with
    | setVariable | unsetVariable => rfl
    | _ => exact change.elim

/-- The settings that a run loaded last, without forgetting them later. -/
def LastLoaded (s : Session) (steps : List Step) (c : Settings) : Prop :=
  ∃ before step after, steps = before ++ step :: after ∧ (s.run before).2.Loads step c ∧
    .reset ∉ after ∧
    ∀ front next rest, after = front ++ next :: rest →
      ∀ d, ¬ (s.run (before ++ step :: front)).2.Loads next d

theorem lastLoaded_nil (s : Session) (c : Settings) : ¬ s.LastLoaded [] c := by
  rintro ⟨before, step, after, steps, -⟩
  simp at steps

/-- The last step of a run loads the settings, or it neither loads nor forgets them and they were
loaded before. -/
theorem lastLoaded_snoc (s : Session) (steps : List Step) (last : Step) (c : Settings) :
    s.LastLoaded (steps ++ [last]) c ↔
      (s.run steps).2.Loads last c ∨
        (∀ d, ¬ (s.run steps).2.Loads last d) ∧ last ≠ .reset ∧ s.LastLoaded steps c := by
  constructor
  · rintro ⟨before, step, after, eq, loads, kept, none⟩
    rcases after.eq_nil_or_concat' with rfl | ⟨front, next, rfl⟩
    · obtain ⟨rfl, ⟨rfl⟩⟩ := List.append_inj' eq rfl
      exact .inl loads
    · rw [← List.cons_append, ← List.append_assoc] at eq
      obtain ⟨rfl, ⟨rfl⟩⟩ := List.append_inj' eq rfl
      rw [List.mem_append, List.mem_singleton, not_or] at kept
      refine .inr ⟨none front last [] rfl, fun h => kept.2 h.symm, before, step, front, rfl, loads,
        kept.1, fun front' next rest h => none front' next (rest ++ [last]) ?_⟩
      rw [h, List.append_assoc, List.cons_append]
  · rintro (loads | ⟨none, kept, before, step, after, rfl, loads, keptBefore, noneBefore⟩)
    · exact ⟨steps, last, [], rfl, loads, List.not_mem_nil, by simp⟩
    · refine ⟨before, step, after ++ [last], by simp, loads, ?_, ?_⟩
      · rw [List.mem_append, List.mem_singleton, not_or]
        exact ⟨keptBefore, fun h => kept h.symm⟩
      · intro front next rest eq
        rcases rest.eq_nil_or_concat' with rfl | ⟨rest, last', rfl⟩
        · obtain ⟨rfl, ⟨rfl⟩⟩ := List.append_inj' eq rfl
          exact none
        · rw [← List.cons_append, ← List.append_assoc] at eq
          obtain ⟨rfl, -⟩ := List.append_inj' eq rfl
          exact noneBefore front next rest rfl

/-- From a session without settings on, those that are there are the ones that were loaded last. -/
theorem cached_run (s : Session) (steps : List Step) (c : Settings) (h : s.store.cached = none) :
    (s.run steps).2.store.cached = some c ↔ s.LastLoaded steps c := by
  induction steps using List.reverseRecOn with
  | nil => simp [run, h, lastLoaded_nil]
  | append_singleton front last ih => rw [run_snoc, step_cached, lastLoaded_snoc, ih]

/-! ## Laws -/

/-- After every run the settings are those that the environment gave when it was last read with
success, if they were not forgotten since; changes of the environment alone leave them, and so does
a reading that fails, which is told. -/
theorem settings_stay_as_they_were_last_loaded (env : Environment) (engine : Engine)
    (steps : List Step) :
    let first : Session := ⟨⟨env, none⟩, engine⟩
    let s := (first.run steps).2
    (∀ c, s.store.cached = some c ↔ first.LastLoaded steps c) ∧
      s.store.env = steps.foldl Step.environment env ∧
      (∀ changes : List Step, (∀ step ∈ changes, step.ChangesEnvironment) →
        (s.run changes).2.store.cached = s.store.cached) ∧
      ∀ step e, s.store.Reads step.demand → Settings.ofEnvironment s.store.env = .error e →
        (s.step step).2 = s ∧ s.Tells step (.setting e) := by
  intro first s
  refine ⟨fun c => first.cached_run steps c rfl, first.run_env steps, fun changes h => ?_,
    fun step e reads h => step_of_fault reads h⟩
  exact s.run_changes h

/-- A reload that fails keeps the settings that were loaded before the environment changed. -/
theorem a_failed_reload_keeps_the_settings :
    let first : Session := ⟨⟨[], none⟩, .fresh⟩
    let s := (first.run [.setVariable "VEDAI_ENGINE_DEFAULT_VARIABLE" "t", .options (.record []),
      .setVariable "VEDAI_ENGINE_DEFAULT_VARIABLE" "2x"]).2
    s.store.cached = some { defaultVariable := "t" } ∧ (s.step (.settings true)).2 = s ∧
      s.Tells (.settings true) (.setting (.notIdentifier "2x")) := by
  obtain ⟨loaded, env, -, failed⟩ := settings_stay_as_they_were_last_loaded [] .fresh
    [.setVariable "VEDAI_ENGINE_DEFAULT_VARIABLE" "t", .options (.record []),
      .setVariable "VEDAI_ENGINE_DEFAULT_VARIABLE" "2x"]
  refine ⟨(loaded _).2 ⟨[_], _, [_], rfl, ⟨⟨false, rfl, .inl rfl⟩, ?_⟩, by simp, ?_⟩,
    failed (.settings true) _ ⟨true, rfl, .inr rfl⟩ ?_⟩
  · have read : Settings.ofEnvironment [("VEDAI_ENGINE_DEFAULT_VARIABLE", "t")] =
        .ok { defaultVariable := "t" } := by decide +kernel
    exact read
  · rintro front next rest eq d ⟨⟨reload, asked, -⟩, -⟩
    have inside : next ∈ front ++ next :: rest := by simp
    rw [← eq, List.mem_singleton] at inside
    subst inside
    cases asked
  · have refused : Settings.ofEnvironment [("VEDAI_ENGINE_DEFAULT_VARIABLE", "2x")] =
        .error (.notIdentifier "2x") := by decide +kernel
    rw [env]
    simpa [Step.environment, addEntry] using refused

end Session

end Reckoner
