-- The register of capabilities over a session. New names come after the ones that are always
-- there, in the order in which they were registered first. No registration takes the place of
-- another capability, so that questions and requests are answered as by a fresh engine.
import Reckoner.Engine.Session
import Reckoner.Proofs.Engine.QuickRoute

namespace Reckoner

/-! ## Engines -/

namespace Engine

variable {engine : Engine} {c : Capability} {name : String}

theorem find?_isSome_iff : (engine.find? name).isSome ↔ name ∈ engine.names := by
  simp [find?, names, List.find?_isSome]

/-- A registration is refused where the name is taken, and else it puts the capability last. -/
theorem register_eq (engine : Engine) (c : Capability) :
    engine.register c = if c.name ∈ engine.names then .error (.registered c.name)
      else .ok ⟨engine.capabilities ++ [c]⟩ := by
  unfold register
  simp only [find?_isSome_iff]

/-- The capabilities that are always there keep their names. -/
theorem Reachable.find?_builtin (h : engine.Reachable) (hc : c ∈ Capability.builtin) :
    engine.find? c.name = some c := by
  induction h with
  | fresh =>
    simp only [Capability.builtin, List.mem_cons, List.not_mem_nil, or_false] at hc
    rcases hc with rfl | rfl | rfl <;> rfl
  | register _ hr ih => exact register_find? hr ih

/-- A request for a capability that is always there is answered as by a fresh engine. -/
theorem Reachable.compute_builtin (h : engine.Reachable) (hc : c ∈ Capability.builtin)
    (operation : String) (arguments : List (String × Value)) :
    engine.compute c.name operation arguments = Engine.fresh.compute c.name operation arguments := by
  unfold compute require
  rw [h.find?_builtin hc, Reachable.fresh.find?_builtin hc]

theorem Reachable.follow_eq (h : engine.Reachable) (text : String) (c : Classification)
    (options : Options) : engine.follow text c options = Engine.fresh.follow text c options := by
  have vedic := h.compute_builtin (c := .vedic) (by decide)
  have symbolic := h.compute_builtin (c := .symbolic) (by decide)
  have quick : engine.solveQuick = Engine.fresh.solveQuick := by
    funext p
    exact congrArg _ (funext fun _ => vedic _ _)
  have other : engine.solveSymbolic = Engine.fresh.solveSymbolic := by
    funext text name route
    cases route <;> exact symbolic _ _
  unfold follow
  rw [quick, other]

/-- A question is answered as by a fresh engine. -/
theorem Reachable.solve_eq (h : engine.Reachable) (question given : Value) (store : SettingStore) :
    engine.solve question given store = Engine.fresh.solve question given store := by
  have same : engine.follow = Engine.fresh.follow := by
    funext text c options
    exact h.follow_eq text c options
  unfold solve
  rw [same]

end Engine

/-! ## Names that steps register -/

/-- The name that a step asks to register. -/
def Step.registered? : Step → Option String
  | .register name => some name
  | _ => none

/-- The names that are not taken from the start, each where it is registered first. -/
def newNames (steps : List Step) : List String :=
  ((steps.filterMap Step.registered?).filter fun name => name ∉ Engine.fresh.names).eraseDups

theorem eraseDups_snoc (l : List String) (a : String) :
    (l ++ [a]).eraseDups = l.eraseDups ++ if a ∈ l then [] else [a] := by
  rw [List.eraseDups_append]
  split_ifs with h
  · simp [List.removeAll, h]
  · have alone : [a].eraseDups = [a] := rfl
    simp [List.removeAll, h, alone]

/-- A name is new where it is not taken from the start and was not registered before. -/
theorem newNames_register (steps : List Step) (name : String) :
    newNames (steps ++ [.register name]) = newNames steps ++
      if name ∈ Engine.fresh.names ++ newNames steps then [] else [name] := by
  have registered : Step.registered? (.register name) = some name := rfl
  unfold newNames
  rw [List.filterMap_append, List.filter_append, List.filterMap_cons_some registered]
  by_cases taken : name ∈ Engine.fresh.names
  · simp [taken]
  · simp [taken, eraseDups_snoc]

theorem newNames_of_not_register (steps : List Step) {step : Step} (h : step.registered? = none) :
    newNames (steps ++ [step]) = newNames steps := by
  unfold newNames
  rw [List.filterMap_append, List.filterMap_cons_none h]
  simp

/-! ## Sessions -/

namespace Session

variable {s : Session}

/-- A registration under a taken name is a fault and leaves the session as it is. Under a new name it
puts the capability last. -/
theorem registerStep_eq (s : Session) (c : Capability) :
    s.registerStep c =
      if c.name ∈ s.engine.names then (.error (.registered c.name), s)
      else (.ok (.record (s.engine.descriptions ++ [(c.name, .text c.description)])),
        { s with engine := ⟨s.engine.capabilities ++ [c]⟩ }) := by
  unfold registerStep
  rw [s.engine.register_eq]
  split_ifs with taken
  · rfl
  · simp [Engine.descriptions]

theorem step_register_of_mem {name : String} (h : name ∈ s.engine.names) :
    s.step (.register name) = (.fail (.registered name), s) := by
  have refused : s.registerStep (.echo name) = (.error (.registered name), s) :=
    (s.registerStep_eq _).trans (if_pos h)
  simp only [step, refused]
  rfl

theorem step_register_of_not_mem {name : String} (h : name ∉ s.engine.names) :
    (s.step (.register name)).2 =
      { s with engine := ⟨s.engine.capabilities ++ [.echo name]⟩ } := by
  have added := (s.registerStep_eq (.echo name)).trans (if_neg h)
  simp only [step, added]

/-- Only registrations change the register. -/
theorem step_engine_of_not_register (s : Session) {step : Step} (h : step.registered? = none) :
    (s.step step).2.engine = s.engine := by
  cases step with
  | register name => cases h
  | _ => rfl

theorem step_reachable (h : s.engine.Reachable) (step : Step) :
    (s.step step).2.engine.Reachable := by
  cases registered : step.registered? with
  | none => rwa [s.step_engine_of_not_register registered]
  | some name =>
    obtain rfl : step = .register name := by
      cases step <;> cases registered
      rfl
    by_cases taken : name ∈ s.engine.names
    · rwa [step_register_of_mem taken]
    · rw [step_register_of_not_mem taken]
      exact .register h (c := .echo name) (by rw [Engine.register_eq]; exact if_neg taken)

theorem run_reachable (h : s.engine.Reachable) (steps : List Step) :
    (s.run steps).2.engine.Reachable := by
  induction steps generalizing s with
  | nil => exact h
  | cons step rest ih => exact ih (step_reachable h step)

/-- After a run the new names follow the ones that are taken from the start. -/
theorem run_capabilities (store : SettingStore) (steps : List Step) :
    ((⟨store, .fresh⟩ : Session).run steps).2.engine.capabilities =
      Capability.builtin ++ (newNames steps).map .echo := by
  induction steps using List.reverseRecOn with
  | nil => rfl
  | append_singleton front step ih =>
    have names : ((⟨store, .fresh⟩ : Session).run front).2.engine.names =
        Engine.fresh.names ++ newNames front := by
      rw [Engine.names, ih]
      simp [Engine.fresh, Engine.names, Capability.name, Function.comp_def]
    rw [run_snoc]
    cases registered : step.registered? with
    | none => rw [step_engine_of_not_register _ registered, ih, newNames_of_not_register _ registered]
    | some name =>
      obtain rfl : step = .register name := by
        cases step <;> cases registered
        rfl
      rw [newNames_register]
      split_ifs with taken
      · rw [step_register_of_mem (by rwa [names]), ih, List.append_nil]
      · rw [step_register_of_not_mem (by rwa [names]), ih]
        simp

/-! ## Laws -/

/-- After every run the register has the capabilities that are always there, and then the new names
in the order in which they were registered first; a taken name is refused, and the session stays as
it is. Whatever was registered, questions and requests are answered as by a fresh engine. -/
theorem registrations_only_add (store : SettingStore) (steps : List Step) :
    let s := ((⟨store, .fresh⟩ : Session).run steps).2
    s.engine.names = ["vedic", "symbolic", "numerical"] ++ newNames steps ∧
      (∀ name ∈ s.engine.names, s.step (.register name) = (.fail (.registered name), s) ∧
        (Fault.registered name).kind = "ValueError") ∧
      (∀ question given settings, s.engine.solve question given settings =
        Engine.fresh.solve question given settings) ∧
      ∀ c ∈ Capability.builtin, ∀ operation arguments,
        s.engine.compute c.name operation arguments =
          Engine.fresh.compute c.name operation arguments := by
  intro s
  have reachable : s.engine.Reachable := run_reachable .fresh steps
  refine ⟨?_, fun name taken => ⟨step_register_of_mem taken, rfl⟩, reachable.solve_eq,
    fun c hc => reachable.compute_builtin hc⟩
  rw [Engine.names, run_capabilities]
  simp [Capability.builtin, Capability.name, Function.comp_def]

/-- Two names are new among four, and a taken one is refused after them as before. -/
theorem two_of_four_names_are_registered :
    let s := ((⟨{}, .fresh⟩ : Session).run
      [.register "geo", .register "vedic", .register "stats", .register "geo"]).2
    s.engine.names = ["vedic", "symbolic", "numerical", "geo", "stats"] ∧
      s.step (.register "geo") = (.fail (.registered "geo"), s) ∧
      s.engine.compute "vedic" "square" [("n", .whole 12)] =
        Engine.fresh.compute "vedic" "square" [("n", .whole 12)] := by
  intro s
  obtain ⟨names, refused, -, requests⟩ := registrations_only_add {}
    [.register "geo", .register "vedic", .register "stats", .register "geo"]
  have new : newNames [.register "geo", .register "vedic", .register "stats", .register "geo"] =
      ["geo", "stats"] := by decide
  rw [new] at names
  refine ⟨names, (refused "geo" ?_).1, requests .vedic (by decide) _ _⟩
  rw [names]
  decide

end Session

end Reckoner
