-- Sessions: steps that share an environment, the settings once they are read, and one engine.
-- A step that fails leaves the session as it was, and the next step follows.
import Reckoner.Engine.Answer

namespace Reckoner

/-! ## Steps -/

/-- A step of a session. -/
inductive Step where
  /-- Gives a variable of the environment a value. -/
  | setVariable (name text : String)
  /-- Takes a variable out of the environment. -/
  | unsetVariable (name : String)
  /-- Forgets the settings. -/
  | reset
  /-- Asks for the settings, read again where that is wanted. -/
  | settings (reload : Bool)
  /-- Asks whether the settings and the engine are the same each time. -/
  | same
  /-- Asks for the options that a value gives. -/
  | options (given : Value)
  | solve (question given : Value)
  | compute (capability operation : String) (arguments : List (String × Value))
  /-- Registers a capability that hands back what it is asked for. -/
  | register (name : String)
  /-- Asks for the capability of a name. -/
  | find (name : String)
  /-- Asks for a capability that has to be there. -/
  | require (name : String)
  | operations

/-- What the steps of a session share. -/
structure Session where
  store : SettingStore := {}
  engine : Engine := .fresh

/-! ## Values for answers -/

def Settings.toRecord (s : Settings) : Value :=
  .record [("log_level", (s.logLevel : Int)), ("log_file", .ofText? s.logFile),
    ("log_json", .truth s.logJson), ("default_variable", s.defaultVariable)]

def Options.toRecord (o : Options) : Value :=
  .record [("variable", o.name), ("language", o.language)]

/-- The answer to a question with its summary. -/
def Answer.report (a : Answer) : Except Fault Value := do
  let summary ← a.summary.mapError .value
  return .record (a.toRecord ++
    [("requires_ai", .truth a.requiresWriter), ("summary", .ofText? summary)])

/-! ## Running -/

namespace Session

/-- A session with an engine of its own. -/
def start : Logged Session := do
  let engine ← Engine.start
  return { engine := engine }

/-- The settings as a step asks for them. -/
def settingsStep (s : Session) (reload : Bool) : Except Fault Settings × Session :=
  let (settings, store) := s.store.load reload
  (settings.mapError .setting, { s with store := store })

/-- The answer to a question as a step asks for it. -/
def solveStep (s : Session) (question given : Value) : Logged Value × Session :=
  let (answer, store) := s.engine.solve question given s.store
  ((do (← answer).report), { s with store := store })

/-- Registers a capability as a step asks for it. -/
def registerStep (s : Session) (c : Capability) : Except Fault Value × Session :=
  match s.engine.register c with
  | .ok engine => (.ok (.record engine.descriptions), { s with engine := engine })
  | .error f => (.error f, s)

/-- What a step answers, and the session after it. -/
def step (s : Session) : Step → Logged Value × Session
  | .setVariable name text => (pure .nothing, { s with store := s.store.set name text })
  | .unsetVariable name => (pure .nothing, { s with store := s.store.unset name })
  | .reset => (pure .nothing, { s with store := s.store.reset })
  | .settings reload =>
    let (settings, s) := s.settingsStep reload
    (.ofOutcome (settings.map Settings.toRecord), s)
  | .same =>
    let (settings, s) := s.settingsStep false
    (.ofOutcome (settings.map fun _ =>
      .record [("settings", .truth true), ("engine", .truth true)]), s)
  | .options given =>
    let (options, store) := Options.ofValue given s.store
    (.ofOutcome ((options.mapError Fault.ofOptions).map Options.toRecord), { s with store := store })
  | .solve question given => s.solveStep question given
  | .compute capability operation arguments =>
    (do return (← s.engine.compute capability operation arguments).toRecord, s)
  | .register name =>
    let (answer, s) := s.registerStep (.echo name)
    (.ofOutcome answer, s)
  | .find name =>
    let entry := s.engine.find? name
    (pure ((entry.map fun c => .texts [c.name, c.description]).getD .nothing), s)
  | .require name => (.ofOutcome ((s.engine.require name).map fun c => .text c.name), s)
  | .operations => (pure (.record s.engine.operations), s)

/-- What the steps answer one after another, and the session after them. -/
def run (s : Session) : List Step → List (Logged Value) × Session
  | [] => ([], s)
  | step :: rest =>
    let (answer, next) := s.step step
    let (answers, last) := next.run rest
    (answer :: answers, last)

theorem run_append (s : Session) (l m : List Step) :
    (s.run (l ++ m)).2 = ((s.run l).2.run m).2 := by
  induction l generalizing s with
  | nil => rfl
  | cons step rest ih => exact ih (s.step step).2

theorem run_snoc (s : Session) (l : List Step) (step : Step) :
    (s.run (l ++ [step])).2 = ((s.run l).2.step step).2 := run_append s l [step]

end Session

end Reckoner
