-- Settings, as the environment gives them. Each has its own variable there, and a value to
-- take where the variable is missing.
import Reckoner.Text.Case
import Reckoner.Text.Identifier
import Reckoner.Sorting

namespace Reckoner

/-! ## The environment -/

/-- The variables of the environment. -/
abbrev Environment := List (String × String)

/-- A setting that the environment may give. -/
inductive SettingKey where
  | logLevel | logJson | logFile | defaultVariable
deriving DecidableEq

/-- The variable of a setting. -/
def SettingKey.variable : SettingKey → String
  | logLevel => "VEDAI_ENGINE_LOG_LEVEL"
  | logJson => "VEDAI_ENGINE_LOG_JSON"
  | logFile => "VEDAI_ENGINE_LOG_FILE"
  | defaultVariable => "VEDAI_ENGINE_DEFAULT_VARIABLE"

/-- The text of a setting, or the one to take where it is missing. -/
def Environment.get (env : Environment) (key : SettingKey) (default : String) : String :=
  (lookupEntry key.variable env).getD default

/-! ## Faults -/

/-- What is wrong with a setting. -/
inductive SettingFault where
  | unknownLevel (name : String)
  | notSwitch (text : String)
  | notIdentifier (text : String)
deriving DecidableEq

namespace SettingFault

/-- The setting with the fault. -/
def key : SettingFault → SettingKey
  | unknownLevel _ => .logLevel
  | notSwitch _ => .logJson
  | notIdentifier _ => .defaultVariable

/-- The message for the fault. -/
def message : SettingFault → String
  | unknownLevel name => "Unknown log level: '" ++ name ++ "'"
  | notSwitch text => "Invalid boolean value: '" ++ text ++ "'"
  | notIdentifier text => "Default variable must be an identifier, got '" ++ text ++ "'"

end SettingFault

/-! ## Settings -/

/-- The settings. -/
structure Settings where
  logLevel : Nat := 20
  logFile : Option String := none
  logJson : Bool := false
  defaultVariable : String := "x"
deriving DecidableEq

/-- The levels of the log by their names. -/
def levelNames : List (String × Nat) :=
  [("CRITICAL", 50), ("FATAL", 50), ("ERROR", 40), ("WARN", 30), ("WARNING", 30), ("INFO", 20),
    ("DEBUG", 10), ("NOTSET", 0)]

def readLevel (text : String) : Except SettingFault Nat :=
  let name := capitals text
  match lookupEntry name levelNames with
  | some level => .ok level
  | none => .error (.unknownLevel name)

def readSwitch (text : String) : Except SettingFault Bool :=
  let word := small (stripText text)
  if ["1", "true", "yes", "on"].contains word then .ok true
  else if ["0", "false", "no", "off", ""].contains word then .ok false
  else .error (.notSwitch word)

def readVariable (text : String) : Except SettingFault String :=
  let name := stripText text
  if isIdentifier name.toList then .ok name else .error (.notIdentifier name)

/-- The settings that an environment gives. -/
def Settings.ofEnvironment (env : Environment) : Except SettingFault Settings := do
  let level ← readLevel (env.get .logLevel "INFO")
  let json ← readSwitch (env.get .logJson "false")
  let name ← readVariable (env.get .defaultVariable "x")
  let file := env.get .logFile ""
  return ⟨level, if file.isEmpty then none else some file, json, name⟩

/-! ## The store -/

/-- The environment, and the settings once they were read from it. -/
structure SettingStore where
  env : Environment := []
  cached : Option Settings := none

namespace SettingStore

/-- Gives a variable of the environment a value. -/
def set (name text : String) (store : SettingStore) : SettingStore :=
  { store with env := addEntry (fun _ new => new) name text store.env }

/-- Takes a variable out of the environment. -/
def unset (name : String) (store : SettingStore) : SettingStore :=
  { store with env := store.env.filter fun (n, _) => n ≠ name }

/-- Forgets the settings that were read. -/
def reset (store : SettingStore) : SettingStore := { store with cached := none }

/-- The settings, read again where that is asked for. A fault leaves the store as it is. -/
def load (reload : Bool) (store : SettingStore) : Except SettingFault Settings × SettingStore :=
  match store.cached, reload with
  | some s, false => (.ok s, store)
  | _, _ =>
    match Settings.ofEnvironment store.env with
    | .ok s => (.ok s, { store with cached := some s })
    | .error e => (.error e, store)

end SettingStore

end Reckoner
