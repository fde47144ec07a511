-- The engine: a register of capabilities, each under a name of its own.
import Reckoner.Engine.Capability

namespace Reckoner

/-! ## The engine -/

/-- A register of capabilities, in the order in which they came. -/
structure Engine where
  capabilities : List Capability
deriving DecidableEq

namespace Engine

/-- The engine with the capabilities that are always there. -/
def fresh : Engine := ⟨Capability.builtin⟩

/-- Sets the engine up, with a record of each capability and of the whole. -/
def start : Logged Engine :=
  let record := fun (name : String) (fields : List (String × Value)) =>
    LogRecord.mk .info (name ++ " initialized") fields
  ⟨Capability.builtin.map (fun c => record c.label []) ++
    [record "MathEngine" [("capabilities", .texts (Capability.builtin.map Capability.name))]],
    .ok fresh⟩

/-- The capability of a name. -/
def find? (engine : Engine) (name : String) : Option Capability :=
  engine.capabilities.find? fun c => c.name == name

/-- The names of the capabilities, in order of registration. -/
def names (engine : Engine) : List String := engine.capabilities.map Capability.name

/-- The capability of a name, which has to be there. -/
def require (engine : Engine) (name : String) : Except Fault Capability :=
  match engine.find? name with
  | some c => .ok c
  | none =>
    .error (.request (.unknownCapability name
      (sortBy (fun a b => decide (a ≤ b)) engine.names)))

/-- The engine with one more capability. Its name has to be new. -/
def register (engine : Engine) (c : Capability) : Except Fault Engine :=
  if (engine.find? c.name).isSome then .error (.registered c.name)
  else .ok ⟨engine.capabilities ++ [c]⟩

/-! ## Lists -/

/-- The descriptions of the capabilities under their names. -/
def descriptions (engine : Engine) : List (String × Value) :=
  engine.capabilities.map fun c => (c.name, .text c.description)

/-- The operations of all capabilities, by capability and category. -/
def operations (engine : Engine) : List (String × Value) :=
  engine.capabilities.flatMap fun c =>
    c.operations.map fun (category, names) => (c.name ++ "." ++ category, .texts names)

/-! ## Requests -/

/-- The solution that a request asks a named capability for. -/
def compute (engine : Engine) (name operation : String) (arguments : List (String × Value)) :
    Logged Solution := do
  let c ← engine.require name
  c.handle operation arguments

end Engine

end Reckoner
