-- Records of what is done, and computations that leave records behind them. A computation
-- that fails keeps the records that it left before.
import Reckoner.Fault.Basic

namespace Reckoner

/-! ## Records -/

/-- How grave a record is. -/
inductive LogLevel where
  | debug | info | warning | error | critical
deriving DecidableEq

namespace LogLevel

def all : List LogLevel := [debug, info, warning, error, critical]

/-- The name of the level, as lines give it. -/
def name : LogLevel → String
  | debug => "DEBUG"
  | info => "INFO"
  | warning => "WARNING"
  | error => "ERROR"
  | critical => "CRITICAL"

/-- The rank of the level. A log keeps the records from a rank on. -/
def rank : LogLevel → Int
  | debug => 10
  | info => 20
  | warning => 30
  | error => 40
  | critical => 50

end LogLevel

/-- A record of what was done. -/
structure LogRecord where
  level : LogLevel
  message : String
  /-- What is told beside the message, in order. -/
  fields : List (String × Value) := []

/-! ## Computations with records -/

/-- A computation, by the records that it leaves and its outcome. -/
structure Logged (α : Type) where
  records : List LogRecord
  outcome : Except Fault α

namespace Logged

/-- A computation that leaves no record. -/
def ofOutcome {α : Type} (outcome : Except Fault α) : Logged α := ⟨[], outcome⟩

/-- One computation after another. The second is not begun where the first fails. -/
def andThen {α β : Type} (first : Logged α) (second : α → Logged β) : Logged β :=
  match first.outcome with
  | .ok a => ⟨first.records ++ (second a).records, (second a).outcome⟩
  | .error e => ⟨first.records, .error e⟩

instance : Monad Logged where
  pure a := .ofOutcome (.ok a)
  bind := andThen

instance : MonadLift (Except Fault) Logged where
  monadLift := ofOutcome

/-- A computation that fails. -/
def fail {α : Type} (fault : Fault) : Logged α := .ofOutcome (.error fault)

/-- Leaves a record. -/
def note (level : LogLevel) (message : String) (fields : List (String × Value)) : Logged Unit :=
  ⟨[⟨level, message, fields⟩], .ok ()⟩

/-- The computation with its outcome as a value, so that a fault can be looked at. -/
def attempt {α : Type} (work : Logged α) : Logged (Except Fault α) :=
  ⟨work.records, .ok work.outcome⟩

end Logged

/-! ## Timed work -/

/-- What stands for the time that some work took. Clocks are read outside of the journal. -/
def durationMark : String := "<t>"

/-- The longest text of an argument that a record tells. -/
def maxArgumentLength : Nat := 1000

/-- The text of an argument, cut where it is too long. -/
def argumentText (v : Value) : Except Fault String := do
  let text ← v.toText.mapError .value
  let kept := text.toList.take maxArgumentLength
  return if kept.length < text.length then String.ofList kept ++ "...(truncated)" else text

def argumentTexts : List Value → Except Fault (List String)
  | [] => .ok []
  | v :: rest => do
    let text ← argumentText v
    return text :: (← argumentTexts rest)

/-- The texts of named arguments, under their names. -/
def namedTexts : List (String × Value) → Except Fault (List (String × Value))
  | [] => .ok []
  | (name, v) :: rest => do
    let text ← argumentText v
    return (name, .text text) :: (← namedTexts rest)

/-- The record that work ended well. -/
def completedRecord (name : String) : LogRecord where
  level := .info
  message := "Completed " ++ name
  fields := [("duration_seconds", durationMark), ("success", .truth true)]

/-- The record that work failed. -/
def failedRecord (name : String) (fault : Fault) : LogRecord where
  level := .error
  message := "Failed " ++ name
  fields := [("duration_seconds", durationMark), ("error", fault.message),
    ("error_type", fault.kind), ("success", .truth false)]

/-- The record of the end of work. -/
def endRecord {α : Type} (name : String) : Except Fault α → LogRecord
  | .ok _ => completedRecord name
  | .error fault => failedRecord name fault

/-- Work with records of its start and its end. The outcome stays what it is. -/
def timed {α : Type} (name : String) (arguments : List Value) (named : List (String × Value))
    (work : Logged α) : Logged α := do
  let texts ← (argumentTexts arguments : Except Fault (List String))
  let namedFields ← (namedTexts named : Except Fault (List (String × Value)))
  Logged.note .debug ("Starting " ++ name)
    [("args", .texts texts), ("kwargs", .record namedFields)]
  ⟨work.records ++ [endRecord name work.outcome], work.outcome⟩

end Reckoner
