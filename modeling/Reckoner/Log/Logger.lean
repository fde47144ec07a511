-- Logs: they keep the records from a level on and write them, one a line, to the console and
-- maybe to a file.
import Reckoner.Log.Line

namespace Reckoner

/-! ## Logs -/

/-- What becomes of the file of a log. -/
inductive LogFile where
  /-- No file is asked for. -/
  | absent
  | opened
  /-- The folder of the path does not exist. -/
  | noFolder (path : String)
  /-- The path is that of a folder. -/
  | isFolder (path : String)
deriving DecidableEq

/-- A log. -/
structure Logger where
  name : String
  /-- The rank from which on records are kept. -/
  level : Int := 20
  file : LogFile := .absent
  /-- Whether lines are objects. -/
  asObjects : Bool := false

namespace Logger

/-- The rank that holds where none is set. -/
def defaultRank : Int := 30

/-- Whether the log keeps records of a level. -/
def keeps (log : Logger) (level : LogLevel) : Bool :=
  (if log.level = 0 then defaultRank else log.level) ≤ level.rank

/-- The number of places to which lines are written. -/
def handlers (log : Logger) : Nat :=
  match log.file with
  | .opened => 2
  | _ => 1

/-- The line of a record. -/
def line (log : Logger) (r : LogRecord) : Except ValueFault String :=
  if log.asObjects then r.objectLine log.name else r.textLine

/-- The lines of the records that are kept. A record that cannot be written leaves none. -/
def lines (log : Logger) (records : List LogRecord) : List String :=
  records.filterMap fun r =>
    if log.keeps r.level then (log.line r).toOption else none

/-- The record that a file cannot be written. -/
def refusedRecord (path reason : String) : LogRecord where
  level := .warning
  message := "Failed to set up log file"
  fields := [("log_file", path), ("error", .text (reason ++ ": " ++ quoted path))]

/-- The records that the making of a log leaves. -/
def setupRecords (log : Logger) : List LogRecord :=
  match log.file with
  | .absent | .opened => []
  | .noFolder path => [refusedRecord path "[Errno 2] No such file or directory"]
  | .isFolder path => [refusedRecord path "[Errno 21] Is a directory"]

end Logger

/-! ## Calls -/

/-- A call of a log: a method, a message and fields. -/
structure LogCall where
  method : String
  message : Value
  fields : List (String × Value) := []

namespace LogCall

/-- The level of a method: its name in small letters. -/
def level? (call : LogCall) : Option LogLevel :=
  LogLevel.all.find? fun level => small level.name == call.method

/-- The first field whose name is taken by an argument of the call. -/
def takenField? (call : LogCall) : Option String :=
  (call.fields.map (·.1)).find? fun name => name = "self" || name = "message"

/-- The record that a call leaves. -/
def record (call : LogCall) : Except Fault LogRecord :=
  match call.level? with
  | none => .error (.value (.noPart "StructuredLogger" call.method))
  | some level =>
    match call.takenField? with
    | some name => .error (.call (.repeated ("StructuredLogger." ++ call.method) name))
    | none =>
      if (Value.field? "level" call.fields).isSome then
        .error (.call (.repeated "StructuredLogger._log" "level"))
      else do
        return ⟨level, ← call.message.toText.mapError .value, call.fields⟩

end LogCall

/-- The lines that the calls of a log leave. -/
def Logger.callLines (log : Logger) (calls : List LogCall) : List String :=
  log.lines (calls.filterMap fun call => call.record.toOption)

end Reckoner
