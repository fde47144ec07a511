-- Records as lines, for readers or as objects for other programs. A field that has the name
-- of a part that every record has goes by another name.
import Reckoner.Log.Journal

namespace Reckoner

/-! ## Fields -/

/-- What stands for the time of a record. -/
def timeMark : String := "<time>"

/-- What stands for the name of a session. -/
def sessionMark : String := "<sid>"

/-- The names of the parts that every record has. -/
def reservedNames : List String :=
  ["args", "asctime", "created", "exc_info", "exc_text", "filename", "funcName", "levelname",
    "levelno", "lineno", "module", "msecs", "message", "msg", "name", "pathname", "process",
    "processName", "relativeCreated", "stack_info", "thread", "threadName", "taskName"]

/-- The name under which a field is told. -/
def fieldName (name : String) : String := if reservedNames.contains name then "_" ++ name else name

/-- Gives an entry a value; a new name comes last. -/
def putField (name : String) (v : Value) (fields : List (String × Value)) :
    List (String × Value) :=
  addEntry (fun _ new => new) name v fields

/-- The fields as they are told, with the session first. -/
def LogRecord.toldFields (r : LogRecord) : List (String × Value) :=
  r.fields.foldl (fun acc (name, v) => putField (fieldName name) v acc)
    [("session_id", .text sessionMark)]

/-- The session that a record belongs to. -/
def LogRecord.session (r : LogRecord) : Value := Value.field "session_id" r.toldFields

/-- The fields apart from the session. -/
def LogRecord.extraFields (r : LogRecord) : List (String × Value) :=
  r.toldFields.filter fun (name, _) => name ≠ "session_id"

/-! ## Lines for readers -/

def fieldText (field : String × Value) : Except ValueFault String := do
  return field.1 ++ "=" ++ (← field.2.toText)

/-- The record as a line for readers. -/
def LogRecord.textLine (r : LogRecord) : Except ValueFault String := do
  let session ← r.session.toText
  let fields ← r.extraFields.mapM fieldText
  let start :=
    timeMark ++ " [" ++ r.level.name ++ "] [session:" ++ session ++ "] " ++ r.message
  return Value.joinTexts " " (start :: fields)

/-! ## Lines as objects -/

/-- The digits of a code unit. -/
def unitEscape (n : Nat) : String :=
  "\\u" ++ String.ofList [hexDigit (n / 4096), hexDigit (n / 256 % 16), hexDigit (n / 16 % 16),
    hexDigit (n % 16)]
where
  hexDigit (d : Nat) : Char := Nat.digitChar d

/-- A character inside quotes. One past the plain ones is given by its code units. -/
def escapedChar (c : Char) : String :=
  if c = '"' then "\\\""
  else if c = '\\' then "\\\\"
  else if c = '\n' then "\\n"
  else if c = '\r' then "\\r"
  else if c = '\t' then "\\t"
  else if c.toNat = 12 then "\\f"
  else if c.toNat = 8 then "\\b"
  else if 32 ≤ c.toNat && c.toNat < 127 then String.singleton c
  else if c.toNat < 65536 then unitEscape c.toNat
  else
    let n := c.toNat - 65536
    unitEscape (55296 + n / 1024) ++ unitEscape (56320 + n % 1024)

/-- A text in quotes. -/
def objectText (s : String) : String := "\"" ++ String.join (s.toList.map escapedChar) ++ "\""

/-- A number in an object. -/
def objectNumber : Quantity → Except ValueFault String
  | .whole n => Quantity.wholeText n
  | .measure x =>
    .ok (if x.isNaN then "NaN"
      else if x.isInf then (if x < 0 then "-Infinity" else "Infinity")
      else Double.text x)

mutual
/-- A value in an object. -/
def Value.objectForm : Value → Except ValueFault String
  | .nothing => .ok "null"
  | .truth b => .ok (if b then "true" else "false")
  | .number q => objectNumber q
  | .text s => .ok (objectText s)
  | .list l => do return "[" ++ Value.joinTexts ", " (← objectItems l) ++ "]"
  | .record l => do return "\x7b" ++ Value.joinTexts ", " (← objectEntries l) ++ "\x7d"
  | v => v.toText.map objectText
def objectItems : List Value → Except ValueFault (List String)
  | [] => .ok []
  | a :: rest => do
    let s ← a.objectForm
    return s :: (← objectItems rest)
def objectEntries : List (String × Value) → Except ValueFault (List String)
  | [] => .ok []
  | (name, a) :: rest => do
    let s ← a.objectForm
    return (objectText name ++ ": " ++ s) :: (← objectEntries rest)
end

/-- The entry of the session, where there is one. -/
def LogRecord.sessionEntry (r : LogRecord) : Except ValueFault (List (String × Value)) := do
  if r.session.isTrue then return [("session_id", .text (← r.session.toText))] else return []

/-- The record as an object on a line, from a log of the name. -/
def LogRecord.objectLine (logName : String) (r : LogRecord) : Except ValueFault String := do
  let common : List (String × Value) :=
    [("timestamp", timeMark), ("level", r.level.name), ("message", r.message), ("logger", logName)]
  let start := common ++ (← r.sessionEntry)
  Value.objectForm (.record (r.extraFields.foldl (fun acc (name, v) => putField name v acc) start))

end Reckoner
