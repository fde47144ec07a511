-- What can be wrong with a request for an operation, and the message for it.
import Reckoner.Value.Text

namespace Reckoner

/-- What is wrong with a request. -/
inductive RequestFault where
  /-- The arguments of these names are not there. -/
  | missing (names : List String)
  /-- No operation has the name. The known ones follow where they are told. -/
  | unknownOperation (name : String) (known : List String)
  /-- The operation takes no argument of the name. -/
  | unexpected (operation name : String)
  /-- The argument of the name is no function. -/
  | notCallable (name : String)
  /-- The operand of the name is no number, but of another kind. -/
  | notNumber (name kind : String)
  /-- The operand of the name is not finite. -/
  | notFinite (name value : String)
  /-- The operation takes another number of operands. -/
  | wrongCount (operation : String) (expected : Nat) (operands : List Value)
  /-- No capability has the name. -/
  | unknownCapability (name : String) (known : List String)

namespace RequestFault

/-- The message for the fault. -/
def message : RequestFault → String
  | missing names => "Missing required argument(s): " ++ Value.joinTexts ", " names
  | unknownOperation name known =>
    "Unknown operation: '" ++ name ++ "'" ++
      (if known.isEmpty then "" else ". Supported: " ++ namesText known)
  | unexpected operation name =>
    "Invalid arguments for '" ++ operation ++ "': got an unexpected keyword argument " ++ quoted name
  | notCallable name => "Argument '" ++ name ++ "' must be callable"
  | notNumber name kind => "Operand '" ++ name ++ "' must be a number, got " ++ kind
  | notFinite name value => "Operand '" ++ name ++ "' must be finite, got " ++ value
  | wrongCount operation expected operands =>
    "Vedic '" ++ operation ++ "' takes " ++ natText expected ++ " operand(s), got " ++
      natText operands.length
  | unknownCapability name _ => "Unknown capability: '" ++ name ++ "'"

/-- What is told beside the message. -/
def details : RequestFault → List (String × Value)
  | missing names => [("missing", .texts names)]
  | wrongCount operation _ operands => [("operation", operation), ("operands", .list operands)]
  | unknownCapability _ known => [("available", .texts known)]
  | _ => []

end RequestFault

/-- The arguments of the given names, in order. One that is nothing counts as missing. -/
def requireArguments (arguments : List (String × Value)) (names : List String) :
    Except RequestFault (List Value) :=
  let missing := names.filter fun name => (Value.field name arguments).isNothing
  if missing.isEmpty then .ok (names.map fun name => Value.field name arguments)
  else .error (.missing missing)

end Reckoner
