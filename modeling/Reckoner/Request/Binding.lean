-- Arguments of a call: some by their place and some by their name, put together under the
-- names of the parameters.
import Reckoner.Value.Text

namespace Reckoner

/-! ## Parameters -/

/-- A parameter: its name, and the value to take where it is missing. -/
structure Parameter where
  name : String
  default : Option Value := none

namespace Parameter

def isRequired (p : Parameter) : Bool := p.default.isNone

/-- The value to take where the parameter is missing. -/
def fallback (p : Parameter) : Value := p.default.getD .nothing

end Parameter

/-- The names of the parameters that have to be given. -/
def requiredNames (parameters : List Parameter) : List String :=
  (parameters.filter Parameter.isRequired).map (·.name)

/-! ## Faults -/

/-- What is wrong with the arguments of a call. -/
inductive CallFault where
  /-- The call has no parameter of the name. -/
  | unexpected (call name : String)
  /-- The parameter of the name is given twice. -/
  | repeated (call name : String)
  /-- More arguments are given than the call takes. -/
  | tooMany (call : String) (least most given : Nat)
  /-- The parameters of these names are missing. -/
  | missing (call : String) (names : List String)
deriving DecidableEq

namespace CallFault

def plural (n : Nat) : String := if n = 1 then "" else "s"

/-- Names in a row, with a word before the last. -/
def enumeration : List String → String
  | [] => ""
  | [a] => a
  | [a, b] => a ++ " and " ++ b
  | l => Value.joinTexts ", " l.dropLast ++ ", and " ++ l.getLastD ""

/-- The message for the fault. -/
def message : CallFault → String
  | unexpected call name => call ++ "() got an unexpected keyword argument " ++ quoted name
  | repeated call name => call ++ "() got multiple values for argument " ++ quoted name
  | tooMany call least most given =>
    let span :=
      if least = most then natText most else "from " ++ natText least ++ " to " ++ natText most
    call ++ "() takes " ++ span ++ " positional argument" ++ plural most ++ " but " ++
      natText given ++ (if given = 1 then " was given" else " were given")
  | missing call names =>
    call ++ "() missing " ++ natText names.length ++ " required positional argument" ++
      plural names.length ++ ": " ++ enumeration (names.map quoted)

end CallFault

/-! ## Binding -/

/-- The arguments by place, under the names of the first parameters. -/
def placed (parameters : List Parameter) (given : List Value) : List (String × Value) :=
  (parameters.zip given).map fun (p, v) => (p.name, v)

/-- Adds the arguments by name. Each has to be new and to have a parameter. -/
def addNamed (call : String) (parameters : List Parameter) :
    List (String × Value) → List (String × Value) → Except CallFault (List (String × Value))
  | bound, [] => .ok bound
  | bound, (name, v) :: rest =>
    if !(parameters.any fun p => p.name == name) then .error (.unexpected call name)
    else if (Value.field? name bound).isSome then .error (.repeated call name)
    else addNamed call parameters (bound ++ [(name, v)]) rest

/-- The arguments of a call under the names of its parameters. -/
def bindArguments (call : String) (parameters : List Parameter) (given : List Value)
    (named : List (String × Value)) : Except CallFault (List (String × Value)) := do
  let bound ← addNamed call parameters (placed parameters given) named
  let required := requiredNames parameters
  if parameters.length < given.length then
    throw (.tooMany call required.length parameters.length given.length)
  let missing := required.filter fun name => (Value.field? name bound).isNone
  if missing.isEmpty then return bound else throw (.missing call missing)

/-- The value of a parameter among bound arguments. -/
def boundValue (parameters : List Parameter) (bound : List (String × Value)) (name : String) :
    Value :=
  match Value.field? name bound with
  | some v => v
  | none => ((parameters.find? (·.name == name)).map Parameter.fallback).getD .nothing

end Reckoner
