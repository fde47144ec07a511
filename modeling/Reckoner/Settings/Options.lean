-- The options of one question: the variable to solve for and the language. The variable is the
-- one of the settings where no option gives it.
import Reckoner.Settings.Basic
import Reckoner.Value.Basic

namespace Reckoner

/-! ## Faults -/

/-- What is wrong with the options. -/
inductive OptionFault where
  /-- The options are no record. -/
  | notRecord
  /-- The option of the name is no text. -/
  | notText (name : String)
  /-- The variable is no identifier. -/
  | notIdentifier
deriving DecidableEq

namespace OptionFault

/-- Where in the options the fault is. -/
def place : OptionFault → List String
  | notRecord => []
  | notText name => [name]
  | notIdentifier => ["variable"]

/-- The message for the fault. -/
def message : OptionFault → String
  | notRecord => "Input should be a valid dictionary or instance of SolveOptions"
  | notText _ => "Input should be a valid string"
  | notIdentifier => "Value error, variable must be a single identifier"

/-- The name of the kind of fault. -/
def kind : OptionFault → String
  | notRecord => "model_type"
  | notText _ => "string_type"
  | notIdentifier => "value_error"

/-- The fault as a record. -/
def toRecord (f : OptionFault) : Value :=
  .record [("loc", .texts f.place), ("msg", f.message), ("type", f.kind)]

end OptionFault

/-- Why there are no options: the settings have a fault, or the options have some. -/
inductive OptionsFault where
  | settings (fault : SettingFault)
  | options (faults : List OptionFault)
deriving DecidableEq

/-! ## Options -/

/-- The options of one question. -/
structure Options where
  /-- The name of the unknown. -/
  name : String
  language : String := "en"
deriving DecidableEq

/-- The variable that an option names. -/
def variableOption : Value → Except OptionFault String
  | .text s =>
    let name := stripText s
    if isIdentifier name.toList then .ok name else .error .notIdentifier
  | _ => .error (.notText "variable")

/-- The language that an option names. -/
def languageOption : Option Value → Except OptionFault String
  | none => .ok "en"
  | some (.text s) => .ok s
  | some _ => .error (.notText "language")

def faultOf {α : Type} : Except OptionFault α → List OptionFault
  | .ok _ => []
  | .error f => [f]

/-- The options from the results of both checks. -/
def Options.ofChecks (name language : Except OptionFault String) : Except OptionsFault Options :=
  match name, language with
  | .ok name, .ok language => .ok ⟨name, language⟩
  | name, language => .error (.options (faultOf name ++ faultOf language))

/-- The options that a value gives. The settings are read only where the variable is
missing. -/
def Options.ofValue (v : Value) (store : SettingStore) :
    Except OptionsFault Options × SettingStore :=
  match v with
  | .record fields =>
    let language := languageOption (Value.field? "language" fields)
    match Value.field? "variable" fields with
    | some given => (Options.ofChecks (variableOption given) language, store)
    | none =>
      match store.load false with
      | (.ok settings, store) => (Options.ofChecks (.ok settings.defaultVariable) language, store)
      | (.error e, store) => (.error (.settings e), store)
  | _ => (.error (.options [.notRecord]), store)

end Reckoner
