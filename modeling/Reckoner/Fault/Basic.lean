-- All that can go wrong, and what callers are told of it: the name of the kind, a code, a
-- message and details.
import Reckoner.Reading.Fault
import Reckoner.Request.Binding
import Reckoner.Request.Fault
import Reckoner.Settings.Options

namespace Reckoner

/-! ## Categories -/

/-- The category of a fault. -/
inductive Category where
  /-- A fault with a code of its own. -/
  | engine (code : String)
  | validation
  | configuration
  | math
  | invalidInput
  | computation
  | unsupported
  | options
  /-- Any other fault, by the name of its kind. -/
  | other (kind : String)
deriving DecidableEq

namespace Category

/-- The name of the kind of fault. -/
def kind : Category → String
  | engine _ => "EngineError"
  | validation => "ValidationError"
  | configuration => "ConfigurationError"
  | math => "MathError"
  | invalidInput => "InvalidInputError"
  | computation => "ComputationError"
  | unsupported => "UnsupportedProblemError"
  | options => "ValidationError"
  | other kind => kind

/-- The code that callers tell the category by. -/
def code : Category → String
  | engine code => code
  | validation => "VALIDATION_ERROR"
  | configuration => "CONFIGURATION_ERROR"
  | math => "MATH_ERROR"
  | invalidInput => "INVALID_INPUT"
  | computation => "COMPUTATION_ERROR"
  | unsupported => "UNSUPPORTED_PROBLEM"
  | options => "OPTIONS_VALIDATION_ERROR"
  | other _ => "INTERNAL_ERROR"

/-- Whether the fault is one of mathematics. -/
def isMath : Category → Bool
  | math | invalidInput | computation | unsupported => true
  | _ => false

/-- Whether the fault is one that the engine knows. -/
def isEngine : Category → Bool
  | options | other _ => false
  | _ => true

/-- The category of a kind of fault; one of the engine itself has the given code. -/
def ofKind (kind code : String) : Category :=
  match kind with
  | "EngineError" => engine code
  | "ValidationError" => validation
  | "ConfigurationError" => configuration
  | "MathError" => math
  | "InvalidInputError" => invalidInput
  | "ComputationError" => computation
  | "UnsupportedProblemError" => unsupported
  | kind => other kind

end Category

/-! ## Faults -/

/-- What went wrong. -/
inductive Fault where
  /-- An expression was not read. -/
  | reading (fault : ReadFault)
  /-- An operation on values has no result. -/
  | value (fault : ValueFault)
  /-- A request was refused. -/
  | request (fault : RequestFault)
  /-- The arguments of a call do not fit it. -/
  | call (fault : CallFault)
  /-- A setting was refused. -/
  | setting (fault : SettingFault)
  /-- The options were refused. -/
  | options (faults : List OptionFault)
  /-- A capability of the name is there already. -/
  | registered (name : String)
  /-- A fault that a caller made up. -/
  | raised (category : Category) (message : String) (details : List (String × Value))

namespace Fault

def category : Fault → Category
  | reading _ | request _ => .invalidInput
  | value f => .other f.kind
  | setting _ => .configuration
  | options _ => .options
  | call _ => .other "TypeError"
  | registered _ => .other "ValueError"
  | raised c _ _ => c

/-- The name of the kind of fault. -/
def kind (f : Fault) : String := f.category.kind

/-- The text of the fault by itself. -/
def message : Fault → String
  | reading f => f.message
  | value f => f.message
  | request f => f.message
  | call f => f.message
  | setting f => f.message
  | options faults => "Validation failed: " ++ natText faults.length ++ " error(s)"
  | registered name => "Capability '" ++ name ++ "' already registered"
  | raised _ message _ => message

/-- What is told of a text that was not read, beside the message. -/
def readingDetails : ReadFault → List (String × Value)
  | .tooLong length => [("length", (length : Int))]
  | .unsupported _ position => [("position", (position : Int))]
  | _ => []

/-- What is told beside the message. -/
def details (f : Fault) : List (String × Value) :=
  match f with
  | reading f => readingDetails f
  | request f => f.details
  | setting f => [("variable", f.key.variable)]
  | options faults => [("errors", .list (faults.map OptionFault.toRecord))]
  | raised (.other kind) _ _ => [("exception_type", kind)]
  | raised _ _ details => details
  | value f => [("exception_type", f.kind)]
  | call _ => [("exception_type", "TypeError")]
  | registered _ => [("exception_type", "ValueError")]

/-- A fault of a category. The message of a missing key is the key in quotes. -/
def ofCategory (c : Category) (message : String) (details : List (String × Value)) : Fault :=
  raised c (if c = .other "KeyError" then quoted message else message) details

/-- What went wrong in reading. A fault of a value is told as such. -/
def ofReading : ReadFault → Fault
  | .value f => value f
  | f => reading f

def ofOptions : OptionsFault → Fault
  | .settings f => setting f
  | .options l => options l

end Fault

end Reckoner
