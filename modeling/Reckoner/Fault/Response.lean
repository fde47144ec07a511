-- What callers are told of a fault, with advice on what to do about it.
import Reckoner.Fault.Basic

namespace Reckoner

/-- The advice for the codes that have one of their own. -/
def recoveryTable : List (String × String) :=
  [("VALIDATION_ERROR", "Review the error message and adjust the request parameters accordingly."),
    ("OPTIONS_VALIDATION_ERROR",
      "Check the solve options. 'variable' must be a single identifier such as 'x'."),
    ("CONFIGURATION_ERROR",
      "Check the VEDAI_ENGINE_* environment variables and restart the process."),
    ("INVALID_INPUT",
      "Check the input parameters. Ensure operands are finite numbers and required arguments are present."),
    ("COMPUTATION_ERROR",
      "The computation failed. This might be due to numerical instability, overflow, or a non-numeric result."),
    ("UNSUPPORTED_PROBLEM",
      "The problem shape is beyond the deterministic solvers. Escalate to a text-generation solver."),
    ("MATH_ERROR",
      "A general math error occurred. Check input values for domain errors (e.g., division by zero).")]

/-- The advice for a code. -/
def recoveryFor (code : String) : String :=
  (lookupEntry code recoveryTable).getD
    "Review the error message, adjust the request, and try again."

/-- What callers are told. -/
structure ErrorResponse where
  code : String
  message : String
  details : Option (List (String × Value))
  recovery : String

namespace ErrorResponse

/-- What callers are told of a fault. -/
def ofFault (f : Fault) : ErrorResponse where
  code := f.category.code
  message := f.message
  details := if f.details.isEmpty then none else some f.details
  recovery := match f.category with
    | .other _ => "An unexpected error occurred. Please report this issue if it persists."
    | c => recoveryFor c.code

/-- The details as a value. -/
def detailsValue (r : ErrorResponse) : Value :=
  match r.details with
  | some fields => .record fields
  | none => .nothing

/-- The response as a record. -/
def toRecord (r : ErrorResponse) : Value :=
  .record [("status", "error"), ("error_code", r.code), ("message", r.message),
    ("details", r.detailsValue), ("recovery_strategy", r.recovery)]

end ErrorResponse

end Reckoner
