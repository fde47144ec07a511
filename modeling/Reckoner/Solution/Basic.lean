-- What a solver answers: the method, the answer with the steps toward it, whether the answer
-- was checked, and details that only some methods give.
import Reckoner.Value.Text

namespace Reckoner

/-- What a solver answers. -/
structure Solution where
  /-- The name of the method. -/
  method : String
  answer : Value := .nothing
  /-- The steps, in the order in which they were done. -/
  steps : List String := []
  /-- Whether the answer passed a check. -/
  verified : Bool := false
  success : Bool := true
  /-- Why there is no answer. -/
  reason : Option String := none
  details : List (String × Value) := []

namespace Solution

/-- A solver that found no answer, with the steps up to there. -/
def failure (method reason : String) (steps : List String) (details : List (String × Value)) :
    Solution where
  method := method
  steps := steps
  success := false
  reason := some reason
  details := details

/-- A detail, or the value to take where it is missing. -/
def detailD (name : String) (default : Value) (s : Solution) : Value :=
  (Value.field? name s.details).getD default

/-- A detail, or nothing. -/
def detail (name : String) (s : Solution) : Value := s.detailD name .nothing

/-- The fields that every solution has. -/
def coreFields (s : Solution) : List (String × Value) :=
  [("method", .text s.method), ("result", s.answer), ("steps", .texts s.steps),
    ("verified", .truth s.verified), ("success", .truth s.success)] ++
    match s.reason with
    | some reason => [("error", .text reason)]
    | none => []

/-- Adds the fields whose names are new. -/
def addNew (fields more : List (String × Value)) : List (String × Value) :=
  more.foldl (fun acc (name, v) =>
    if (Value.field? name acc).isSome then acc else acc ++ [(name, v)]) fields

/-- The solution as a record: its own fields, and then the details with other names. -/
def toRecord (s : Solution) : Value := .record (addNew s.coreFields s.details)

end Solution

end Reckoner
