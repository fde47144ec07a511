-- A solution as a text for readers: the method, the numbered steps, and then what went wrong
-- or the answer and whether it was checked.
import Reckoner.Solution.Basic
import Reckoner.Text.Case

namespace Reckoner

namespace Solution

/-! ## Parts -/

/-- The name of the method in capitals, with blanks between its words. -/
def methodTitle (s : Solution) : String :=
  capitals (String.ofList (s.method.toList.map fun c => if c = '_' then ' ' else c))

def methodLines (s : Solution) : List String :=
  if s.method.isEmpty then [] else ["**Method Used:** " ++ s.methodTitle]

/-- The lines with numbers before them, from a number on. -/
def numbered : Nat → List String → List String
  | _, [] => []
  | n, step :: rest => (natText n ++ ". " ++ step) :: numbered (n + 1) rest

def stepLines (s : Solution) : List String :=
  if s.steps.isEmpty then [] else "\n**Step-by-Step Solution:**" :: numbered 1 s.steps

/-- The line with the answer. A list of solutions stands for the answer. -/
def answerLines (s : Solution) : Except ValueFault (List String) :=
  match s.detail "solutions" with
  | .list l => do
    let name ← (s.detailD "variable" "x").toText
    let texts ← l.mapM Value.toText
    return ["\n**Solutions:** " ++ name ++ " = " ++ Value.joinTexts ", " texts]
  | _ =>
    if s.answer.isNothing then .ok []
    else do return ["\n**Answer:** " ++ (← s.answer.toText)]

def checkLines (s : Solution) : List String :=
  if s.verified then ["\n✓ Solution verified: Correct"]
  else if s.answer.isNothing then []
  else ["\n✗ Solution not verified: Check required"]

/-- The lines after the steps. -/
def outcomeLines (s : Solution) : Except ValueFault (List String) :=
  if s.success then do return (← s.answerLines) ++ s.checkLines
  else .ok ["\n**Error:** " ++ s.reason.getD "None"]

/-! ## The summary -/

/-- The solution as a text for readers. -/
def summary (s : Solution) : Except ValueFault String := do
  return Value.joinTexts "\n" (s.methodLines ++ s.stepLines ++ (← s.outcomeLines))

end Solution

end Reckoner
