-- What a question is about: its domain, how sure that is, its numbers, and whether mental
-- arithmetic answers it.
import Reckoner.Question.Domain
import Reckoner.Question.Number
import Reckoner.Vedic.Operation

namespace Reckoner

/-! ## Mental arithmetic -/

/-- A problem that mental arithmetic answers. -/
structure QuickProblem where
  operation : Vedic.Operation
  operands : List Value

/-- A word followed by "of". -/
def ofPhrase (s : String) : Pattern :=
  .edge :: letters s ++ [.one .blank, .many .blank] ++ letters "of" ++ [.edge]

/-- The problem that a text with some numbers states. The number of operands has to fit. -/
def quickProblem? (text : String) (numbers : List Value) : Option QuickProblem :=
  if (ofPhrase "square").occursIn text && numbers.length = 1 then some ⟨.square, numbers⟩
  else if (ofPhrase "cube").occursIn text && numbers.length = 1 then some ⟨.cube, numbers⟩
  else if anyOccurs (anyWord ["multiply", "product"]) text && numbers.length = 2 then
    some ⟨.multiply, numbers⟩
  else none

def QuickProblem.toRecord (p : QuickProblem) : Value :=
  .record [("type", p.operation.name), ("operands", .list p.operands)]

/-! ## Classification -/

/-- What a question is about. -/
structure Classification where
  /-- The domain that ranks first. -/
  primary : Domain
  /-- All domains, by rank. -/
  domains : List Domain
  confidence : Float
  quick : Option QuickProblem
  numbers : List Value
  /-- Whether something is to be proved. -/
  isProof : Bool

/-- The domain of a question that no rule matches. -/
def defaultDomain : Domain := .algebra

/-- How sure the domain is when no rule matches. -/
def defaultConfidence : Float := 0.3

/-- How sure the domain is when this many rules match. -/
def confidenceOf (score : Nat) : Float :=
  let x := Float.ofNat score * 0.3
  Double.roundTo 2 (if 0.95 < x then 0.95 else x)

/-- The words of a question to prove something. -/
def proofRule : Rule := [letters "prove", letters "show" ++ .many .any :: letters "that", letters "demonstrate"]

/-- A question in small letters without the blanks around it. -/
def normalized (question : String) : String := stripText (small question)

namespace Classification

/-- The classification by the ranking of the domains and the numbers. -/
def ofRanking (question : String) (ranked : List (Domain × Nat)) (numbers : List Value) :
    Classification where
  primary := (ranked.head?.map (·.1)).getD defaultDomain
  domains := ranked.map (·.1)
  confidence := (ranked.head?.map fun entry => confidenceOf entry.2).getD defaultConfidence
  quick := quickProblem? question numbers
  numbers := numbers
  isProof := anyOccurs proofRule (normalized question)

/-- The classification of a question. -/
def ofQuestion (question : String) : Except ValueFault Classification := do
  return ofRanking question (rankedDomains (normalized question)) (← numbersIn question)

/-- Whether there is something to compute. -/
def isComputation (c : Classification) : Bool := !c.numbers.isEmpty

def toRecord (c : Classification) : Value :=
  .record [("primary_domain", c.primary.name), ("all_domains", .texts (c.domains.map Domain.name)),
    ("confidence", c.confidence),
    ("vedic_pattern", (c.quick.map QuickProblem.toRecord).getD .nothing),
    ("numbers", .list c.numbers), ("is_computation", .truth c.isComputation),
    ("is_proof", .truth c.isProof)]

end Classification

/-- The text of a question. A missing one is empty. -/
def questionText (question : Value) : Except ValueFault String :=
  match question with
  | .nothing => .ok ""
  | v => v.toText

end Reckoner
