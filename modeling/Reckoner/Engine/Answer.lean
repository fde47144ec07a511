-- Answers to questions in words. A question is classified first, and then goes to the first
-- solver that fits; whatever goes wrong after that is told in the answer.
import Reckoner.Engine.Registry
import Reckoner.Fault.Response
import Reckoner.Question.Classification
import Reckoner.Question.Extract
import Reckoner.Solution.Summary
import Reckoner.Value.Entries

namespace Reckoner

/-! ## Answers -/

/-- How a question is answered. -/
inductive Route where
  | vedic | algebra | calculus | simplification | numerical | specialized
deriving DecidableEq

/-- The name of the route. -/
def Route.name : Route → String
  | vedic => "vedic_math"
  | algebra => "symbolic_algebra"
  | calculus => "symbolic_calculus"
  | simplification => "symbolic_simplification"
  | numerical => "numerical_analysis"
  | specialized => "specialized"

/-- The answer to a question. -/
structure Answer where
  question : String
  classification : Classification
  /-- The route with its solution; nothing where no route fits or something went wrong. -/
  outcome : Option (Route × Solution)
  fault : Option Fault

namespace Answer

def solution (a : Answer) : Option Solution := a.outcome.map (·.2)

def method (a : Answer) : Option String := a.outcome.map fun o => o.1.name

def confidence (a : Answer) : Float := a.classification.confidence

/-- Whether the question needs a solver that writes texts. -/
def requiresWriter (a : Answer) : Bool :=
  match a.solution with
  | some s => (s.detail "requires_ai").isTrue
  | none => false

/-- The summary of the solution. -/
def summary (a : Answer) : Except ValueFault (Option String) :=
  match a.solution with
  | some s => s.summary.map some
  | none => .ok none

def faultFields (a : Answer) : List (String × Value) :=
  match a.fault with
  | some f =>
    let r := ErrorResponse.ofFault f
    [("error", r.message), ("error_code", r.code)]
  | none => []

/-- The answer as a record. -/
def toRecord (a : Answer) : List (String × Value) :=
  [("question", .text a.question), ("classification", a.classification.toRecord),
    ("solution", (a.solution.map Solution.toRecord).getD .nothing),
    ("method", .ofText? a.method), ("confidence", .measure a.confidence)] ++ a.faultFields

end Answer

/-! ## Routes -/

/-- Whether two equals signs stand side by side. -/
def hasDoubledEquals : List Char → Bool
  | [] => false
  | c :: rest => (c == '=' && rest.head? == some '=') || hasDoubledEquals rest

/-- Whether a text holds an equation: an equals sign, and none that is doubled. -/
def hasEquation (text : String) : Bool :=
  text.toList.contains '=' && !hasDoubledEquals text.toList

/-- The domains of algebra. -/
def isSymbolic (d : Domain) : Bool := d = .algebra || d = .calculus

/-- The domains with numerical methods. -/
def isNumerical (d : Domain) : Bool := d = .calculus || d = .probability

def asksForDerivative (text : String) : Bool := anyOccurs (anyWord ["derivative", "differentiate"]) text

def asksForSimplification (text : String) : Bool := anyOccurs (anyWord ["simplify"]) text

def asksForNumbers (text : String) : Bool :=
  anyOccurs (anyWord ["approximate", "integrate", "numerical"]) text

/-- The route that a question takes. -/
def routeOf (text : String) (c : Classification) : Option Route :=
  if c.quick.isSome then some .vedic
  else if isSymbolic c.primary then
    if hasEquation text then some .algebra
    else if asksForDerivative text then some .calculus
    else if asksForSimplification text then some .simplification
    else none
  else if isNumerical c.primary && asksForNumbers text then some .numerical
  else some .specialized

/-- What is told of numerical methods. -/
def numericalNote : Solution where
  method := Route.numerical.name
  details := [("note", "Numerical methods available for integration, root finding, ODEs"),
    ("available_methods", .texts (Numerical.Method.all.map Numerical.Method.title))]

/-- What is told of a domain without a solver. -/
def specializedNote (d : Domain) : Solution where
  method := Route.specialized.name
  details := [("domain", d.name), ("note", "Specialized solver for this domain"),
    ("requires_ai", .truth true)]

namespace Engine

/-- The solution of a problem of mental arithmetic. -/
def solveQuick (engine : Engine) (p : QuickProblem) : Logged Solution := do
  .note .debug "Using Vedic solver" [("pattern", p.operation.name)]
  engine.compute "vedic" p.operation.name (p.operation.operandNames.zip p.operands)

/-- The solution of an equation, derivative or simplification. -/
def solveSymbolic (engine : Engine) (text name : String) (route : Route) : Logged Solution :=
  match route with
  | .algebra =>
    engine.compute "symbolic" "solve_equation"
      [("equation", equationText text), ("variable", name)]
  | .calculus =>
    engine.compute "symbolic" "derivative"
      [("expression", extractExpression text name), ("variable", name)]
  | _ => engine.compute "symbolic" "simplify" [("expression", extractExpression text name)]

/-- The solution of a question by its route. -/
def follow (engine : Engine) (text : String) (c : Classification) (options : Options) :
    Logged (Option (Route × Solution)) :=
  let domain : List (String × Value) := [("domain", c.primary.name)]
  match c.quick with
  | some p => do return some (.vedic, ← engine.solveQuick p)
  | none =>
    match routeOf text c with
    | some .numerical => do
      .note .debug "Numerical methods available" domain
      return some (.numerical, numericalNote)
    | some .specialized => do
      .note .debug "Domain-specific solver required" domain
      return some (.specialized, specializedNote c.primary)
    | some route => do
      .note .debug "Using symbolic solver" domain
      return some (route, ← engine.solveSymbolic text options.name route)
    | none => do
      .note .debug "Using symbolic solver" domain
      return none

/-! ## Solving -/

/-- The options that a value gives to a question. -/
def readOptions (given : Value) (store : SettingStore) : Except Fault Options × SettingStore :=
  match given.entries with
  | .error f => (.error (.value f), store)
  | .ok entries =>
    let (options, store) := Options.ofValue (.record (Value.textFields entries)) store
    (options.mapError Fault.ofOptions, store)

/-- The record of a classification. -/
def classifiedRecord (c : Classification) : LogRecord where
  level := .info
  message := "Question classified"
  fields := [("primary_domain", c.primary.name), ("all_domains", .texts (c.domains.map Domain.name)),
    ("confidence", c.confidence),
    ("vedic_pattern", .ofText? (c.quick.map fun p => p.operation.name))]

/-- The record of a fault that an answer tells of. -/
def faultRecord (f : Fault) : LogRecord :=
  let r := ErrorResponse.ofFault f
  { level := .error
    message := "Math engine failed"
    fields := [("error", r.message), ("error_code", r.code), ("error_type", f.kind)] }

/-- The records of what became of a solution. -/
def outcomeRecords : Option (Route × Solution) → List LogRecord
  | none => []
  | some (route, s) =>
    if !s.success then
      [⟨.info, "Solver reported failure", [("method", route.name), ("error", .ofText? s.reason)]⟩]
    else if route = .vedic && !s.verified then
      [⟨.warning, "Vedic solution not verified", [("sutra", s.method)]⟩]
    else []

/-- The answer by the outcome of the work, with the records that it leaves. -/
def answerOf (text : String) (c : Classification) (work : Logged (Option (Route × Solution))) :
    Logged Answer :=
  match work.outcome with
  | .ok outcome =>
    ⟨classifiedRecord c :: work.records ++ outcomeRecords outcome, .ok ⟨text, c, outcome, none⟩⟩
  | .error f =>
    ⟨classifiedRecord c :: work.records ++ [faultRecord f], .ok ⟨text, c, none, some f⟩⟩

/-- Answers a question with the given options. -/
def solve (engine : Engine) (question given : Value) (store : SettingStore) :
    Logged Answer × SettingStore :=
  match questionText question, (do Classification.ofQuestion (← questionText question)) with
  | .ok text, .ok c =>
    let (options, store) := readOptions given store
    let work := match options with
      | .ok options => engine.follow text c options
      | .error f => .fail f
    (answerOf text c work, store)
  | .error f, _ | _, .error f => (.fail (.value f), store)

end Engine

end Reckoner
