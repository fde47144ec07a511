-- The capabilities: groups of operations that are asked for by name. Each request is timed and
-- told in the journal.
import Reckoner.Numerical.Method
import Reckoner.Symbolic.Equation
import Reckoner.Symbolic.Evaluation
import Reckoner.Vedic.Operation

namespace Reckoner

/-! ## Requests for algebra -/

namespace Symbolic

/-- An operation of algebra. -/
inductive Operation where
  | solveEquation | simplify | derivative | evaluate | factor
deriving DecidableEq

namespace Operation

def all : List Operation := [solveEquation, simplify, derivative, evaluate, factor]

def name : Operation → String
  | solveEquation => "solve_equation"
  | simplify => "simplify"
  | derivative => "derivative"
  | evaluate => "evaluate"
  | factor => "factor"

/-- The operation of a name. -/
def ofName? (name : String) : Option Operation := all.find? fun o => o.name == name

/-- The arguments, in order. -/
def parameters : Operation → List Parameter
  | solveEquation => [⟨"equation", none⟩, ⟨"variable", some "x"⟩]
  | simplify | factor => [⟨"expression", none⟩]
  | derivative => [⟨"expression", none⟩, ⟨"variable", some "x"⟩]
  | evaluate => [⟨"expression", none⟩, ⟨"bindings", some .nothing⟩]

/-- The solution of an operation. The argument of a name is looked up by `get`. -/
def run (o : Operation) (get : String → Value) : Logged Solution :=
  match o with
  | solveEquation => Symbolic.solveEquation (get "equation") (get "variable")
  | simplify => .ofOutcome (Symbolic.simplification (get "expression"))
  | derivative => .ofOutcome (Symbolic.differentiation (get "expression") (get "variable"))
  | evaluate => .ofOutcome (Symbolic.evaluation (get "expression") (get "bindings"))
  | factor => .ofOutcome (Symbolic.factorization (get "expression"))

/-- The solution of an operation with named arguments; the others have their defaults. -/
def runNamed (o : Operation) (arguments : List (String × Value)) : Logged Solution :=
  o.run (boundValue o.parameters arguments)

end Operation

/-- The solution that a request asks for. -/
def handle (operation : String) (arguments : List (String × Value)) : Logged Solution :=
  match Operation.ofName? operation with
  | none => .fail (.request (.unknownOperation operation []))
  | some o =>
    match requireArguments arguments (requiredNames o.parameters) with
    | .error fault => .fail (.request fault)
    | .ok _ => o.runNamed arguments

end Symbolic

/-! ## Requests for mental arithmetic -/

namespace Vedic

/-- The record of a solution that did not pass its check. -/
def noteUnverified (o : Operation) (operands : List Value) (s : Solution) : Logged Unit :=
  if s.success && !s.verified then
    .note .warning "Vedic result failed verification"
      [("operation", o.name), ("operands", .list operands), ("method", s.method)]
  else pure ()

/-- The solution that a request asks for. -/
def handle (operation : String) (arguments : List (String × Value)) : Logged Solution := do
  let o ← operationOf operation
  let operands ← operandsOf o arguments
  let s ← o.run operands
  noteUnverified o operands s
  return s

end Vedic

/-! ## Capabilities -/

/-- A group of operations. -/
inductive Capability where
  | vedic | symbolic | numerical
  /-- A capability that hands back what it is asked for. -/
  | echo (name : String)
deriving DecidableEq

namespace Capability

/-- The capabilities that are always there. -/
def builtin : List Capability := [vedic, symbolic, numerical]

def name : Capability → String
  | vedic => "vedic"
  | symbolic => "symbolic"
  | numerical => "numerical"
  | echo name => name

def description : Capability → String
  | vedic => "Vedic mental-math sutras for squares, cubes, products and quotients"
  | symbolic => "Equation solving, simplification, differentiation, evaluation and factoring"
  | numerical => "Root finding, quadrature, ODE stepping, differentiation and Monte Carlo"
  | echo name => "stub " ++ name

/-- The names of the operations, by category. -/
def operations : Capability → List (String × List String)
  | vedic =>
    [("arithmetic", Vedic.Operation.all.map Vedic.Operation.name),
      ("sutras", ["nikhilam_sutra", "ekadhikena_purvena", "duplex", "urdhva_tiryagbhyam",
        "vedic_cube_5", "dhvajanka"])]
  | symbolic =>
    [("equations", ["solve_equation"]),
      ("expressions", ["simplify", "derivative", "evaluate", "factor"])]
  | numerical =>
    [("root_finding", ["newton_raphson", "bisection"]),
      ("integration", ["simpsons_rule", "trapezoidal_rule"]),
      ("differential_equations", ["eulers_method"]),
      ("differentiation", ["numerical_derivative"]),
      ("probability", ["monte_carlo"])]
  | echo _ => []

/-- The name under which records tell of a capability. -/
def label : Capability → String
  | vedic => "VedicCapability"
  | symbolic => "SymbolicCapability"
  | numerical => "NumericalCapability"
  | echo name => name

/-- The name under which records tell of the work of a capability. -/
def workName (c : Capability) : String := c.label ++ ".handle"

/-- The text that stands for the capability among the arguments of its work. -/
def objectText : Capability → String
  | vedic => "<vedai_engine.math_engine.capabilities.vedic.VedicCapability object>"
  | symbolic => "<vedai_engine.math_engine.capabilities.symbolic.SymbolicCapability object>"
  | numerical => "<vedai_engine.math_engine.capabilities.numerical.NumericalCapability object>"
  | echo name => name

/-- What a capability does for a request. -/
def work (c : Capability) (operation : String) (arguments : List (String × Value)) :
    Logged Solution :=
  match c with
  | vedic => Vedic.handle operation arguments
  | symbolic => Symbolic.handle operation arguments
  | numerical => .ofOutcome (Numerical.handle operation arguments)
  | echo _ => pure { method := operation, details := arguments }

/-- The solution that a request asks a capability for. -/
def handle (c : Capability) (operation : String) (arguments : List (String × Value)) :
    Logged Solution :=
  match c with
  | echo _ => c.work operation arguments
  | c => timed c.workName [c.objectText, operation, .record arguments] [] (c.work operation arguments)

end Capability

end Reckoner
