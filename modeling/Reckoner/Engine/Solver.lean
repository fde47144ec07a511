-- The solvers by name, each called with arguments by place and by name.
import Reckoner.Engine.Capability

namespace Reckoner

/-! ## Solvers -/

/-- A solver that can be called by name. -/
inductive Solver where
  | vedic (operation : Vedic.Operation)
  /-- A problem of mental arithmetic of a given type. -/
  | vedicProblem
  | symbolic (operation : Symbolic.Operation)
  | numerical (method : Numerical.Method)
deriving DecidableEq

namespace Solver

def all : List Solver :=
  Vedic.Operation.all.map vedic ++ [vedicProblem] ++ Symbolic.Operation.all.map symbolic ++
    Numerical.Method.all.map numerical

def name : Solver → String
  | vedic o => "vedic_" ++ o.name
  | vedicProblem => "solve_vedic_problem"
  | symbolic .solveEquation => "solve_algebraic_equation"
  | symbolic .simplify => "simplify_expression"
  | symbolic .derivative => "calculate_derivative"
  | symbolic .evaluate => "evaluate_expression"
  | symbolic .factor => "factor_polynomial"
  | numerical .bisection => "bisection_method"
  | numerical m => m.name

/-- The solver of a name. -/
def ofName? (name : String) : Option Solver := all.find? fun s => s.name == name

/-- The parameter for the type of a problem. -/
def problemType : Parameter := ⟨"problem_type", none⟩

/-- The parameters; the operands of a problem come after its type and have no names. -/
def parameters : Solver → List Parameter
  | vedic o => o.operandNames.map fun name => ⟨name, none⟩
  | vedicProblem => [problemType]
  | symbolic o => o.parameters
  | numerical m => m.parameters

/-- The solution for bound arguments. -/
def runBound (s : Solver) (bound : List (String × Value)) (operands : List Value) :
    Logged Solution :=
  let get := boundValue s.parameters bound
  match s with
  | vedic o => .ofOutcome (o.run (o.operandNames.map get))
  | vedicProblem => .ofOutcome (Vedic.solve (get "problem_type") operands)
  | symbolic o => o.run get
  | numerical m => .ofOutcome ((m.run get).mapError .value)

/-- The solution of a call. -/
def call (s : Solver) (given : List Value) (named : List (String × Value)) : Logged Solution :=
  let (given, operands) := match s with
    | vedicProblem => (given.take 1, given.drop 1)
    | _ => (given, [])
  match bindArguments s.name s.parameters given named with
  | .ok bound => s.runBound bound operands
  | .error f => .fail (.call f)

/-- The solution of a call of a solver by its name. -/
def callNamed (name : String) (given : List Value) (named : List (String × Value)) :
    Logged Solution :=
  match ofName? name with
  | some s => s.call given named
  | none => .fail (.value (.unknownEntry name))

end Solver

end Reckoner
