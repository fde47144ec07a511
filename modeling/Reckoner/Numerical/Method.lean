-- The numerical methods by name, with the arguments that each takes.
import Reckoner.Numerical.Chance
import Reckoner.Numerical.Quadrature
import Reckoner.Numerical.Stepping
import Reckoner.Fault.Basic

namespace Reckoner

namespace Numerical

/-! ## Methods -/

/-- A numerical method. -/
inductive Method where
  | newton | bisection | simpson | trapezoid | euler | centralDifference | monteCarlo
deriving DecidableEq

namespace Method

def all : List Method :=
  [newton, bisection, simpson, trapezoid, euler, centralDifference, monteCarlo]

/-- The name of the operation. -/
def name : Method → String
  | newton => "newton_raphson"
  | bisection => "bisection"
  | simpson => "simpsons_rule"
  | trapezoid => "trapezoidal_rule"
  | euler => "eulers_method"
  | centralDifference => "numerical_derivative"
  | monteCarlo => "monte_carlo"

/-- The name for readers. -/
def title : Method → String
  | newton => "Newton-Raphson"
  | bisection => "Bisection"
  | simpson => "Simpson's Rule"
  | trapezoid => "Trapezoidal Rule"
  | euler => "Euler's Method"
  | centralDifference => "Central Difference"
  | monteCarlo => "Monte Carlo"

/-- The method of a name. -/
def ofName? (name : String) : Option Method := all.find? fun m => m.name == name

/-- The names of all methods, in order. -/
def sortedNames : List String := sortBy (fun a b => decide (a < b)) (all.map name)

/-- The tolerance and the number of iterations of methods that look for a root. -/
def rootParameters : List Parameter :=
  [⟨"tol", some (1e-6 : Float)⟩, ⟨"max_iter", some (100 : Int)⟩]

/-- The arguments, in order. -/
def parameters : Method → List Parameter
  | newton => [⟨"f", none⟩, ⟨"f_prime", none⟩, ⟨"x0", none⟩] ++ rootParameters
  | bisection => [⟨"f", none⟩, ⟨"a", none⟩, ⟨"b", none⟩] ++ rootParameters
  | simpson | trapezoid => [⟨"f", none⟩, ⟨"a", none⟩, ⟨"b", none⟩, ⟨"n", some (100 : Int)⟩]
  | euler =>
    [⟨"f", none⟩, ⟨"x0", none⟩, ⟨"y0", none⟩, ⟨"x_end", none⟩, ⟨"h", some (0.1 : Float)⟩]
  | centralDifference => [⟨"f", none⟩, ⟨"x", none⟩, ⟨"h", some (1e-5 : Float)⟩]
  | monteCarlo => [⟨"experiment", none⟩, ⟨"trials", some (10000 : Int)⟩]

/-- The solution of a method. The argument of a name is looked up by `get`. -/
def run (m : Method) (get : String → Value) : Except ValueFault Solution :=
  let f := get "f"
  match m with
  | newton => Numerical.newton f.at (get "f_prime").at (get "x0") (get "tol") (get "max_iter")
  | bisection => Numerical.bisection f.at (get "a") (get "b") (get "tol") (get "max_iter")
  | simpson => Numerical.simpson f.at (get "a") (get "b") (get "n")
  | trapezoid => Numerical.trapezoid f.at (get "a") (get "b") (get "n")
  | euler => Numerical.euler f.atPair (get "x0") (get "y0") (get "x_end") (get "h")
  | centralDifference => Numerical.centralDifference f.at (get "x") (get "h")
  | monteCarlo => Numerical.monteCarlo (get "experiment").trial (get "trials")

/-- The solution of a method with named arguments; the others have their defaults. -/
def runNamed (m : Method) (arguments : List (String × Value)) : Except ValueFault Solution :=
  m.run (boundValue m.parameters arguments)

end Method

/-! ## Requests -/

/-- The names of arguments that have to be functions. -/
def functionArguments : List String := ["f", "f_prime", "experiment"]

/-- The method that a request asks for, once its arguments are checked. -/
def checkRequest (operation : String) (arguments : List (String × Value)) :
    Except RequestFault Method := do
  match Method.ofName? operation with
  | none => throw (.unknownOperation operation Method.sortedNames)
  | some m =>
    let _ ← requireArguments arguments (requiredNames m.parameters)
    let known := m.parameters.map (·.name)
    match arguments.find? fun (name, _) => !known.contains name with
    | some (name, _) => throw (.unexpected operation name)
    | none =>
      match functionArguments.find? fun name =>
          ((Value.field? name arguments).map Value.isFunction) == some false with
      | some name => throw (.notCallable name)
      | none => return m

/-- The solution that a request asks for. -/
def handle (operation : String) (arguments : List (String × Value)) : Except Fault Solution := do
  let m ← (checkRequest operation arguments).mapError .request
  (m.runNamed arguments).mapError .value

end Numerical

end Reckoner
