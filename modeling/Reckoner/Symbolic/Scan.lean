-- Looking for a root of an expression in one unknown on a grid of points. The first point at
-- which the expression almost vanishes is the solution.
import Reckoner.Log.Journal
import Reckoner.Symbolic.Expression
import Reckoner.Symbolic.Sampler

namespace Reckoner

open scoped CoreArithmetic

namespace Symbolic

/-! ## The grid -/

/-- The number of points of the grid. -/
def gridSize : Nat := 2001

/-- A point of the grid, which runs from -100 to 100 in steps of a tenth. -/
def gridPoint (i : Nat) : Float :=
  if i + 1 = gridSize then 100.0 else Float.ofNat i * 0.1 + -100.0

/-- How close to zero the expression has to be. -/
def scanTolerance : Float := 0.01

/-! ## Residuals -/

/-- How far an expression is from zero: at the points of the grid, where nothing fails, and
at a single point. -/
structure Residual where
  onGrid : Float → Float
  onPoint : Float → Except ValueFault Float

/-- The residual of a whole number, as far as it is one of 64 bits. The least number with a
sign is its own absolute value. -/
def wholeResidual (n : Int) : Except ValueFault Residual :=
  let same := fun (r : Float) => Residual.mk (fun _ => r) fun _ => .ok r
  if n = -(2 ^ (63 : Nat)) then .ok (same (-9223372036854775808))
  else if n < -(2 ^ (63 : Nat)) || 2 ^ (64 : Nat) ≤ n then .error .notScanned
  else do
    let x ← (Quantity.whole n).toFloat
    return same x.abs

/-- The residual of an expression in the unknown of the name. -/
def residualOf (name : String) (x : Expr) : Except ValueFault Residual :=
  match x.int? with
  | some n => wholeResidual n
  | none => do
    let s ← Sampler.ofExpr name x
    return ⟨fun point => (s.sample point).size, fun point => do
      return (← s.valueAt point).value.size⟩

/-- Whether a residual is small enough. -/
def isHit (r : Float) : Bool := r.isFinite && r < scanTolerance

/-- The first point of the grid with a small residual. -/
def firstHit? (r : Residual) : Option Float :=
  ((List.range gridSize).find? fun i => isHit (r.onGrid (gridPoint i))).map gridPoint

/-! ## The scan -/

/-- What is scanned: the name of the unknown, and the text of the expression by itself and in
a line. -/
structure ScanTexts where
  name : String
  text : String
  line : String

/-- The steps before the scan. -/
def scanSteps (t : ScanTexts) : List String :=
  ["Rearrange equation to standard form: " ++ t.line ++ " = 0",
    "Scan " ++ t.name ++ " from -100 to 100 in steps of 0.1"]

/-- The solution at a point of the grid, rounded to two places and checked there. -/
def scanSolution (t : ScanTexts) (r : Residual) (point : Float) : Except ValueFault Solution := do
  let root := Double.roundTo 2 point + 0.0
  let rest ← r.onPoint root
  return {
    method := "linear"
    answer := .list [root]
    steps := scanSteps t ++ ["Solution: " ++ t.name ++ " = " ++ Double.text root]
    verified := rest < scanTolerance
    details := [("solutions", .list [root]), ("expression", t.text), ("variable", t.name)] }

/-- Looks for a root of an expression by its residual. -/
def scan (t : ScanTexts) (r : Residual) : Except ValueFault Solution :=
  match firstHit? r with
  | some point => scanSolution t r point
  | none =>
    .ok (.failure "linear" "No solution found in range" (scanSteps t) [("expression", t.text)])

/-- Looks for a root of an expression, which may have no other unknown. -/
def solveByScan (x : Expr) (name : String) : Except Fault Solution := do
  let text ← x.checkedText
  let others := x.symbols.filter fun other => other ≠ name
  if others.isEmpty then
    let texts : ScanTexts := ⟨name, text, ← x.lineText⟩
    (residualOf name x >>= scan texts).mapError .value
  else
    return .failure "linear"
      ("Equation has unknowns other than " ++ name ++ ": " ++ Value.joinTexts ", " others) []
      [("expression", text)]

end Symbolic

end Reckoner
