-- Equations in one unknown. Both sides are brought to one, and the powers of the unknown
-- decide whether its roots are looked for on a grid or come from the quadratic formula.
import Reckoner.Symbolic.Quadratic
import Reckoner.Symbolic.Scan
import Reckoner.Text.Pieces

namespace Reckoner

namespace Symbolic

/-! ## Sides -/

/-- The text of an equation. What is empty in any way counts as an empty text. -/
def equationArgument (equation : Value) : Except Fault String :=
  match equation with
  | .text s => .ok s
  | v => if v.isTrue then .error (.value (.noPart v.kind "split")) else .ok ""

/-- The two sides of an equation. -/
def sidesOf? (text : String) : Option (String × String) :=
  match splitText '=' text with
  | [left, right] => some (stripText left, stripText right)
  | _ => none

/-- What is zero at the solutions: the difference of the sides, multiplied out. -/
def difference (left right : Expr) : Expr := (left.sub right).simplify.expand

def readSides (left right : String) (bound : List String) : Except Fault (Expr × Expr) := do
  let x ← (readExpression left bound).mapError .ofReading
  let y ← (readExpression right bound).mapError .ofReading
  return (x, y)

/-! ## Powers of the unknown -/

/-- Whether an exponent is above one. -/
def isAboveOne (e : Expr) : Bool := e.isRealNumber && (e.sub .one).isPositive

/-- Whether the unknown stands in an exponent, or under one above one. -/
def hasExponent (name : String) (x : Expr) : Bool :=
  x.any fun
    | .pow b e => e.hasSymbol name || (b.hasSymbol name && isAboveOne e)
    | _ => false

/-- The coefficients of a polynomial of the second degree in the unknown. -/
def secondDegree? (name : String) (x : Expr) : Option Coefficients :=
  match (x.coefficients? name).map Coefficients.trim with
  | some [c, b, a] => some [c, b, a]
  | _ => none

/-! ## Solving -/

/-- Solves `x = 0` for the unknown. -/
def solveZero (x : Expr) (name : String) : Except Fault Solution :=
  if hasExponent name x then
    match secondDegree? name x with
    | some p => solveQuadratic x p name
    | none => do
      return .failure "symbolic_equation" "Complex equations require symbolic solver" []
        [("expression", ← x.checkedText)]
  else solveByScan x name

/-- The record that an equation was brought to one side. -/
def noteRearranged (equation : Value) (text : String) : Logged Unit :=
  .note .debug "Equation rearranged" [("equation", equation), ("expression", text)]

/-- Solves an equation whose sides were read. -/
def solveSides (equation variableName : Value) (left right : Expr) : Logged Solution := do
  let name ← unknownOf variableName
  let x := difference left right
  let text ← x.checkedText
  noteRearranged equation text
  solveZero x name

/-- Solves an equation for a variable. -/
def solveEquation (equation variableName : Value) : Logged Solution := do
  let text ← equationArgument equation
  match sidesOf? text with
  | none =>
    return .failure "symbolic_equation" "Invalid equation format" [] [("equation", equation)]
  | some (left, right) =>
    let bound ← (variableName.toText.mapError .value : Except Fault String)
    match readSides left right [bound] with
    | .error (.reading f) =>
      return .failure "symbolic_equation" f.message [] [("equation", equation)]
    | .error f => .fail f
    | .ok (x, y) => solveSides equation variableName x y

end Symbolic

end Reckoner
