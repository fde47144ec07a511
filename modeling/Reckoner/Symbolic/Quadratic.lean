-- Equations of the second degree: the coefficients of a polynomial in the unknown, and the
-- roots by the quadratic formula.
import Reckoner.Symbolic.Expression
import Reckoner.Value.Apply

namespace Reckoner

/-! ## Coefficients -/

/-- Polynomials in one unknown, by their coefficients from the constant one on. -/
abbrev Coefficients := List Expr

namespace Coefficients

def add : Coefficients → Coefficients → Coefficients
  | [], q => q
  | p, [] => p
  | a :: p, b :: q => Expr.plus a b :: add p q

def mul : Coefficients → Coefficients → Coefficients
  | [], _ => []
  | a :: p, q => add (q.map (Expr.times a)) (Expr.zero :: mul p q)

def pow (p : Coefficients) : Nat → Coefficients
  | 0 => [.one]
  | n + 1 => mul p (pow p n)

/-- The coefficients without zeros at the end. -/
def trim (p : Coefficients) : Coefficients :=
  (p.reverse.dropWhile fun a => a.expand.isZero? == some true).reverse

end Coefficients

namespace Expr

mutual
/-- The coefficients of an expression that is a polynomial in the unknown. -/
def coefficients? (name : String) : Expr → Option Coefficients
  | .sym s => some (if s = name then [.zero, .one] else [.sym s])
  | .sum l => (coefficientLists? name l).map fun ps => ps.foldl Coefficients.add []
  | .prod l => (coefficientLists? name l).map fun ps => ps.foldl Coefficients.mul [.one]
  | .pow b e =>
    if !(Expr.pow b e).hasSymbol name then some [.pow b e]
    else if e.hasSymbol name then none
    else
      match e.int?, coefficients? name b with
      | some n, some p => if 0 ≤ n then some (p.pow n.toNat) else none
      | _, _ => none
  | .app f a => if a.hasSymbol name then none else some [.app f a]
  | x => some [x]
def coefficientLists? (name : String) : List Expr → Option (List Coefficients)
  | [] => some []
  | a :: rest => do
    let p ← coefficients? name a
    return p :: (← coefficientLists? name rest)
end

/-- Whether the expression is a real number. -/
def isRealNumber (x : Expr) : Bool := x.isClosed && x.isReal? == some true

/-- The double closest to a real number. -/
def toDouble (x : Expr) : Float :=
  let n := match x with
    | .num n => n
    | x => match x.toNumeric 57 with
      | .value re _ => Builder.partNumber re
      | _ => .undefined
  match n with
  | .infinite negative => if negative then -1 / 0 else 1 / 0
  | .undefined => 0 / 0
  | n => match n.toBinary? 53 with
    | some b => (b.round .nearest 53).toFloat
    | none => 0 / 0

end Expr

/-! ## The formula -/

namespace Symbolic

/-- A polynomial of the second degree with real coefficients: a x² + b x + c. -/
structure Quadratic where
  a : Float
  b : Float
  c : Float

namespace Quadratic

def discriminant (p : Quadratic) : Float := p.b * p.b - 4 * p.a * p.c

/-- The quadratic with coefficients from the constant one on, where all are real. -/
def ofCoefficients? : Coefficients → Option Quadratic
  | [c, b, a] =>
    if [a, b, c].all Expr.isRealNumber then some ⟨a.toDouble, b.toDouble, c.toDouble⟩ else none
  | _ => none

def coefficientsRecord (p : Quadratic) : Value :=
  .record [("a", p.a), ("b", p.b), ("c", p.c)]

/-- The steps before the roots. -/
def firstSteps (p : Quadratic) : List String :=
  ["Identify a=" ++ Double.general 6 p.a ++ ", b=" ++ Double.general 6 p.b ++ ", c=" ++
      Double.general 6 p.c,
    "Calculate discriminant: b²-4ac = " ++ Double.general 6 p.discriminant]

/-- The first of two doubles unless the second is larger. -/
def larger (x y : Float) : Float := if y > x then y else x

/-- The size of the largest coefficient, at least one. -/
def scale (p : Quadratic) : Float := larger (larger (larger 1 p.a.abs) p.b.abs) p.c.abs

/-- The square of a double, where there is one. -/
def checkedSquare (x : Float) : Except ValueFault Float :=
  let y := x * x
  if y.isInf && !x.isInf then .error .powerPastDoubles else .ok y

/-- How large the value of the polynomial may be near a root of a size. -/
def tolerance (p : Quadratic) (size : Float) : Except ValueFault Float := do
  return 1e-9 * p.scale * (← checkedSquare (larger 1 size))

/-- Whether the polynomial almost vanishes at a point. -/
def isRoot (p : Quadratic) (x : Float) : Except ValueFault Bool := do
  let value := (p.a * x * x + p.b * x + p.c).abs
  return decide (value ≤ (← p.tolerance x.abs))

/-- The size of a complex number of two doubles. -/
def complexSize (re im : Float) : Except ValueFault Float :=
  let size := Double.hypotenuse re im
  if size.isInf && re.isFinite && im.isFinite then .error .sizePastDoubles else .ok size

/-- Whether the polynomial almost vanishes at a complex number. -/
def isComplexRoot (p : Quadratic) (re im : Float) : Except ValueFault Bool := do
  let scaledRe := p.a * re - 0 * im
  let scaledIm := p.a * im + 0 * re
  let squareRe := scaledRe * re - scaledIm * im
  let squareIm := scaledRe * im + scaledIm * re
  let value ← complexSize (squareRe + (p.b * re - 0 * im) + p.c) (squareIm + (p.b * im + 0 * re))
  return decide (value ≤ (← p.tolerance (← complexSize re im)))

/-- A quotient by twice the leading coefficient. -/
def overTwiceLead (p : Quadratic) (x : Float) : Except ValueFault Float :=
  let d := 2 * p.a
  if d == 0 then .error .measuredDivisionByZero else .ok (x / d)

/-- The solution by two complex roots. -/
def complexSolution (p : Quadratic) (name : String) : Except ValueFault Solution := do
  let re ← p.overTwiceLead (-p.b)
  let im ← p.overTwiceLead (-p.discriminant).sqrt
  let shownRe := Double.roundTo 3 re
  let shownIm := Double.roundTo 3 im.abs
  let text := Double.text shownRe ++ " ± " ++ Double.text shownIm ++ "i"
  return {
    method := "quadratic_formula"
    answer := text
    steps := p.firstSteps ++
      ["Complex solutions (discriminant < 0)", name ++ " = " ++ text]
    verified := ← p.isComplexRoot re im
    details := [("solutions", "complex"), ("real", shownRe), ("imaginary", shownIm),
      ("coefficients", p.coefficientsRecord), ("discriminant", p.discriminant)] }

/-- The solution by two real roots. -/
def realSolution (p : Quadratic) (name : String) : Except ValueFault Solution := do
  let root := p.discriminant.sqrt
  let x₁ ← p.overTwiceLead (-p.b + root)
  let x₂ ← p.overTwiceLead (-p.b - root)
  let shown₁ := Double.roundTo 3 x₁ + 0.0
  let shown₂ := Double.roundTo 3 x₂ + 0.0
  let verified ← if ← p.isRoot x₁ then p.isRoot x₂ else pure false
  return {
    method := "quadratic_formula"
    answer := .list [shown₁, shown₂]
    steps := p.firstSteps ++
      ["Apply quadratic formula: x = (-b ± √Δ) / 2a",
        "x₁ = " ++ Double.text shown₁, "x₂ = " ++ Double.text shown₂]
    verified := verified
    details := [("solutions", .list [shown₁, shown₂]), ("variable", name),
      ("coefficients", p.coefficientsRecord), ("discriminant", p.discriminant)] }

/-- The solution by the quadratic formula. -/
def solution (p : Quadratic) (name : String) : Except ValueFault Solution :=
  if p.discriminant < 0 then p.complexSolution name else p.realSolution name

end Quadratic

/-- Solves an equation of the second degree, given by coefficients. -/
def solveQuadratic (x : Expr) (p : Coefficients) (name : String) : Except Fault Solution :=
  match Quadratic.ofCoefficients? p with
  | some q => (q.solution name).mapError .value
  | none => do
    return .failure "quadratic_formula" "Quadratic coefficients must be real numbers" []
      [("expression", ← x.checkedText)]

end Symbolic

end Reckoner
