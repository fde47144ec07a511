-- Derivatives, rule by rule: each part of the result is in normal form.
import Reckoner.Algebra.Normal

namespace Reckoner

/-! ## Functions -/

/-- The derivative of a function at an argument, for the functions that have one here. -/
def Fn.slope (f : Fn) (x : Expr) : Expr :=
  let square := fun (f : Fn) => Expr.power (Expr.apply f x) (.ofInt 2)
  match f with
  | .sin => Expr.apply .cos x
  | .cos => Expr.neg (Expr.apply .sin x)
  | .tan => Expr.plus .one (square .tan)
  | .cot => Expr.sub .negOne (square .cot)
  | .sec => Expr.times (Expr.apply .tan x) (Expr.apply .sec x)
  | .csc => Expr.neg (Expr.times (Expr.apply .cot x) (Expr.apply .csc x))
  | .sinh => Expr.apply .cosh x
  | .cosh => Expr.apply .sinh x
  | .tanh => Expr.sub .one (square .tanh)
  | .coth => Expr.neg (Expr.power (Expr.apply .sinh x) (.ofInt (-2)))
  | .sech => Expr.neg (Expr.times (Expr.apply .tanh x) (Expr.apply .sech x))
  | .csch => Expr.neg (Expr.times (Expr.apply .coth x) (Expr.apply .csch x))
  | .exp => Expr.apply .exp x
  | .log => Expr.inverse x
  | .floor => Expr.apply .floorSlope x
  | .floorSlope => .zero

namespace Expr

/-! ## Expressions -/

/-- Each factor with its derivative in its place, the other factors kept. -/
def productTerms (before : List Expr) : List (Expr × Expr) → List Expr
  | [] => []
  | (x, dx) :: rest =>
    let others := productTerms (before ++ [x]) rest
    if dx = .zero then others
    else (before ++ dx :: rest.map Prod.fst).foldl times .one :: others

mutual
/-- The derivative by a symbol. -/
def derivative (name : String) : Expr → Expr
  | .num _ | .const _ => .zero
  | .sym s => if s = name then .one else .zero
  | .sum l => add (derivativeList name l)
  | .prod l =>
    if (Expr.prod l).hasSymbol name then
      add (productTerms [] (l.zip (derivativeList name l)))
    else .zero
  | .pow b e =>
    if (Expr.pow b e).hasSymbol name then
      let byExponent := times (derivative name e) (apply .log b)
      let byBase := times (times (derivative name b) e) (inverse b)
      times (.pow b e) (plus byExponent byBase)
    else .zero
  | .app f a =>
    if a.hasSymbol name then
      let da := derivative name a
      if da.isZero? = some true then .zero else times (f.slope a) da
    else .zero
def derivativeList (name : String) : List Expr → List Expr
  | [] => []
  | a :: r => derivative name a :: derivativeList name r
end

end Expr

end Reckoner
