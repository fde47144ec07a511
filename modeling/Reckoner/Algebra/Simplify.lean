-- Simplification: of the forms that the rules give, the one with the least effort.
import Reckoner.Algebra.Joined.Logarithm
import Reckoner.Algebra.Surd
import Reckoner.Algebra.Wave.Exponential

namespace Reckoner

namespace Expr

/-! ## Steps -/

/-- The expression with every node built again. -/
def rebuildAux : Nat → Expr → Expr
  | 0, x => x
  | fuel + 1, x =>
    let part := rebuildAux fuel
    match x with
    | .sum l => add (l.map part)
    | .prod l => mul (l.map part)
    | .pow b e => power (part b) (part e)
    | .app f a => apply f (part a)
    | x => x

def rebuild (x : Expr) : Expr := rebuildAux (x.size + 1) x

/-- A number before a sum goes to its terms. -/
def spreadNumbers (x : Expr) : Expr :=
  x.substitute fun y =>
    match y with
    | .prod [.num n, .sum l] => some (mul [.num n, .sum l])
    | _ => none

/-- The quotient with the sign that reads better. -/
def betterSign (x : Expr) : Expr :=
  if x.prefersNegative then
    let (n, d) := x.fraction
    if d = .zero then x else settleSigns (div (neg n) (neg d))
  else x

/-- The expression as a quotient of polynomials in the easiest of the forms that it has
then. -/
def simplifyQuotient (x : Expr) : Expr :=
  let x := x.mapUp asQuotient
  let (c, p) := x.joinPowers.contentPrimitive true false
  let x := mul [.ofRat c, p]
  let reduced := x.cancel
  let reduced := easiest reduced [reduced.multiplyOut.cancel]
  let joined := easiest (x.together true) [reduced.together true]
  (easiest joined [reduced, x]).factorTerms false

/-- The expression with its functions in the easiest form. -/
def simplifyFunctions (x : Expr) : Expr :=
  let x := if x.hasWave || x.hasHyperbolic then x.reduceWaves else x
  if x.hasFn (· = .log) then easiest x.expandLog [x.joinLogs] else x

/-- The expression with its powers in the easiest form. -/
def simplifyPowers (x : Expr) : Expr :=
  let short := easiest x.joinExponentsAll [x.joinPowers, x]
  let short := easiest short [short.cancel]
  let short := easiest short [short.factorTerms true, short.expandMul.expandPowerExp]
  if short.hasFn fun f => f.isWave || f.isHyperbolic || f == .exp then short.joinExponentials else short

/-! ## All of it -/

/-- The steps after the arguments of functions are simple. A form with far more effort than the
start is not taken. -/
def simplifyCombined (start x : Expr) : Expr :=
  let y := simplifyPowers (simplifyFunctions (simplifyQuotient x))
  let y := betterSign (rationalized (spreadNumbers y))
  let y := if 17 * start.effort < 10 * y.effort then start else y
  y.rebuild

/-- The easiest form of an expression. A logarithm is taken apart where that is easier; in other
functions only the arguments change. -/
def simplifyAux : Nat → Expr → Expr
  | 0, x => x
  | fuel + 1, x =>
    if x.isZero? = some true then (if x.isNum then x else .zero)
    else
      match x with
      | .app .log a => easiest (apply .log (simplifyAux fuel a)).expandLog [x]
      | x =>
        let start := x.settleSigns
        if start.isAtom then start
        else
          let y := start.mapUp fun z => match z with
            | .app .exp _ => z
            | .app f a => apply f (simplifyAux fuel a)
            | z => z
          match y with
          | .sum _ | .prod _ | .pow _ _ | .app .exp _ => simplifyCombined start y
          | y => y.rebuild

/-- The easiest form of an expression. -/
def simplify (x : Expr) : Expr := simplifyAux (x.size + 1) x

end Expr

end Reckoner
