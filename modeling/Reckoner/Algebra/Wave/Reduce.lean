-- The best form of an expression with waves: a chain of identities is applied to each node, and
-- where an identity may make things worse, the form with the least cost goes on. Hyperbolic
-- functions are waves of an imaginary angle.
import Reckoner.Algebra.Wave.Angle
import Reckoner.Algebra.Wave.Product
import Reckoner.Algebra.Wave.Ratio
import Reckoner.Algebra.Wave.Square

namespace Reckoner

namespace Expr

/-! ## The chain of identities -/

/-- The expression, or what the rule makes of it where that costs less. -/
def atBest (rule : Expr → Expr) (x : Expr) : Expr := leastWaves x [rule x]

/-- Brings the expression to factors with few functions. -/
def wavesAsFactors (x : Expr) : Expr :=
  let x := splitTangents (withoutSecants (settleAngles x))
  let x := atBest multiplyOut (withoutTangents x.factor)
  let x := (ratios x).asQuotient.factor
  let x := halveQuotients (halveAngles (splitAngles (sineSquares (joinConjugates x))))
  atBest multiplyOut (joinConjugates (cosineSquares x).factor)

/-- Brings products of waves together again, as waves of other angles or other functions. -/
def wavesTogether (x : Expr) : Expr :=
  let x := atBest productsAsSums (telescopes (joinAngles x))
  let x := atBest (fun y => ratios (withoutTangents y)) x
  let x := leastWaves (sineSquares x).expandMul [(inverseSineSquares x).expandMul]
  let x := leastWaves (cosineSquares x).expandMul [(inverseCosineSquares x).expandMul]
  let x := atBest ratios (reciprocals x)
  let x := atBest (fun y => (tangentSquares y).expandMul) x
  let x := ratios (withoutTangents (withoutSecants x))
  atBest (fun y => (splitTangents y).factorTerms true) x

/-- The best form of a node. Factors without waves stand aside. -/
def reduceWave (x : Expr) : Expr :=
  if !x.hasWave then x
  else
    let best := fun (y : Expr) => atBest (fun y => wavesTogether (wavesAsFactors y)) y
    match x with
    | .prod l =>
      let (waves, plain) := l.partition hasWave
      times (mul plain) (best (rawProd waves))
    | x => best x

/-! ## Imaginary angles -/

/-- A symbol that no text can name. -/
def hiddenSymbol (n : Nat) : Expr := .sym ("_ " ++ toString n)

/-- The symbol that stands for an imaginary direction. -/
def direction : Expr := hiddenSymbol 0

/-- Hyperbolic functions as waves of an angle in the imaginary direction. -/
def toWaves (x : Expr) : Expr :=
  x.mapUp fun y =>
    match y with
    | .app f a =>
      let angle := rawSum (a.terms.map fun t => times t direction)
      match f with
      | .sinh => times .i (apply .sin angle)
      | .cosh => apply .cos angle
      | .tanh => times .i (apply .tan angle)
      | .coth => div (apply .cot angle) .i
      | .sech => apply .sec angle
      | .csch => div (apply .csc angle) .i
      | _ => y
    | y => y

/-- Waves of an angle in the imaginary direction as hyperbolic functions. -/
def ofWaves (x : Expr) : Expr :=
  x.mapUp fun y =>
    match y with
    | .app f a =>
      if !f.isWave then y
      else
        let (along, across) := a.terms.partition (hasExpr direction)
        let angle := plus (add (along.map fun t => t.substitute fun z =>
          if z = direction then some .one else none)) (times (add across) .i)
        match f with
        | .sin => div (apply .sinh angle) .i
        | .cos => apply .cosh angle
        | .tan => div (apply .tanh angle) .i
        | .cot => times (apply .coth angle) .i
        | .sec => apply .sech angle
        | .csc => times (apply .csch angle) .i
        | _ => y
    | y => y

/-- The terms with a factor `i` joined, and so in the factors of products and the bases of
powers. -/
def collectUnitAux : Nat → Expr → Expr
  | 0, x => x
  | fuel + 1, x =>
    match x with
    | .sum l =>
      let l := (add (l.map (collectUnitAux fuel))).terms
      let (turned, plain) := l.partition fun t => t.factors.contains .i
      plus (times .i (add (turned.map fun t => mul (t.factors.erase .i)))) (add plain)
    | .prod l => mul (l.map (collectUnitAux fuel))
    | .pow b e => power (collectUnitAux fuel b) e
    | x => x

/-- The terms with a factor `i` joined. -/
def collectUnit (x : Expr) : Expr := collectUnitAux (x.size + 1) x

/-- Applies a rule for waves to the hyperbolic functions of an expression. Its own waves are
hidden meanwhile. -/
def asWaves (rule : Expr → Expr) (x : Expr) : Expr :=
  let waves := (x.postorder.filter fun y => match y with
    | .app f _ => f.isWave
    | _ => false).eraseDups
  let hidden := waves.zipIdx.map fun (w, n) => (w, hiddenSymbol (n + 1))
  let masked := x.substitute fun y => lookupEntry y hidden
  let back := (ofWaves (rule (toWaves masked))).substitute fun y =>
    (hidden.find? fun (_, s) => s == y).map Prod.fst
  collectUnit back.settleSigns

/-! ## All nodes -/

/-- The expression in the best form that the identities give. -/
def reduceWaves (x : Expr) : Expr :=
  let y := x.mapUp reduceWave
  let y := if y.hasHyperbolic then asWaves (fun z => z.mapUp reduceWave) y else y
  if y = x then x
  else
    match y with
    | .prod (.num (.exact q) :: rest) => times (.ofRat q) (rawProd rest)
    | y => y

end Expr

end Reckoner
