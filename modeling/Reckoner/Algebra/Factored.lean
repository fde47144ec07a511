-- Expressions as products of factors that are not products themselves.
import Reckoner.Algebra.Rational

namespace Reckoner

open scoped CoreArithmetic

namespace PolyForm

/-- A measured number as a fraction with a denominator that 53 bits can hold: the nearest of
the last two fractions that approach it. -/
def approximantAux (limit : Nat) : Nat → Int × Nat → Int × Nat → Int → Nat →
    (Int × Nat) × (Int × Nat)
  | 0, last, best, _, _ => (last, best)
  | fuel + 1, last, best, n, d =>
    if d = 0 then (last, best)
    else
      let a := n / d
      let q := last.2 + a.natAbs * best.2
      if limit < q then (last, best)
      else
        approximantAux limit fuel best (last.1 + a * best.1, q) d (n - a * d).natAbs

/-- A rational number close to `q` with a denominator of a reasonable size. -/
def approximant (q : Rat) : Rat :=
  let limit := 2 ^ (53 : Nat) / 200
  if q.den ≤ limit then q
  else
    let (last, best) := approximantAux limit 200 (0, 1) (1, 0) q.num q.den
    let k := (limit - last.2) / best.2
    let first := mkRat (last.1 + k * best.1) (last.2 + k * best.2)
    let second := mkRat best.1 best.2
    if first = 0 || second = 0 then q
    else if (second - q).abs ≤ (first - q).abs then second
    else first

/-- The largest coefficient. -/
def largest (p : Poly Rat) : Rat := p.foldl (fun m (_, c) => max m c.abs) 0

/-- The number before the factors of an expression, and the factors with multiplicities. A
number by itself has no factors. -/
def factorList? (x : Expr) : Option (Expr × List (Expr × Nat)) :=
  let form := ofExprs [x]
  match form.generators, form.polys with
  | _ :: _, [p] =>
    if !form.isReal then
      let (c, factors) := p.factorGaussian
      some (complex c, factors.map fun (f, k) => (toComplexExpr form.generators f, k))
    else
      let p := p.realPart
      match form.bits with
      | none =>
        let (c, factors) := p.factor
        some (.ofRat c, factors.map fun (f, k) => (toExpr form.generators none f, k))
      | some bits =>
        let (c, factors) := Poly.factor (p.map fun (e, c) => (e, approximant c))
        let scaled := factors.map fun (f, k) => (largest f, f, k)
        let c := scaled.foldl (fun acc (m, _, k) => acc * m ^ k) c
        some (.num (number bits c), scaled.map fun (m, f, k) =>
          (toExpr form.generators bits (Poly.scale (1 / m) f), k))
  | _, _ => none

end PolyForm

namespace Expr

/-! ## Factors -/

/-- The number before a product of factors, and the factors with exponents. -/
structure Factored where
  coeff : Expr
  factors : List (Expr × Expr)

/-- Whether the expression is a complex number with an imaginary part. -/
def isComplexNumber (x : Expr) : Bool :=
  x = .i || match x with
    | .sum l => (Builder.pureComplex? l).isSome
    | _ => false

/-- The product of powers. -/
def productOf (l : List (Expr × Expr)) : Expr := mul (l.map fun (b, e) => power b e)

/-- Takes one factor of a product apart. -/
def factorPart (acc : Factored) (x : Expr) : Factored :=
  if x.isNum || x.isComplexNumber then
    match acc.coeff, x with
    | .num m, .num n => { acc with coeff := .num (m.mul n) }
    | c, x => { acc with coeff := times c x }
  else
    let (b, e) := match x with
      | .pow b e => (b, e)
      | x => (x, .one)
    if x.isPow && b.isNum && e.isNum then { acc with coeff := times acc.coeff x }
    else if x.isPow && b.isNum then { acc with factors := acc.factors ++ [(b, e)] }
    else
      match PolyForm.factorList? b with
      | none => { acc with factors := acc.factors ++ [(b, e)] }
      | some (c, parts) =>
        let parts := parts.map fun (f, k) => (f, Expr.ofNat k)
        let plain := c = .one
        let acc :=
          if plain then acc
          else if e.isInteger then { acc with coeff := times acc.coeff (power c e) }
          else if c.isPositive then { acc with factors := acc.factors ++ [(c, e)] }
          else acc
        let parts :=
          if plain || e.isInteger || c.isPositive then parts else parts ++ [(c, .one)]
        if e = .one then { acc with factors := acc.factors ++ parts }
        else if e.isInteger then
          { acc with factors := acc.factors ++ parts.map fun (f, k) => (f, times k e) }
        else
          let positive := parts.filter fun (f, _) => f.isPositive
          let other := parts.filter fun (f, _) => !f.isPositive
          { acc with factors := acc.factors ++ positive.map (fun (f, k) => (f, times k e)) ++
              [(productOf other, e)] }

/-- The expression as a product of factors. -/
def factor (x : Expr) : Expr :=
  let parts := (x.together false).factors.foldl factorPart ⟨.one, []⟩
  let product := productOf parts.factors
  match parts.coeff, product with
  | .num c, product => keepCoeff c product
  | c, .num n => keepCoeff n c
  | c, product => times c product

end Expr

end Reckoner
