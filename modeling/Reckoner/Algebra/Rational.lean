-- Expressions as polynomials in what is not a number in them, and quotients in lowest
-- terms.
import Reckoner.Algebra.Shared
import Reckoner.Algebra.Expand
import Reckoner.Algebra.Sign
import Reckoner.Algebra.Text
import Reckoner.Polynomial.Gaussian

namespace Reckoner

/-! ## What takes the place of variables -/

/-- The place of a one-letter name among the variables of a polynomial. -/
def letterRank (name : String) : Nat :=
  match name.toList with
  | [c] =>
    if 'x' ≤ c && c ≤ 'z' then 124 + (c.toNat - 'x'.toNat)
    else if 'p' ≤ c && c ≤ 'w' then 216 + (c.toNat - 'p'.toNat)
    else if 'a' ≤ c && c ≤ 'o' then 301 + (c.toNat - 'a'.toNat)
    else 1000
  | _ => 1000

/-- What variables are ordered by: the rank of the name, the name, and the number that ends
it. -/
def generatorKey (x : Expr) : Nat × String × Nat :=
  let text := x.text.toList.reverse
  let digits := (text.takeWhile Char.isDigit).reverse
  let name := String.ofList (text.dropWhile Char.isDigit).reverse
  (letterRank name, name, digits.foldl (fun n c => 10 * n + (c.toNat - '0'.toNat)) 0)

def generatorBefore (a b : Nat × String × Nat) : Bool :=
  ((compare a.1 b.1).then ((compare a.2.1 b.2.1).then (compare a.2.2 b.2.2))) != .gt

/-- Variables in their order. -/
def sortGenerators (l : List Expr) : List Expr :=
  (sortBy (fun a b => generatorBefore a.2 b.2) (l.map fun x => (x, generatorKey x))).map Prod.fst

/-- A term as a number, whether the imaginary unit stands beside it, and powers of variables.
Beside a measured number the unit is a variable like others. -/
def splitGenerators (measured : Bool) (x : Expr) : Number × Bool × List (Expr × Nat) :=
  x.factors.foldl (fun (c, turned, powers) f =>
    match f with
    | .num n =>
      if n.isFinite then (c.mul n, turned, powers) else (c, turned, addEntry (· + ·) f 1 powers)
    | f =>
      if f = .i && !measured then (c, true, powers)
      else
        let (b, e) := Builder.full.decomposePower f
        let (b, e) := if e < 0 then (Expr.inverse b, e.natAbs) else (b, e.natAbs)
        (c, turned, addEntry (· + ·) b e powers)) (Number.exact 1, false, [])

/-- Polynomials in common variables. With measured numbers all coefficients are measured,
and `bits` says how precisely. -/
structure PolyForm where
  generators : List Expr
  bits : Option Nat
  polys : List (Poly Gaussian)

namespace PolyForm

/-- The precision of the measured numbers, if there are some. -/
def measuredBits (l : List Number) : Option Nat :=
  l.foldl (fun acc n => match n with
    | .approx _ p => some (max p (acc.getD 0))
    | _ => acc) none

/-- A rational coefficient, rounded if coefficients are measured. -/
def coefficient (bits : Option Nat) (n : Number) : Rat :=
  match bits, n with
  | none, n => n.toRat?.getD 0
  | some p, n => ((n.toBinary? p).map fun b => (b.round .nearest p).toRat).getD 0

/-- Expressions as polynomials. They are multiplied out first. -/
def ofExprs (l : List Expr) : PolyForm :=
  let terms := l.map fun x => x.expand.terms
  let bits := measuredBits (terms.flatMap fun ts => ts.map fun t => t.coeffMul.1)
  let split := terms.map fun ts => ts.map (splitGenerators bits.isSome)
  let gens := sortGenerators
    ((split.flatMap fun ts => ts.flatMap fun (_, _, ps) => ps.map Prod.fst).eraseDups)
  let polys := split.map fun ts => Poly.ofTerms (ts.map fun (c, turned, ps) =>
    let q := coefficient bits c
    (gens.map fun g => (lookupEntry g ps).getD 0, if turned then ⟨0, q⟩ else .ofRat q))
  ⟨gens, bits, polys⟩

/-- Whether all coefficients are real. -/
def isReal (form : PolyForm) : Bool := form.polys.all Poly.isReal

/-- A coefficient as a number. -/
def number (bits : Option Nat) (q : Rat) : Number :=
  match bits with
  | none => .exact q
  | some p => Number.settle (Binary.ofRat .nearest p q) p

/-- A polynomial as an expression. -/
def toExpr (generators : List Expr) (bits : Option Nat) (p : Poly Rat) : Expr :=
  Expr.add (p.map fun (e, c) =>
    Expr.mul (.num (number bits c) :: (generators.zip e).filterMap fun (g, n) =>
      if n = 0 then none else some (Expr.power g (.ofNat n))))

/-- A complex number with rational parts as an expression. -/
def complex (c : Gaussian) : Expr := Expr.plus (.ofRat c.re) (Expr.times (.ofRat c.im) .i)

/-- A polynomial with complex coefficients as an expression. -/
def toComplexExpr (generators : List Expr) (p : Poly Gaussian) : Expr :=
  Expr.add (p.map fun (e, c) =>
    Expr.mul (complex c :: (generators.zip e).filterMap fun (g, n) =>
      if n = 0 then none else some (Expr.power g (.ofNat n))))

end PolyForm

namespace Poly

/-- A quotient in lowest terms of polynomials with measured coefficients. Only a common
term is taken out when one of them is a single term. -/
def reduceMeasured (p q : Poly Rat) : Poly Rat × Poly Rat :=
  if p.isEmpty then ([], constant q.arity 1)
  else
    let (a, b) :=
      if p.length = 1 || q.length = 1 then
        let low := List.zipWith min (commonExponents p) (commonExponents q)
        (p.map fun (e, c) => (List.zipWith (· - ·) e low, c),
          q.map fun (e, c) => (List.zipWith (· - ·) e low, c))
      else
        let g := gcd p q
        let k := 1 / lead g
        ((divExact? p (scale k g)).getD p, (divExact? q (scale k g)).getD q)
    if lead b < 0 then (neg a, neg b) else (a, b)

end Poly

namespace Expr

/-! ## Lowest terms -/

/-- A quotient in lowest terms. -/
def cancelQuotient (p q : Expr) : Option Expr :=
  let form := PolyForm.ofExprs [p, q]
  match form.generators, form.polys with
  | _ :: _, [a, b] =>
    if form.isReal then
      let (a, b) := (a.realPart, b.realPart)
      let (a, b) := if form.bits.isSome then a.reduceMeasured b else a.reduce b
      some (div (PolyForm.toExpr form.generators form.bits a)
        (PolyForm.toExpr form.generators form.bits b))
    else
      let (a, b) := a.reduceGaussian b
      some (div (PolyForm.toComplexExpr form.generators a)
        (PolyForm.toComplexExpr form.generators b))
  | _, _ => none

/-- The expression as a quotient in lowest terms. -/
def cancel (x : Expr) : Expr :=
  let f := x.settleSigns
  if f.isNum then f
  else
    let f := f.factorRoots
    let (p, q) := f.numerDenom
    (cancelQuotient p q).getD f.expand

end Expr

end Reckoner
