-- Surds below the bar: a sum of numbers with one square root in it is made rational by its
-- conjugate, and so are roots of higher powers of two, one square root after another.
import Reckoner.Algebra.Joined.Base

namespace Reckoner

open scoped CoreArithmetic

namespace Expr

/-! ## The roots of a sum -/

/-- Whether a natural number is a power of two above one. -/
def isPowerOfTwo (n : Nat) : Bool := 1 < n && n = 2 ^ n.log2

/-- What stands under the square root that a factor is. The imaginary unit is a root of -1, and a
fourth root is the square root of a square root. -/
def underRoot? (x : Expr) : Option Expr :=
  match x with
  | .const .i => some .negOne
  | .pow b (.num (.exact q)) =>
    if q = 1 / 2 then some b
    else if isPowerOfTwo q.den then some (power b (.ofRat (2 * q)))
    else none
  | _ => none

/-- The terms of a sum by the roots in them: what stands under the roots, and the sum of the
factors before them. The smallest come first. -/
def byRoots (x : Expr) : List (Expr × Expr) :=
  let groups : List (List Expr × List Expr) := x.terms.foldl (fun acc t =>
    let roots := bySize (t.factors.filterMap underRoot?)
    let other := mul (t.factors.filter fun f => (underRoot? f).isNone)
    addEntry (· ++ ·) roots [other] acc) []
  let weightOf := fun (l : List Expr) => (l.map weight).foldl (· + ·) 0
  let keyed := groups.map fun g =>
    (g, weightOf g.1 + weightOf g.2, g.1.map Builder.full.sortKey, g.2.map Builder.full.sortKey)
  let lists := fun (l m : List SortKey) =>
    (compare l.length m.length).then (SortKey.cmpList l m)
  let sorted := sortBy (fun x y =>
    let (_, m, p, p') := x
    let (_, n, q, q') := y
    ((compare m n).then ((lists p q).then (lists p' q'))) != .gt) keyed
  sorted.map fun ((roots, others), _) => (mul roots, add others)

/-! ## Conjugates -/

/-- Multiplies a fraction above and below by conjugates until no root is left below. There is
nothing to be had from a sum of several roots. -/
def clearRoots : Nat → Expr → Expr → Option (Expr × Expr)
  | 0, _, _ => none
  | fuel + 1, n, d =>
    let multiply := fun (c : Expr) =>
      let c := c.joinPowers
      let d := (multiplyOut (times d c)).joinPowers
      let n := times n c
      if d = .zero then none
      else if d.isAtom then some (n, d)
      else clearRoots fuel n d
    match byRoots d with
    | [(root, _)] => if root = .one then some (n, d) else multiply (sqrt root)
    | [(a, p), (b, q)] =>
      if a = .one then multiply (sub (times (sqrt a) p) (times (sqrt b) q)) else none
    | _ => none

/-- The reciprocal of a sum of numbers as a fraction without a root below the bar. -/
def rationalReciprocal? (d : Expr) : Option (Expr × Expr) := do
  if !d.isClosed then none
  let (n, d) ← clearRoots 20 .one d.multiplyOut
  let (n, d) := (div n d).fraction
  let (n, d) := if d.isAtom then (n, d) else (n.settleSigns, d.settleSigns)
  let n := n.expand
  if d.isNum || d.isSum then
    let (c, rest) := (Expr.mul [inverse d]).coeffMulRational
    let (p, q) := (shareAll (rawProd ((if c = 1 then [] else [Expr.ofRat c]) ++ n.factors ++
      (if rest = .one then [] else [rest])))).fraction
    if q.isNum || q.effort ≤ d.effort then
      let p := p.settleSigns
      return (match p with
        | .prod (.num _ :: _) => mul p.factors
        | p => p, q.settleSigns)
    else return (n, d)
  else return (n, d)

/-- The quotient without a root below the bar, where there is a sum of numbers. -/
def rationalized (x : Expr) : Expr :=
  let (n, d) := x.numerDenom
  if !d.isSum then x
  else
    match rationalReciprocal? d with
    | some (p, q) => if p = .one then x else div (expand (times n p)) q
    | none => x

end Expr

end Reckoner
