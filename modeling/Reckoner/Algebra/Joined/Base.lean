-- Joining bases: powers with a common exponent become the power of a product, as far as the
-- signs of the bases allow it.
import Reckoner.Algebra.Joined.Exponent

namespace Reckoner

namespace Expr

/-! ## One base for a common exponent -/

/-- The number of terms of an expression multiplied out. -/
def spreadCountAux : Nat → Expr → Nat
  | 0, _ => 1
  | fuel + 1, x =>
    match x with
    | .sum l => (l.map (spreadCountAux fuel)).foldl (· + ·) 0
    | .prod l => (l.map (spreadCountAux fuel)).foldl (· * ·) 1
    | _ => 1

def spreadCount (x : Expr) : Nat := spreadCountAux (x.size + 1) x

/-- Gives the number of an exponent to a base that is not negative. -/
def absorbExponent (b e : Expr) : Expr × Expr :=
  let (n, d) := b.numerDenom
  if (n.isNonnegative && d.isNonnegative) || e.isInteger then
    let (q, t) := e.coeffMulRational
    if q ≠ 1 && t != .one then (power b (.ofRat q), t) else (b, e)
  else (b, e)

/-- The bases with a common exponent as few powers as their signs allow. -/
def joinBasesAt (e : Expr) (bases : List Expr) : List (Expr × Expr) :=
  match bases with
  | [b] => [(b, e)]
  | bases =>
    if e.isInteger then [(mul bases, e)]
    else
      let negative := bases.filter isNegative
      let plain := bases.filter fun b => !b.isNegative && b.isNonnegative
      let unknown := bases.filter fun b => !b.isNegative && !b.isNonnegative
      let (plain, unknown) :=
        if unknown.length = 1 && negative.isEmpty then (plain ++ unknown, [])
        else if negative.length = 1 && unknown.isEmpty then (plain ++ negative, [])
        else if !negative.isEmpty && e.isRational then
          (plain ++ negative.map neg, unknown ++ negative.map fun _ => negOne)
        else (plain, unknown ++ negative)
      let joined := mul plain
      let spread := expandMulTop joined
      let joined := if spread.terms.length < joined.spreadCount then spread.factorTerms true else joined
      unknown.map (fun b => (b, e)) ++ [(joined, e)]

/-- The product of factors with the bases of one exponent joined. -/
def joinBases (factors : List Expr) : Expr :=
  let byExponent := factors.foldl (fun acc f =>
    let (b, e) := match f with
      | .num (.exact q) => if q.num = 1 && q.den ≠ 1 then (Expr.ofNat q.den, Expr.negOne) else (f, Expr.one)
      | f => f.baseExp neg
    let (b, e) := absorbExponent b e
    let (b, e) :=
      if e.isSum && b.isPositive then
        let f := e.factorTerms true
        if f.leadsNegative then (inverse b, neg f) else (b, f)
      else (b, e)
    addEntry (· ++ ·) e [b] acc) ([] : List (Expr × List Expr))
  mul ((byExponent.flatMap fun (e, bs) => joinBasesAt e bs).map fun (b, e) => power b e)

/-! ## Inside sums and products -/

/-- Applies a rule for products to the sums and products of an expression; a power is a product
of one factor. -/
def mapProducts (rule : List Expr → Expr) : Nat → Expr → Expr
  | 0, x => x
  | fuel + 1, x =>
    match x with
    | .sum l => add (l.map (mapProducts rule fuel))
    | .prod l =>
      match mul (l.map (mapProducts rule fuel)) with
      | .prod m => rule m
      | .pow b e => rule [.pow b e]
      | y => y
    | .pow b e => rule [.pow b e]
    | x => x

/-- The expression with the bases of one exponent joined. -/
def joinBasesAll (x : Expr) : Expr := mapProducts joinBases (x.size + 4) x

/-- The expression with the powers of one base joined, and then the bases of one exponent. -/
def joinPowers (x : Expr) : Expr :=
  mapProducts (fun l =>
    let y := joinExponents false id l
    -- a single power is not entered again
    match l, y with
    | [_], .prod m => joinBases m
    | _, y => joinBasesAll y) (x.size + 4) x

end Expr

end Reckoner
