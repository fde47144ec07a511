-- How much there is to do in an expression: the number of its operations. Of several forms
-- of one value the one with the least effort reads best.
import Reckoner.Algebra.Fraction

namespace Reckoner

namespace Expr

/-! ## Counting operations -/

/-- Whether the leading number is negative. -/
def leadsNegative : Expr → Bool
  | .num n => n.isNegative
  | .prod (.num n :: _) => n.isNegative
  | _ => false

/-- A product without the minus sign at its front. -/
def withoutSign : Expr → Expr
  | .prod (.num n :: rest) =>
    if n = .exact (-1) then rawProd rest else Expr.neg (.prod (.num n :: rest))
  | x => Expr.neg x

/-- The number of operations: a sign, a bar, a sum or product of two, a power and a
function each count once. -/
def effortAux : Nat → Expr → Nat
  | 0, _ => 0
  | fuel + 1, x =>
    let count := effortAux fuel
    let countAll := fun (l : List Expr) => (l.map count).foldl (· + ·) 0
    match x with
    | .num (.exact q) => (if q < 0 then 1 else 0) + (if q.den ≠ 1 then 1 else 0)
    | .num _ | .sym _ => 0
    | .const c => if c = .e then 1 else 0
    | .sum l =>
      let negatives := l.countP leadsNegative
      (l.length - 1) + (if negatives = l.length then 1 else 0) +
        countAll (l.map fun t => if t.leadsNegative then Expr.neg t else t)
    | .prod l =>
      let sign := if x.leadsNegative then 1 else 0
      let y := if x.leadsNegative then x.withoutSign else .prod l
      let (n, d) := y.fraction
      sign +
        match n.int? with
        | some k => 1 + (if k < 0 then 1 else 0) + count d
        | none =>
          if d = .one then
            match y with
            | .prod m => (m.length - 1) + countAll m
            | y => count y
          else 1 + (if d.isInteger then 0 else count d) + count n
    | .pow b e => if e = .negOne then 1 + count b else 1 + count b + count e
    | .app _ a => 1 + count a

/-- The number of operations of an expression. -/
def effort (x : Expr) : Nat := effortAux (2 * x.size + 4) x

/-- The first of the expressions with the least effort. -/
def easiest (first : Expr) (others : List Expr) : Expr :=
  (others.foldl (fun (best : Expr × Nat) y =>
    let n := y.effort
    if n < best.2 then (y, n) else best) (first, first.effort)).1

/-! ## Size -/

mutual
/-- Twice the number of nodes, where a measured number counts as half a node. -/
def weight : Expr → Nat
  | .num (.approx _ _) => 1
  | .num _ | .const _ | .sym _ => 2
  | .sum l | .prod l => 2 + weightOfList l
  | .pow a b => 2 + weight a + weight b
  | .app _ a => 2 + weight a
def weightOfList : List Expr → Nat
  | [] => 0
  | a :: r => weight a + weightOfList r
end

/-- The expressions from the smallest to the largest; those of one size are in the order of
reading. -/
def bySize (l : List Expr) : List Expr :=
  let keyed := l.map fun x => (x, x.weight, Builder.full.sortKey x)
  (sortBy (fun a b => a.2.1 < b.2.1 || (a.2.1 == b.2.1 && !SortKey.lt b.2.2 a.2.2)) keyed).map
    Prod.fst

end Expr

end Reckoner
