-- Signs: of a sum and its negative, the one that reads better stands in a product, and the
-- sign goes before the product.
import Reckoner.Algebra.Effort
import Reckoner.Algebra.Expand

namespace Reckoner

namespace Expr

/-! ## Replacing nodes -/

mutual
/-- Replaces nodes from the outside in. What is replaced is not entered, and what holds a
replaced part is built again. -/
def substitute (f : Expr → Option Expr) : Expr → Expr
  | .sum l =>
    match f (.sum l) with
    | some y => y
    | none => let m := substituteList f l; if m = l then .sum l else add m
  | .prod l =>
    match f (.prod l) with
    | some y => y
    | none => let m := substituteList f l; if m = l then .prod l else mul m
  | .pow b e =>
    match f (.pow b e) with
    | some y => y
    | none =>
      let c := substitute f b
      let g := substitute f e
      if c = b ∧ g = e then .pow b e else power c g
  | .app h a =>
    match f (.app h a) with
    | some y => y
    | none => let b := substitute f a; if b = a then .app h a else apply h b
  | .num n => (f (.num n)).getD (.num n)
  | .const c => (f (.const c)).getD (.const c)
  | .sym s => (f (.sym s)).getD (.sym s)
def substituteList (f : Expr → Option Expr) : List Expr → List Expr
  | [] => []
  | a :: r => substitute f a :: substituteList f r
end

/-- The sums in an expression, each once. -/
def sums (x : Expr) : List Expr := (x.postorder.filter isSum).eraseDups

/-! ## The better sign -/

def prefersNegative (x : Expr) : Bool := Builder.full.prefersNegative x

/-- Brings the sign of each sum that reads better negated before it. -/
def pullSigns (x : Expr) : Expr :=
  let turned := x.sums.filter fun a => a.prefersNegative && !(neg a).isProd
  let y := x.substitute fun a =>
    if turned.contains a then some (.prod [.negOne, neg a]) else none
  -- the sums that came back are marked with a one before the sign
  let left := y.sums
  y.substitute fun a =>
    if !left.contains a then none
    else if turned.contains a then some (.prod [.negOne, neg a])
    else if a.prefersNegative then some (.prod [.one, .negOne, neg a])
    else none

/-- Takes the marks away. -/
def dropMarks (x : Expr) : Expr :=
  x.substitute fun a =>
    match a with
    | .prod (m :: s :: rest) =>
      if m = .one ∧ s = .negOne then some (neg (rawProd rest)) else none
    | _ => none

/-- Products that change when they are negated twice take that form. -/
def settleProducts (x : Expr) : Expr :=
  x.mapUp fun y => if y.isProd then neg (neg y) else y

/-- The expression with its signs before its products. -/
def settleSignsAux : Nat → Expr → Expr
  | 0, x => x
  | fuel + 1, x =>
    let y := dropMarks (pullSigns (settleProducts x))
    match y with
    | .num _ | .const _ | .sym _ => y
    | .sum l => add (l.map (settleSignsAux fuel))
    | y => settleProducts y

/-- The expression with its signs before its products. -/
def settleSigns (x : Expr) : Expr := settleSignsAux (x.size + 4) x

end Expr

end Reckoner
