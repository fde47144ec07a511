-- Squares of waves: the squares of sine and cosine add up to one, and so do those of tangent
-- and secant with a sign.
import Reckoner.Algebra.Wave.Pair

namespace Reckoner

namespace Expr

/-! ## One square by another -/

/-- A small power of the function `f` by the square of the function `g`, where `square` says
how the squares depend on each other. Odd powers keep one factor. -/
def squareStep (f g : Fn) (square : Expr → Expr) (x : Expr) : Expr :=
  match x with
  | .pow (.app h a) e =>
    if h != f then x
    else
      let other := square (power (apply g a) (.ofNat 2))
      match e with
      | .num (.exact q) =>
        if q = 2 then other
        else if q = 3 then times (apply f a) other
        else if q = 4 then power other (.ofNat 2)
        else x
      | .num (.approx b _) =>
        if b.toRat = 2 then other else if b.toRat = 4 then power other (.ofNat 2) else x
      | _ => x
  | x => x

def oneMinus (x : Expr) : Expr := sub .one x

def onePlus (x : Expr) : Expr := plus .one x

/-- Even powers of sines by cosines. -/
def sineSquares (x : Expr) : Expr := x.mapUp (squareStep .sin .cos oneMinus)

/-- Even powers of cosines by sines. -/
def cosineSquares (x : Expr) : Expr := x.mapUp (squareStep .cos .sin oneMinus)

/-- Even powers of tangents and cotangents by secants and cosecants. -/
def tangentSquares (x : Expr) : Expr :=
  x.mapUp fun y =>
    let below := fun (z : Expr) => sub z .one
    match y with
    | .pow (.app .tan _) _ => squareStep .tan .sec below y
    | .pow (.app .cot _) _ => squareStep .cot .csc below y
    | y => y

/-- A negative power of the function `f` by the square of `g`; an odd one keeps a factor below
the bar. -/
def inverseSquareStep (f g : Fn) (x : Expr) : Expr :=
  match x with
  | .pow (.app h a) e =>
    if h != f then x
    else
      let even := fun (x : Expr) =>
        let turned := inverse x
        let other := squareStep f g onePlus turned
        if other = turned then x else other
      match e.int? with
      | some n =>
        if n % 2 = 0 then even x
        else
          let next := power (.app h a) (.ofInt (n + 1))
          div (match next with
            | .pow _ _ => even next
            | next => next) (.app h a)
      | none => even x
  | x => x

/-- Negative even powers of sines by cotangents. -/
def inverseSineSquares (x : Expr) : Expr := x.mapUp (inverseSquareStep .sin .cot)

/-- Negative even powers of cosines by tangents. -/
def inverseCosineSquares (x : Expr) : Expr :=
  x.mapUp fun y => match y with
    | .pow (.app .cos _) e =>
      match e.int? with
      | some n => if n % 2 = 0 then inverseSquareStep .cos .tan y else y
      | none => inverseSquareStep .cos .tan y
    | y => y

/-! ## Conjugate sums -/

/-- A sum of one and a wave as a factor of a product: `scale * (wave + sign)` to a power. -/
structure Conjugate where
  scale : Expr
  exponent : Expr
  wave : Expr
  sign : Int
  /-- The sum itself. -/
  base : Expr

/-- A sum of two terms as `scale * (wave + sign)`. -/
def conjugateOf? (x : Expr) : Option (Expr × Expr × Int) :=
  match x with
  | .sum [a, b] =>
    if a = .one || a = .negOne then
      let unit : Int := if a = .one then 1 else -1
      match b with
      | .prod (.num n :: _) =>
        if n.isNegative then some (.negOne, neg b, -unit) else some (.one, b, unit)
      | b => some (.one, b, unit)
    else
      let (shared, p, q) := PowerMap.apart (.ofExpr a) (.ofExpr b)
      let (p, q, m, n) : PowerMap × PowerMap × Int × Int :=
        if p.isNegated then (p.dropSign, q, -1, 1)
        else if q.isNegated then (p, q.dropSign, 1, -1)
        else (p, q, 1, 1)
      let (p, q) := (p.toExpr, q.toExpr)
      let (p, q, m, n) := if p = .one then (q, p, n, m) else (p, q, m, n)
      let (shared, n) := if m = -1 then (neg shared, -n) else (shared, n)
      if q = .one then some (shared, p, n) else none
  | _ => none

/-- A factor as a conjugate, or as it stays in the product. -/
def Conjugate.ofFactor (x : Expr) : Conjugate ⊕ Expr :=
  let (b, e) := match x with
    | .pow _ _ => x.baseExp neg
    | x => (x, .one)
  if x.isPow && !(e.isInteger || b.isPositive) then .inr x
  else
    match conjugateOf? b with
    | some (scale, wave, sign) =>
      if wave.isSinusoid then .inl ⟨scale, e, wave, sign, b⟩ else .inr (power b e)
    | none => .inr (if e = .one then b else power b e)

namespace Conjugate

def weight (c : Conjugate) : Nat :=
  c.scale.weight + c.exponent.weight + c.wave.weight + c.base.weight

/-- What conjugates are ordered by when they have one size. -/
def keys (c : Conjugate) : List SortKey :=
  [c.scale, c.exponent, c.wave, .ofInt c.sign, c.base].map Builder.full.sortKey

/-- The conjugates from the smallest to the largest. -/
def bySize (l : List Conjugate) : List Conjugate :=
  let keyed := l.map fun c => (c, c.weight, c.keys)
  (sortBy (fun a b => a.2.1 < b.2.1 ||
    (a.2.1 == b.2.1 && SortKey.cmpList a.2.2 b.2.2 != .gt)) keyed).map Prod.fst

/-- The product of two sums that differ in the sign, by the square of the other wave. -/
def square (a b : Conjugate) (e : Expr) : Expr :=
  match a.wave with
  | .app f x =>
    power (mul [.negOne, a.scale, b.scale, power (apply f.complement x) (.ofNat 2)]) e
  | _ => .one

/-- The factors that the conjugates leave, those that meet their partner joined. -/
def join : Nat → List Conjugate → List Expr
  | 0, _ => []
  | _, [] => []
  | fuel + 1, a :: rest =>
    let alone := power a.base a.exponent :: join fuel rest
    match rest with
    | b :: more =>
      if a.wave = b.wave && a.sign != b.sign then
        match a.exponent.rat?, b.exponent.rat? with
        | some m, some n =>
          let take := min m n
          let left :=
            if n ≠ take then { b with exponent := .ofRat (n - take) } :: more
            else if m ≠ take then { a with exponent := .ofRat (m - take) } :: more
            else more
          square a b (.ofRat take) :: join fuel left
        | _, _ =>
          if a.exponent = b.exponent then square a b a.exponent :: join fuel more else alone
      else alone
    | [] => alone

end Conjugate

/-- A product with positive powers, its conjugates joined. -/
def joinConjugatesOf (x : Expr) : Expr :=
  match x with
  | .prod l =>
    let parts := l.map Conjugate.ofFactor
    let other := parts.filterMap fun p => match p with
      | .inr y => some y
      | .inl _ => none
    let found := parts.filterMap fun p => match p with
      | .inl c => some c
      | .inr _ => none
    if found.isEmpty then x
    else mul (other ++ Conjugate.join (2 * found.length) (Conjugate.bySize found))
  | x => x

/-- Products of sums that differ in a sign by squares: `(cos x - 1) * (cos x + 1)` is the
negative of a squared sine. -/
def joinConjugates (x : Expr) : Expr :=
  x.mapUp fun y =>
    if !y.isProd then y
    else
      let (n, d) := y.numerDenom
      if d = .one then joinConjugatesOf y
      else
        let n' := n.mapUp joinConjugatesOf
        let d' := d.mapUp joinConjugatesOf
        if n' = n && d' = d then y else div n' d'

end Expr

end Reckoner
