-- Joining the powers of one base: in a product each base comes to stand once, and a root of a
-- product takes up the factors that match it.
import Reckoner.Algebra.Rational

namespace Reckoner

namespace Expr

/-! ## How often one number divides another -/

/-- How often `b` divides `n`. -/
def multiplicityNat (b n : Nat) : Nat := count (n.log2 + 1) n
where
  count : Nat → Nat → Nat
    | 0, _ => 0
    | fuel + 1, n => if b ≤ 1 || n = 0 || n % b ≠ 0 then 0 else count fuel (n / b) + 1

/-- How often the positive rational number `b` divides `c`; below zero if it divides the
reciprocal. -/
def multiplicity (b c : Rat) : Int :=
  let times := fun (m n : Nat) => (multiplicityNat m n : Int)
  let (p, q) := (b.num.natAbs, b.den)
  let (m, n) := (c.num.natAbs, c.den)
  if q = 1 then times p m - times p n
  else if p = 1 then times q n
  else min (times p m) (times q n) - min (times q m) (times p n)

/-! ## Powers of one base -/

/-- A power of a whole number that is a power itself, as a power of the smaller number. -/
def denestPower (x : Expr) : Expr :=
  match x with
  | .pow b e =>
    match b.int? with
    | some n =>
      let (m, k) := powerParts n.natAbs
      if 0 < n && k ≠ 1 then power (.ofNat m) (times e (.ofNat k)) else x
    | none => x
  | x => x

/-- The base and the exponent of a factor. A power as a base stays one. -/
def basePart (deep : Bool) (part : Expr → Expr) (x : Expr) : Expr × Expr :=
  let (b, e) := x.denestPower.baseExp neg
  let (b, e) := if deep then (part b, part e) else (b, e)
  match b with
  | .pow _ _ | .app .exp _ => (power b e, .one)
  | b => (b, e)

/-- The bases with their exponents from the smallest to the largest. -/
def exponentsBySize (l : List (Expr × List Expr)) : List (Expr × List Expr) :=
  let keyed := l.map fun (b, es) => ((b, es), b.weight + (es.map weight).foldl (· + ·) 0,
    Builder.full.sortKey b, es.map Builder.full.sortKey)
  (sortBy (fun x y =>
    let (_, m, p, ps) := x
    let (_, n, q, qs) := y
    ((compare m n).then ((SortKey.cmp p q).then
      ((compare ps.length qs.length).then (SortKey.cmpList ps qs)))) != .gt) keyed).map Prod.fst

/-- Takes factors of the rational coefficient into the powers of numbers whose exponents are not
all numbers. -/
def absorbCoefficient (coeff : Rat) (l : List (Expr × List Expr)) : Rat × List (Expr × List Expr) :=
  (exponentsBySize l).foldl (fun (coeff, l) (b, es) =>
    match b.rat? with
    | some q =>
      if !es.all isNum && coeff ≠ 1 && q ≠ 0 && q ≠ 1 && q ≠ -1 then
        let m := multiplicity q.abs coeff.abs
        if m = 0 then (coeff, l)
        else
          (if m < 0 then coeff * q ^ m.natAbs else coeff / q ^ m.natAbs,
            addEntry (· ++ ·) b [.ofInt m] l)
      else (coeff, l)
    | none => (coeff, l)) (coeff, l)

/-- Joins a positive base with its reciprocal. -/
def joinInverses (l : List (Expr × Expr)) : List (Expr × Expr) :=
  (l.foldl (fun ((l, skip) : List (Expr × Expr) × List Expr) (b, e) =>
    if skip.contains b || !b.isPositive then (l, skip)
    else
      let turned := inverse b
      match lookupEntry turned l with
      | none => (l, skip)
      | some f =>
        if turned = b then (l, skip)
        else if b.numerDenom.1 = .one then
          (addEntry (fun x y => sub x y) turned e (l.filter fun (x, _) => x != b), skip)
        else
          (addEntry (fun x y => sub x y) b f (l.filter fun (x, _) => x != turned),
            turned :: skip)) (l, [])).1

/-- Joins a symbol or sum with its negative. -/
def joinNegatives (l : List (Expr × Expr)) : List (Expr × Expr) :=
  l.foldl (fun acc (b, e) =>
    let turned := neg b
    let fits := match b with
      | .sym _ | .sum _ => true
      | _ => false
    match lookupEntry b acc, lookupEntry turned acc with
    | some _, some f =>
      if !fits || !(e.isInteger || b.isPositive || b.isNegative) then acc
      else if e.isInteger || b.isNegative then
        addEntry plus .negOne e (addEntry plus turned e (acc.filter fun (x, _) => x != b))
      else addEntry plus .negOne f (addEntry plus b f (acc.filter fun (x, _) => x != turned))
    | _, _ => acc) l

/-! ## Roots of products -/

/-- A base under a root: what stands there and the degree of the root. -/
abbrev Radicand := Expr × Nat

/-- A power as a whole number of roots. -/
def radicandOf (b e : Expr) : Radicand × Int :=
  match e with
  | .num (.exact q) => ((b, q.den), q.num)
  | e =>
    let (c, m) := e.coeffMulRational
    if c ≠ 1 then ((power b m, c.den), c.num) else ((power b e, 1), 1)

/-- A factor as a whole number of roots. -/
def radicandOfFactor (x : Expr) : Radicand × Int :=
  let (b, e) := x.baseExp neg
  radicandOf b e

/-- The number of roots of each radicand, and the roots of products that are still to be
treated. -/
structure Roots where
  counts : List (Radicand × Int)
  queue : List Radicand

/-- Settles the count of a radicand: a whole number of its roots is taken as a power. -/
def Roots.settle (r : Roots) (b : Radicand) : Roots :=
  let count := (lookupEntry b r.counts).getD 0
  let whole := Int.fdiv count b.2
  if Int.fmod count b.2 ≠ 0 then r
  else
    let r := { r with counts := r.counts.filter fun (k, _) => k != b }
    if whole = 0 then r
    else
      (power b.1 (.ofInt whole)).factors.foldl (fun r m =>
        let (k, n) := radicandOfFactor m
        { counts := addEntry (· + ·) k n r.counts
          queue := if k.2 ≠ 1 then r.queue ++ [k] else r.queue }) r

/-- How often the factors of `b` can be taken out of the roots at hand, with their counts. -/
def Roots.available? (r : Roots) (b : Expr) : Option (Int × List (Radicand × Int)) :=
  let parts := b.factors.map radicandOfFactor
  let rates := parts.map fun (k, n) =>
    match lookupEntry k r.counts with
    | some c => if c < n then none else some (Int.fdiv c n)
    | none => none
  match rates with
  | some first :: rest =>
    let rest := rest.map fun x => match x with
      | some rate => if rate < 1 then none else some rate
      | none => none
    if rest.any Option.isNone || rates.any Option.isNone then none
    else some ((rest.filterMap id).foldl min first, parts)
  | _ => none

/-- Takes the factors of a root of a product out of the other roots as often as they are
there. `size` is the power of the product that is looked for. -/
def Roots.extract (base : Radicand) : Nat → Bool → Nat → Expr → Roots → Roots
  | 0, _, _, _, r => r
  | fuel + 1, last, size, b, r =>
    let r := match r.available? b with
      | none => r
      | some (rate, parts) =>
        let r := parts.foldl (fun (r : Roots) (k, n) =>
          ({ r with counts := addEntry (· + ·) k (-(rate * n)) r.counts }).settle k) r
        { r with counts := addEntry (· + ·) base (rate * size * base.2) r.counts }
    let degree := fun (x : Expr) => (radicandOfFactor x).1.2
    if last || r.counts.length = 1 || r.counts.all (fun (k, _) => k.2 = 1) then r
    else
      let common := (b.factors.map degree).foldl Nat.lcm 1
      if common = 1 then r
      else
        let next := power b (.ofNat common)
        extract base fuel (next.factors.all fun x => degree x = 1) (common * size) next r

/-- The powers that the queue of roots leaves. -/
def Roots.finish : Nat → Roots → List (Expr × Expr) → List (Expr × Expr)
  | 0, r, done => done ++ rest r
  | fuel + 1, r, done =>
    match r.queue with
    | [] => done ++ rest r
    | base :: queue =>
      let r := { r with queue := queue }
      if (lookupEntry base r.counts).isNone then finish fuel r done
      else
        let r := r.extract base 20 false 1 base.1
        let count := (lookupEntry base r.counts).getD 0
        finish fuel { r with counts := r.counts.filter fun (k, _) => k != base }
          (done ++ [(base.1, .ofRat (mkRat count base.2))])
where
  /-- The powers of the radicands that are not in the queue. -/
  rest (r : Roots) : List (Expr × Expr) :=
    r.counts.map fun ((b, q), n) =>
      let (c, e) := b.baseExp neg
      let nested := (b.isPow || c = .const .e) && q ≠ 1 && !e.isRational
      (if nested then power c (div e (.ofNat q)) else power b (.ofRat (mkRat 1 q)), .ofInt n)

/-- The powers with the roots of products joined with other factors. -/
def joinRadicals (l : List (Expr × Expr)) : List (Expr × Expr) :=
  let parts := l.map fun (b, e) => radicandOf b e
  let counts := parts.foldl (fun acc (k, n) => addEntry (· + ·) k n acc) []
  let products := (parts.map Prod.fst).filter fun k => k.2 ≠ 1 && k.1.isProd
  let keyed := products.map fun k => (k, k.1.effort, Builder.full.sortKey k.1)
  let queue := (sortBy (fun a b => a.2.1 > b.2.1 ||
    (a.2.1 == b.2.1 && !SortKey.lt b.2.2 a.2.2)) keyed).map Prod.fst
  Roots.finish (4 * l.length + 20) ⟨counts, queue⟩ []

/-! ## Products -/

/-- The product of factors with the powers of one base joined. -/
def joinExponents (deep : Bool) (part : Expr → Expr) (factors : List Expr) : Expr :=
  let coeff := (factors.filterMap rat?).foldl (· * ·) (1 : Rat)
  let powers := (factors.filter fun f => !f.isRational).foldl (fun acc f =>
    let (b, e) := basePart deep part f
    addEntry (· ++ ·) b [e] acc) []
  let (coeff, powers) := absorbCoefficient coeff powers
  let powers := powers.map fun (b, es) => (b, add es)
  let powers := if coeff = 1 then powers else addEntry plus (.ofRat coeff) .one powers
  let powers := (joinNegatives (joinInverses powers)).filter fun (_, e) => e != .zero
  mul ((joinRadicals powers).map fun (b, e) => power b e)

/-- The expression with the powers of one base joined in all its parts. -/
def joinExponentsAllAux : Nat → Expr → Expr
  | 0, x => x
  | fuel + 1, x =>
    let part := joinExponentsAllAux fuel
    let y := match x with
      | .num _ | .const _ | .sym _ => x
      | .sum l => add (l.map part)
      | .prod l => mul (l.map part)
      | .pow b e => power (part b) (part e)
      | .app f a => apply f (part a)
    match y with
    | .prod m => joinExponents true part m
    | .pow _ _ => joinExponents false part [y]
    | y => y

/-- The expression with the powers of one base joined in all its parts. -/
def joinExponentsAll (x : Expr) : Expr := joinExponentsAllAux (x.size + 4) x

end Expr

end Reckoner
