-- Numerators and denominators, and the rational content of sums and products.
import Reckoner.Algebra.Normal

namespace Reckoner

open scoped CoreArithmetic

namespace Expr

/-! ## Content -/

/-- The greatest common divisor of whole numbers. -/
def gcdList (l : List Int) : Nat := l.foldl (fun g n => Nat.gcd g n.natAbs) 0

/-- The least common multiple of natural numbers. -/
def lcmList (l : List Nat) : Nat := l.foldl Nat.lcm 1

/-- The rational number that divides the coefficients of all terms, and the sum of the terms
without it. -/
def primitiveSum (l : List Expr) : Rat × Expr :=
  let parts := l.map fun x => match x.coeffMul with
    | (.exact q, m) => (q, m)
    | _ => ((1 : Rat), x)
  let g := gcdList (parts.map fun (q, _) => q.num)
  let d := lcmList (parts.map fun (q, _) => q.den)
  if g = 1 && d = 1 then (1, .sum l)
  else
    let terms := parts.map fun (q, m) =>
      Expr.keepCoeff (.exact (q.num / g * (d / q.den : Nat) : Int)) m
    let sorted : List Expr := match (terms : List Expr) with
      | .num n :: rest => .num n :: sortParts rest
      | terms => sortParts terms
    (mkRat g d, rawSum sorted)

/-- The rational content of a sum; any other expression has the content one. -/
def primitive (x : Expr) : Rat × Expr :=
  match x with
  | .sum l => primitiveSum l
  | x => (1, x)

/-- The product of a number and an expression. A fraction before a sum goes into it if a
term of the sum then has a whole coefficient. -/
def keepCoeffInside (c : Number) (x : Expr) : Expr :=
  match c, x with
  | .exact q, .sum l =>
    if q.den ≠ 1 then
      let parts := l.map fun t => let (k, m) := t.coeffMul; (c.mul k, m)
      if parts.any fun (k, _) => k.isInteger then
        rawSum (parts.map fun (k, m) =>
          if k = .exact 1 then m
          else if m = .one then .num k
          else
            match m with
            | .prod fs => .prod (.num k :: fs)
            | m => .prod [.num k, m])
      else Expr.keepCoeff c x
    else Expr.keepCoeff c x
  | _, _ => Expr.keepCoeff c x

/-- The product of a number and an expression, where -1 stays before a sum. -/
def keepSign (c : Number) (x : Expr) : Expr :=
  match x with
  | .sum _ => if c = .exact (-1) then .prod [.negOne, x] else Expr.keepCoeff c x
  | x => Expr.keepCoeff c x

/-- The roots of whole numbers in a term: for each degree the product of what stands under the
roots. -/
def radicalsOf (x : Expr) : List (Nat × Nat) :=
  x.factors.foldl (fun acc f =>
    match f with
    | .pow b (.num (.exact e)) =>
      match b.int? with
      | some n => addEntry (· * ·) e.den (n.natAbs ^ e.num.natAbs) acc
      | none => acc
    | _ => acc) []

/-- A sum with the roots that all its terms share before it. -/
def shareRadicals (l : List Expr) : Expr :=
  let radicals := l.map radicalsOf
  let degrees := match radicals with
    | first :: rest => (first.map Prod.fst).filter fun q => rest.all fun r => r.any fun (k, _) => k == q
    | [] => []
  let shared := degrees.filterMap fun q =>
    let g := radicals.foldl (fun g r => Nat.gcd g ((lookupEntry q r).getD 0)) 0
    if g = 1 then none else some (power (.ofNat g) (.ofRat (mkRat 1 q)))
  if shared.isEmpty then .sum l
  else
    let shared := mul shared
    times shared (add (l.map fun t => div t shared))

/-- The positive rational content of an expression and the rest of it. `clear` brings the
content of a sum before it even if it is a fraction; `radical` brings common roots before it. -/
def contentPrimitiveAux (clear radical : Bool) : Nat → Expr → Rat × Expr
  | 0, x => (1, x)
  | fuel + 1, x =>
    let part := contentPrimitiveAux clear radical fuel
    match x with
    | .num (.exact q) =>
      if q = 0 then (1, x) else if q < 0 then (-q, .negOne) else (q, .one)
    | .sum l =>
      let (c, p) := primitive (add (l.map fun t => let (c, p) := part t; Expr.keepCoeff (.exact c) p))
      let roots := fun (p : Expr) => match p with
        | .sum m => if radical then shareRadicals m else p
        | p => p
      match p with
      | .sum m =>
        if !clear && c.den ≠ 1 then
          let d : Number := .exact (mkRat 1 c.den)
          let divided := m.map fun t => let (k, r) := t.coeffMul; (k.mul d, r)
          if divided.any fun (k, _) => k.isInteger then
            (c.num, roots (Expr.mul [.num d, p]))
          else (c, roots p)
        else (c, roots p)
      | p => (c, p)
    | .prod l =>
      let parts := l.map part
      let c := parts.foldl (fun acc (c, _) => acc * c) (1 : Rat)
      (c, mul ((parts.map Prod.snd).filter (· != .one)))
    | .pow _ _ =>
      let (b, e) := x.baseExp Expr.neg
      let (cb, pb) := part b
      let b := Expr.keepCoeff (.exact cb) pb
      let (ce, pe) := part e
      match b.rat? with
      | some q =>
        let (h, t) := pe.coeffAdd
        match h with
        | .exact h =>
          if q = 0 then (1, power b (Expr.keepCoeff (.exact ce) pe))
          else
            let whole := ce * h
            match (power b (.ofRat whole)).rat? with
            | some c => (c, power b (Expr.keepCoeff (.exact ce) t))
            | none =>
              let i := whole.num / whole.den
              let r := whole.num % whole.den
              let c := ((power b (.ofInt i)).rat?).getD 1
              (c, power b (Expr.keepCoeff (.exact ce) (plus t (.ofRat (r / ce / whole.den)))))
        | _ => (1, power b (Expr.keepCoeff (.exact ce) pe))
      | none =>
        let e := Expr.keepCoeff (.exact ce) pe
        match b with
        | .prod _ =>
          if e.isRational then
            let (h, t) := part b
            let (c, m) := (power (.ofRat h) e).coeffMul
            match c with
            | .exact c =>
              let (m, me) := m.baseExp Expr.neg
              if m = .one || me = e then
                (c, power (match m with
                  | .num n => Expr.keepCoeff n t
                  | m => times m t) e)
              else (1, power b e)
            | _ => (1, power b e)
          else (1, power b e)
        | _ => (1, power b e)
    | x => (1, x)

/-- The rational content of an expression and the rest of it. -/
def contentPrimitive (clear radical : Bool) (x : Expr) : Rat × Expr :=
  contentPrimitiveAux clear radical (2 * x.size + 4) x

/-! ## Quotients -/

/-- The numerator and denominator that an expression has as a single quotient. -/
def numerDenomAux : Nat → Expr → Expr × Expr
  | 0, x => (x, .one)
  | fuel + 1, x =>
    let part := numerDenomAux fuel
    match x with
    | .num (.exact q) => (.ofInt q.num, .ofNat q.den)
    | .sum l =>
      let (content, p) := primitiveSum l
      match p with
      | .sum m =>
        let n0 : Number := .exact content.num
        let d0 : Number := .exact content.den
        let byDenom : List (Expr × List Expr) :=
          m.foldl (fun acc t => let (n, d) := part t; addEntry (· ++ ·) d [n] acc) []
        match byDenom with
        | [(d, ns)] => (add (ns.map (Expr.keepCoeff n0)), Expr.keepCoeff d0 d)
        | byDenom =>
          let joined := byDenom.map fun (d, ns) => (d, match ns with
            | [n] => n
            | ns => add ns)
          let numers := (List.range joined.length).map fun i =>
            mul (joined.zipIdx.map fun ((d, n), j) => if i = j then n else d)
          (Expr.keepCoeff n0 (add numers), Expr.keepCoeff d0 (mul (joined.map Prod.fst)))
      | p => let (n, d) := part p; (mul [.ofInt content.num, n], mul [.ofNat content.den, d])
    | .prod l =>
      let parts := l.map part
      (mul (parts.map Prod.fst), mul (parts.map Prod.snd))
    | .pow _ _ =>
      let (b, e) := x.baseExp Expr.neg
      let (n, d) := part b
      let negative := match e with
        | .prod _ =>
          e.isNegative || (!e.isPositive && Builder.full.prefersNegative e)
        | e => e.isNegative
      let whole := e.isInteger
      let (n, d) := if d.isReal? = some true || whole then (n, d) else (b, .one)
      let (n, d) :=
        if d.isNegative || d.isZero? = some true then (Expr.neg n, Expr.neg d)
        else if !d.isPositive && !whole then (b, .one)
        else (n, d)
      let (n, d, e) := if negative then (d, n, Expr.neg e) else (n, d, e)
      (power n e, power d e)
    | .app .exp a =>
      if a.isNegative then (.one, apply .exp (Expr.neg a))
      else if (Expr.neg a).isNegative then (x, .one)
      else if Builder.full.prefersNegative a then (.one, apply .exp (Expr.neg a))
      else (x, .one)
    | x => (x, .one)

/-- The numerator and denominator that an expression has as a single quotient. -/
def numerDenom (x : Expr) : Expr × Expr := numerDenomAux (2 * x.size + 4) x

/-- What a factor adds above and below the bar. -/
def fractionFactor (x : Expr) : List Expr × List Expr :=
  let power? := match x with
    | .pow _ _ | .app .exp _ => some (x.baseExp Expr.neg)
    | _ => none
  match power? with
  | some (b, e) =>
    if e.isNegative then if e = .negOne then ([], [b]) else ([], [power b (Expr.neg e)])
    else if e.isPositive then ([x], [])
    else if e.isProd then let (n, d) := x.numerDenom; (if n = .one then [] else [n], [d])
    else ([x], [])
  | none =>
    match x with
    | .num (.exact q) =>
      if q.den = 1 then ([x], [])
      else (if q.num = 1 then [] else [.ofInt q.num], [.ofNat q.den])
    | x => ([x], [])

/-- What stands above and below the bar of a product. -/
def fraction (x : Expr) : Expr × Expr :=
  let parts := x.factors.map fractionFactor
  (mul (parts.flatMap Prod.fst), mul (parts.flatMap Prod.snd))

end Expr

end Reckoner
