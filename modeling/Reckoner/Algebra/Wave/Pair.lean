-- Pairs of terms: what two terms share, and the sums of two waves that are one wave of a sum
-- of angles.
import Reckoner.Algebra.Wave.Basic

namespace Reckoner

/-! ## Terms as powers -/

/-- A term as bases with exponents. The sign of its number is a power of -1, and the
denominator has a negative exponent. -/
abbrev PowerMap := List (Expr × Expr)

namespace PowerMap

/-- A rational number as powers of whole numbers. -/
def ofRat (q : Rat) : PowerMap :=
  let sign := if q < 0 then [(Expr.negOne, Expr.one)] else []
  let above := if q.num.natAbs = 1 then [] else [(Expr.ofNat q.num.natAbs, Expr.one)]
  let below := if q.den = 1 then [] else [(Expr.ofNat q.den, Expr.negOne)]
  sign ++ above ++ below

/-- A term as bases with exponents. -/
def ofExpr (x : Expr) : PowerMap :=
  let put := fun (acc : PowerMap) (p : PowerMap) =>
    p.foldl (fun acc (b, e) => addEntry Expr.plus b e acc) acc
  x.factors.foldl (fun acc f =>
    match f with
    | .num (.exact q) => put acc (ofRat q)
    | .num n =>
      if n.isNegative then put acc [(.negOne, .one), (.num n.neg, .one)] else put acc [(f, .one)]
    | .const _ => put acc [(f, .one)]
    | f => put acc [f.baseExp Expr.neg]) []

/-- Whether -1 is one of the bases. -/
def isNegated (p : PowerMap) : Bool := p.any fun (b, _) => b == .negOne

def dropSign (p : PowerMap) : PowerMap := p.filter fun (b, _) => b != .negOne

def toExpr (p : PowerMap) : Expr :=
  Expr.mul (p.map fun (b, e) =>
    if e.isInteger then
      let (c, f) := b.baseExp Expr.neg
      match e with
      | .num n => Expr.power c (Expr.keepCoeff n f)
      | e => Expr.power b e
    else Expr.power b e)

/-- The powers that two terms share, and what is left of each. -/
def apart (p q : PowerMap) : Expr × PowerMap × PowerMap :=
  let shared := p.filterMap fun (b, e) =>
    (lookupEntry b q).bind fun f =>
      let d := Expr.sub e f
      if d.isNegative then some (b, e)
      else if d.isClosed && d.isReal? = some true then some (b, f)
      else none
  let left := fun (p q : PowerMap) => p.filterMap fun (b, e) =>
    match lookupEntry b q with
    | none => some (b, e)
    | some f =>
      match Expr.sub e f with
      | .num n => if n.isPositive then some (b, .num n) else none
      | _ => some (b, e)
  (toExpr shared, left p q, left q p)

end PowerMap

namespace Expr

/-! ## Two waves -/

/-- A term as a number or root, and a cosine and a sine. When both waves are of one kind the
second takes the place of the missing kind. -/
structure WaveTerm where
  coeff : Option Expr
  first : Option (Fn × Expr)
  second : Option (Fn × Expr)

/-- The sine or cosine that an expression is. -/
def sinusoid? : Expr → Option (Fn × Expr)
  | .app f a => if f.isSinusoid then some (f, a) else none
  | _ => none

/-- Whether the expression is a square root. -/
def isSquareRoot : Expr → Bool
  | .pow _ e => e = .half
  | _ => false

/-- A term with at most two factors beside its number, each a wave or a square root. -/
def waveTerm? (x : Expr) : Option WaveTerm :=
  let place := fun (w : Fn × Expr) (t : WaveTerm) =>
    match w.1, t.first, t.second with
    | .cos, none, _ => { t with first := some w }
    | .cos, some _, _ => { t with second := some w }
    | _, _, none => { t with second := some w }
    | _, _, some _ => { t with first := some w }
  let step := fun (t : Option WaveTerm) (f : Expr) =>
    t.bind fun t =>
      match f.sinusoid? with
      | some w => some (place w t)
      | none => if f.isSquareRoot then some { t with coeff := some (times (t.coeff.getD .one) f) } else none
  match x with
  | .prod _ =>
    let (c, rest) := x.coeffMul
    let start : WaveTerm := ⟨if c = .exact 1 then none else some (.num c), none, none⟩
    -- a single factor left has the parts of its own counted
    if 2 < rest.args.length then none
    else (if rest.isProd then rest.factors else [rest]).foldl step (some start)
  | x => x.sinusoid?.map fun w => place w ⟨none, none, none⟩

/-- Two terms as one wave: what they share, their signs, two angles, and whether the waves of
each term are of one kind. -/
structure WavePair where
  shared : Expr
  sign₁ : Int
  sign₂ : Int
  angle₁ : Expr
  angle₂ : Expr
  same : Bool

/-- Finds the form `shared * (± f a * g b ± g a * f b)` of two terms. A wave of one angle beside
another with the ratio one, the root of three or its reciprocal has a second angle too. -/
def wavePair? (x y : Expr) : Option WavePair := do
  let (shared, p, q) := PowerMap.apart (.ofExpr x) (.ofExpr y)
  let (p, q, m, n) : PowerMap × PowerMap × Int × Int :=
    if p.isNegated then (p.dropSign, q, -1, 1)
    else if q.isNegated then (p, q.dropSign, 1, -1)
    else (p, q, 1, 1)
  let s ← waveTerm? p.toExpr
  let t ← waveTerm? q.toExpr
  let firstIsSine := match s.first with
    | some (f, _) => f == .sin
    | none => false
  let turned := (s.first.isNone && t.first.isSome) || firstIsSine
  let (s, t, m, n) := if turned then (t, s, n, m) else (s, t, m, n)
  let bare := s.coeff.isNone && t.coeff.isNone
  match s.first, s.second, t.first, t.second with
  | some (f, a), some (g, b), some (h, c), some (k, d) =>
    if !bare then none
    else if (f == g) != (h == k) then none
    else if !([a, b].contains c && [a, b].contains d) then none
    else some ⟨shared, m, n, a, b, f == g⟩
  | _, _, _, _ =>
    let one := fun (t : WaveTerm) => match t.first, t.second with
      | some w, none => some w
      | none, some w => some w
      | _, _ => none
    let (_, a) ← one s
    let (_, b) ← one t
    if a != b then none
    else
      let c := s.coeff.getD .one
      let d := t.coeff.getD .one
      let root3 := sqrt (.ofNat 3)
      let wave := fun (scale : Expr) (part : Nat) =>
        some (⟨times shared scale, m, n, a, times (.ofRat (mkRat 1 part)) .pi, false⟩ : WavePair)
      if c = d then wave (sqrt (.ofNat 2)) 4
      else if div c d = root3 then wave (times (.ofNat 2) d) 3
      else if div c d = inverse root3 then wave (times (.ofNat 2) c) 6
      else none

/-- The wave that two terms make. -/
def WavePair.wave (w : WavePair) : Expr :=
  let shared := times (.ofInt w.sign₁) w.shared
  let (f, angle) : Fn × Expr :=
    match w.same, decide (w.sign₁ = w.sign₂) with
    | true, true => (.cos, sub w.angle₁ w.angle₂)
    | true, false => (.cos, plus w.angle₁ w.angle₂)
    | false, true => (.sin, plus w.angle₁ w.angle₂)
    | false, false => (.sin, sub w.angle₂ w.angle₁)
  times shared (apply f angle)

/-! ## All pairs of a sum -/

/-- The sum with the pairs of its terms joined that make one wave, as often as there are
some. -/
def joinPairs : Nat → Expr → Expr
  | 0, x => x
  | fuel + 1, x =>
    match x with
    | .sum l =>
      match bySize l with
      | [a, b] =>
        match wavePair? a b with
        | some w => w.wave
        | none => x
      | ordered =>
        let rec first (a : Expr) (before : List Expr) : List Expr → Option (Expr × List Expr)
          | [] => none
          | b :: rest =>
            let was := plus a b
            let joined := joinPairs fuel was
            if joined != was then some (joined, before ++ rest)
            else first a (before ++ [b]) rest
        let rec pass : Nat → List Expr → List Expr × Bool
          | 0, l => (l, false)
          | _, [] => ([], false)
          | n + 1, a :: rest =>
            match first a [] rest with
            | some (joined, rest) => let (l, _) := pass n rest; (joined :: l, true)
            | none => let (l, hit) := pass n rest; (a :: l, hit)
        let (terms, hit) := pass ordered.length ordered
        if hit then
          let y := add terms
          if y.isSum then joinPairs fuel y else y
        else x
    | x => x

/-- Joins the terms that share the size of their number and their symbols. -/
def joinAlike (l : List Expr) : Expr :=
  let groups : List ((Number × List String) × List Expr) := l.foldl (fun acc t =>
    let (c, m) := t.coeffMul
    let (c, m) := if c.isNegative then (c.neg, neg m) else (c, m)
    addEntry (· ++ ·) (c, m.symbols) [m] acc) []
  let parts := groups.map fun ((c, _), ms) =>
    match ms with
    | [m] => (times (.num c) m, false)
    | ms =>
      let e := Expr.sum ms
      let joined := joinPairs (ms.length + 2) e
      (times (.num c) joined, joined != e)
  if parts.any Prod.snd then add (parts.map Prod.fst) else .sum l

/-- The square root of a whole number among the factors. -/
def rootOfWhole (x : Expr) : Expr :=
  match x with
  | .prod l => (l.find? fun f => match f with
    | .pow b e => e = .half && b.isInteger
    | _ => false).getD .one
  | _ => .one

/-- The first pairs of terms from two lists that make one wave, and the terms left of each. -/
def joinAcross : List Expr → List Expr → List Expr × List Expr × List Expr
  | [], r => ([], [], r)
  | a :: l, r =>
    let found := r.findSome? fun b =>
      let was := plus a b
      let joined := joinPairs 4 was
      if joined != was then some (b, joined) else none
    match found with
    | some (b, joined) =>
      let (done, left, right) := joinAcross l (r.erase b)
      (joined :: done, left, right)
    | none =>
      let (done, left, right) := joinAcross l r
      (done, a :: left, right)

/-- Joins the terms whose numbers are in the ratio of one to the root of three. -/
def joinByRoots : Nat → Expr → Expr
  | 0, x => x
  | fuel + 1, x =>
    match x with
    | .sum l =>
      let groups : List (Expr × List Expr) :=
        l.foldl (fun acc t => addEntry (· ++ ·) t.rootOfWhole [t] acc) []
      let (done, groups) := groups.foldl (fun (acc : List Expr × List (Expr × List Expr)) (r, _) =>
        let partner := times (sqrt (.ofNat 3)) r
        match lookupEntry r acc.2, lookupEntry partner acc.2 with
        | some ts, some us =>
          let (joined, ts, us) := joinAcross ts us
          (acc.1 ++ joined, acc.2.map fun (k, l) =>
            if k = r then (k, ts) else if k = partner then (k, us) else (k, l))
        | _, _ => acc) ([], groups)
      if done.isEmpty then joinPairs (l.length + 2) x
      else joinByRoots fuel (add (done ++ groups.map fun (_, ts) => add ts))
    | x => x

/-- Sums of products of sines and cosines as waves of sums of angles. -/
def joinAngles (x : Expr) : Expr :=
  x.mapUp fun y => match y with
    | .sum l => joinByRoots (l.length + 2) (joinAlike l)
    | y => y

end Expr

end Reckoner
