-- Products in normal form: numbers are multiplied, powers of one base are joined, and
-- roots of numbers are brought to as few radicals as the rules allow.
import Reckoner.Algebra.Sum

namespace Reckoner

namespace Builder

variable (B : Builder)

/-! ## Sorting the factors by kind -/

/-- What a product has gathered. -/
structure Factors where
  /-- The number, or the infinity without a direction. -/
  coeff : Expr
  /-- Powers of bases that are not numbers. -/
  powers : List (Expr × Expr)
  /-- Powers of numbers with an exponent that is not a number. -/
  numberPowers : List (Expr × Expr)
  /-- The exponent of -1, where the imaginary unit counts one half. -/
  turn : Rat
  /-- Roots: a positive number and its exponents. -/
  roots : List (Expr × List Rat)

/-- The product of a number and a folded power. -/
def mulCoeff (c : Expr) (x : Expr) : Expr :=
  match c, x with
  | .num m, .num n => .num (m.mul n)
  | .num m, .const .zoo => if m.isZero then .nan else .zoo
  | .const .zoo, .num n => if n.isZero || n = .undefined then .nan else .zoo
  | c, _ => c

/-- Gathers the factors, those of nested products after the others. A product has no
value when infinity meets zero, or an undefined number. -/
def collectFactors : Nat → List Expr → Factors → Option Factors
  | 0, _, acc => some acc
  | _, [], acc => some acc
  | fuel + 1, x :: rest, acc =>
    match x with
    | .num _ | .const .zoo =>
      let c := mulCoeff acc.coeff x
      if c = .nan then none else collectFactors fuel rest { acc with coeff := c }
    | .const .i => collectFactors fuel rest { acc with turn := acc.turn + 1 / 2 }
    | .prod l => collectFactors fuel (rest ++ l) acc
    | x =>
      let (b, e) := x.baseExp B.neg
      let plain := collectFactors fuel rest { acc with powers := acc.powers ++ [(b, e)] }
      match x, b with
      | .pow _ _, .num n =>
        match e.rat? with
        | some q =>
          if q.den = 1 then
            let c := mulCoeff acc.coeff (B.pow b e)
            if c = .nan then none else collectFactors fuel rest { acc with coeff := c }
          else if q < 0 then collectFactors fuel (rest ++ [B.pow b e]) acc
          else
            let acc := if n.isNegative then { acc with turn := acc.turn + q } else acc
            let base := if n.isNegative then .num n.neg else b
            if base = .one then collectFactors fuel rest acc
            else
              collectFactors fuel rest
                { acc with roots := addEntry (· ++ ·) base [q] acc.roots }
        | none =>
          if n.isPositive then
            collectFactors fuel rest { acc with numberPowers := acc.numberPowers ++ [(b, e)] }
          else plain
      | _, _ => plain

/-- Joins powers of one base whose exponents differ only in their number. -/
def gatherPowers (powers : List (Expr × Expr)) : List (Expr × Expr) :=
  let entries : List (Expr × List (Expr × List Expr)) :=
    powers.foldl (fun acc (b, e) =>
      let (c, t) := e.coeffMul
      addEntry (fun old new => match new with
        | [(t, cs)] => addEntry (· ++ ·) t cs old
        | _ => old) b [(t, [.num c])] acc) []
  entries.flatMap fun (b, exponents) =>
    exponents.map fun (t, cs) => (b, B.mul [B.add cs, t])

/-! ## The powers of a product -/

/-- Whether the part holds one of the infinities. -/
def holdsInfinity (b : Expr) : Bool :=
  match b with
  | .sum l | .prod l => l.any isInfinite
  | _ => false

/-- The pass that builds the gathered powers. -/
structure Built where
  coeff : Expr
  parts : List Expr
  powers : List (Expr × Expr)
  changed : Bool

/-- Builds each gathered power. A power whose base changes may meet another one, so the
bases are told too. -/
def buildPowers : List (Expr × Expr) → Built → Option Built
  | [], acc => some acc
  | (b, e) :: rest, acc =>
    if e.isZero? = some true then
      if holdsInfinity b then none else buildPowers rest acc
    else if e = .one then
      if b.isNum then buildPowers rest { acc with coeff := mulCoeff acc.coeff b }
      else
        buildPowers rest
          { acc with parts := acc.parts ++ [b], powers := acc.powers ++ [(b, e)] }
    else
      let p := B.pow b e
      let (b', e') := if p.isPow && !b.isPow then p.baseExp B.neg else (b, e)
      buildPowers rest
        { acc with
          parts := acc.parts ++ [p]
          powers := acc.powers ++ [(b', e')]
          changed := acc.changed || b' != b }

/-- Whether a list has an element twice. -/
def hasRepeat : List Expr → Bool
  | [] => false
  | x :: r => r.contains x || hasRepeat r

/-- Builds the gathered powers, a second time when a base that changed meets another. -/
def settlePowers (coeff : Expr) (powers : List (Expr × Expr)) : Option (Expr × List Expr) := do
  let first ← buildPowers B powers ⟨coeff, [], [], false⟩
  if first.changed && hasRepeat (first.powers.map Prod.fst) then
    let second ← buildPowers B (gatherPowers B first.powers) ⟨first.coeff, [], [], false⟩
    return (second.coeff, second.parts)
  else return (first.coeff, first.parts)

/-! ## The roots of a product -/

/-- The whole part of an exponent above one goes to the number. -/
def reduceExponent (coeff b : Expr) (e : Rat) : Expr × Rat :=
  if 1 < e then
    let whole := e.floor
    (mulCoeff coeff (B.pow b (.ofInt whole)), e - whole)
  else (coeff, e)

/-- The roots with one exponent share a base. -/
def joinRoots (coeff : Expr) (roots : List (Expr × List Rat)) : Expr × List (Expr × Rat) :=
  let byExponent : List (Rat × List Expr) :=
    roots.foldl (fun acc (b, es) => addEntry (· ++ ·) (es.foldl (· + ·) 0) [b] acc) []
  byExponent.foldl (fun (coeff, out) (e, bs) =>
    let b := B.mul bs
    if e.den = 1 then (mulCoeff coeff (B.pow b (.ofRat e)), out)
    else
      let (coeff, e) := reduceExponent B coeff b e
      (coeff, out ++ [(b, e)])) (coeff, [])

/-- The common divisor of two exact bases: the divisor of the numerators over the common
multiple of the denominators. -/
def baseGcd (a b : Expr) : Rat :=
  match a.rat?, b.rat? with
  | some p, some q =>
    mkRat (Nat.gcd p.num.natAbs q.num.natAbs) (Nat.lcm p.den q.den)
  | _, _ => 1

/-- What the extraction of common divisors has gathered. -/
structure Radicals where
  coeff : Expr
  /-- For each exponent the bases that stay under it. -/
  parts : List (Rat × List Expr)

/-- Takes the common divisors of one base with the later ones out of both. -/
def shareDivisors (coeff : Expr) (b : Expr) (e : Rat) :
    List (Expr × Rat) → Expr × Expr × List (Expr × Rat) × List (Expr × Rat)
  | [] => (coeff, b, [], [])
  | (c, f) :: rest =>
    let g := baseGcd b c
    match b.rat?, c.rat? with
    | some p, some q =>
      if g = 1 || p = 1 then
        let (coeff, b, rest, grown) := shareDivisors coeff b e rest
        (coeff, b, (c, f) :: rest, grown)
      else
        let sum := e + f
        let (coeff, grown) :=
          if sum.den = 1 then (mulCoeff coeff (B.pow (.ofRat g) (.ofRat sum)), [])
          else
            let (coeff, sum) := reduceExponent B coeff (.ofRat g) sum
            (coeff, [(Expr.ofRat g, sum)])
        let (coeff, b, rest, more) := shareDivisors coeff (.ofRat (p / g)) e rest
        (coeff, b, (.ofRat (q / g), f) :: rest, grown ++ more)
    | _, _ =>
      let (coeff, b, rest, grown) := shareDivisors coeff b e rest
      (coeff, b, (c, f) :: rest, grown)

/-- Builds the roots one after another, with the divisors that they share joined. -/
def settleRoots : Nat → List (Expr × Rat) → Radicals → Radicals
  | 0, _, acc => acc
  | _, [], acc => acc
  | fuel + 1, (b, e) :: rest, acc =>
    if b = .one then settleRoots fuel rest acc
    else
      let (coeff, b, rest, grown) := shareDivisors B acc.coeff b e rest
      let acc := { acc with coeff := coeff }
      let acc :=
        if b = .one then acc
        else
          (B.pow b (.ofRat e)).factors.foldl (fun acc x =>
            match x with
            | .num _ => { acc with coeff := mulCoeff acc.coeff x }
            | .pow c (.num (.exact f)) => { acc with parts := addEntry (· ++ ·) f [c] acc.parts }
            | x => { acc with parts := addEntry (· ++ ·) 1 [x] acc.parts }) acc
      settleRoots fuel (rest ++ grown) acc

/-- The powers of -1: an odd whole part changes the sign, one half gives the imaginary
unit, and any other part joins a root of a positive number or stays. -/
def settleTurn (turn : Rat) (coeff : Expr) (parts : List (Rat × Expr)) :
    Expr × List Expr × List (Rat × Expr) :=
  if turn = 0 then (coeff, [], parts)
  else
    let whole := turn.floor
    let rest := turn - whole
    let coeff := if whole % 2 = 1 then mulCoeff coeff .negOne else coeff
    if turn.den = 2 then (coeff, [.i], parts)
    else if rest = 0 then (coeff, [], parts)
    else if parts.any fun (e, b) => e == rest && b.isPositive then
      let joined := parts.foldl (fun (acc : List (Rat × Expr) × Bool) (e, b) =>
        if !acc.2 && e == rest && b.isPositive then (acc.1 ++ [(e, B.neg b)], true)
        else (acc.1 ++ [(e, b)], acc.2)) ([], false)
      (coeff, [], joined.1)
    else (coeff, [.pow .negOne (.ofRat rest)], parts)

/-! ## Products -/

/-- The factors that an infinite number leaves: the sign of a real one goes into it. -/
def besideInfiniteFactor (coeff : Expr) (l : List Expr) : Expr × List Expr :=
  match coeff with
  | .num (.infinite _) =>
    l.foldl (fun (c, out) x =>
      if x.isPositive then (c, out)
      else if x.isNegative then (mulCoeff c .negOne, out)
      else (c, out ++ [x])) (coeff, [])
  | .const .zoo =>
    (coeff, l.filter fun x =>
      !(x.isZero? = some false && (x.isReal?.isSome)))
  | _ => (coeff, l)

/-- Puts the number first; a number before a single sum is spread over its terms. -/
def finishProduct (coeff : Expr) (parts : List Expr) : Expr :=
  let numbers := parts.filter Expr.isNum
  let coeff := numbers.foldl mulCoeff coeff
  let parts := Expr.sortParts (parts.filter fun x => !x.isNum)
  match coeff, parts with
  | .num n, [.sum l] =>
    if n = .exact 1 then .sum l
    else if n.isFinite then B.add (l.map fun x => B.mul [.num n, x])
    else .prod [coeff, .sum l]
  | _, _ => Expr.rawProd (if coeff = .one then parts else coeff :: parts)

/-- The product of factors in normal form. -/
def prodOfMany (args : List Expr) : Expr :=
  match collectFactors B (Expr.sizeList args + args.length + 8) args ⟨.one, [], [], 0, []⟩ with
  | none => .nan
  | some acc =>
    let powers := gatherPowers B acc.powers
    let numberPowers := gatherPowers B acc.numberPowers
    match settlePowers B acc.coeff powers with
    | none => .nan
    | some (coeff, parts) =>
      let byExponent : List (Expr × List Expr) :=
        numberPowers.foldl (fun acc (b, e) => addEntry (· ++ ·) e [b] acc) []
      let fixed := byExponent.filterMap fun (e, bs) =>
        if e = .zero then none else some (B.pow (B.mul bs) e)
      let (coeff, roots) := joinRoots B coeff acc.roots
      let radicals := settleRoots B (roots.length * roots.length + 8) roots ⟨coeff, []⟩
      let merged := radicals.parts.map fun (e, bs) => (e, B.mul bs)
      let (coeff, turn, merged) := settleTurn B acc.turn radicals.coeff merged
      let parts := parts ++ fixed ++ turn ++ merged.map fun (e, b) => B.pow b (.ofRat e)
      let (coeff, parts) := besideInfiniteFactor coeff parts
      match coeff with
      | .num n =>
        if n = .undefined then .nan
        else if n.isZero then if parts.any isInfinite then .nan else coeff
        else finishProduct B coeff parts
      | _ => finishProduct B coeff parts

/-- The product of expressions in normal form. A rational number before one sum is spread
over its terms, and a number before a number times a sum joins that number. -/
def prodOf (args : List Expr) : Expr :=
  let args := args.filter fun x => x != .one
  match args with
  | [] => .one
  | [x] => x
  | [a, b] =>
    let (a, b) := if b.isRational then (b, a) else (a, b)
    match a.rat? with
    | some q =>
      let (r, rest) := b.coeffMul
      match rest with
      | .sum l =>
        if q = 0 then prodOfMany B [a, b]
        else if r = .exact 1 then B.add (l.map (B.keepCoeff (.exact q)))
        else
          let m := (Number.exact q).mul r
          if m = .exact 1 then rest else .prod [.num m, rest]
      | _ => prodOfMany B [a, b]
    | none => prodOfMany B [a, b]
  | args => prodOfMany B args

end Builder

end Reckoner
