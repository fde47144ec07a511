-- Multiplying out: powers and products of sums, logarithms of products, and powers of
-- products and with sums as exponents.
import Reckoner.Algebra.Fraction

namespace Reckoner

namespace Expr

/-! ## Changing an expression from the inside out -/

mutual
/-- Applies a rule to every node, the parts first. A node whose parts change is built
again. -/
def mapUp (f : Expr → Expr) : Expr → Expr
  | .sum l => let m := mapUpList f l; f (if m = l then .sum l else add m)
  | .prod l => let m := mapUpList f l; f (if m = l then .prod l else mul m)
  | .pow b e =>
    let c := mapUp f b
    let g := mapUp f e
    f (if c = b ∧ g = e then .pow b e else power c g)
  | .app h a => let b := mapUp f a; f (if b = a then .app h a else apply h b)
  | .num n => f (.num n)
  | .const c => f (.const c)
  | .sym s => f (.sym s)
def mapUpList (f : Expr → Expr) : List Expr → List Expr
  | [] => []
  | a :: r => mapUp f a :: mapUpList f r
end

/-! ## Powers of sums -/

/-- The binomial coefficient. -/
def choose (n k : Nat) : Nat :=
  (List.range k).foldl (fun acc i => acc * (n - i) / (i + 1)) 1

/-- The terms of the `n`-th power of a sum, each with its number and exponents. -/
def powerTerms : List Expr → Nat → List (Nat × List (Expr × Nat))
  | [], n => if n = 0 then [(1, [])] else []
  | [x], n => [(1, [(x, n)])]
  | x :: rest, n =>
    (List.range (n + 1)).flatMap fun k =>
      (powerTerms rest (n - k)).map fun (c, es) => (c * choose n k, (x, k) :: es)

/-- The `n`-th power of a sum, multiplied out. -/
def multinomial (l : List Expr) (n : Nat) : Expr :=
  add ((powerTerms l n).map fun (c, es) =>
    mul (.ofNat c :: es.filterMap fun (x, k) => if k = 0 then none else some (power x (.ofNat k))))

/-- The `n`-th power of a complex number with exact parts. -/
def complexPower (a b : Rat) : Nat → Rat × Rat
  | 0 => (1, 0)
  | n + 1 => let (c, d) := complexPower a b n; (a * c - b * d, b * c + a * d)

/-- The exact parts of a complex number that is a sum. -/
def exactComplex? (l : List Expr) : Option (Rat × Rat) :=
  match Builder.pureComplex? l with
  | some (.exact a, .exact b) => some (a, b)
  | _ => none

/-- A power of a sum with a whole exponent above one, multiplied out. -/
def expandPower (l : List Expr) (n : Nat) : Expr :=
  match exactComplex? l with
  | some (a, b) =>
    let (c, d) := complexPower a b n
    add [.ofRat c, mul [.ofRat d, .i]]
  | none => multinomial l n

/-- One step of multiplying out a power of a sum. -/
def expandMultinomialStep (x : Expr) : Expr :=
  match x with
  | .pow (.sum l) (.num (.exact q)) =>
    if 1 < q then
      if q.den = 1 then expandPower l q.num.toNat
      else
        let n := q.floor
        let root := power (.sum l) (.ofRat (q - n))
        let whole := if 1 < n then expandPower l n.toNat else .sum l
        add (whole.terms.map fun t => times t root)
    else if q < -1 then
      let p := -q
      if p.den = 1 then inverse (expandPower l p.num.toNat)
      else
        let n := p.floor
        let root := power (.sum l) (.ofRat (p - n))
        let whole := if 1 < n then expandPower l n.toNat else .sum l
        inverse (add (whole.terms.map fun t => times t root))
    else x
  | .pow (.num n) (.sum l) =>
    if l.any isNum then
      let numbers := l.filter isNum
      let rest := l.filter fun t => !t.isNum
      times (numbers.foldl (fun acc t => times acc (power (.num n) t)) .one)
        (power (.num n) (add rest))
    else x
  | x => x

/-! ## Products of sums -/

/-- The terms of a product of sums. -/
def productOfSums : Nat → List (List Expr) → List Expr
  | 0, _ => []
  | _, [] => [.one]
  | _, [l] => l
  | fuel + 1, sums =>
    let half := sums.length / 2
    let left := productOfSums fuel (sums.take half)
    let right := productOfSums fuel (sums.drop half)
    (add (left.flatMap fun a => right.map fun b => times a b)).terms

/-- The product of factors, with the sums among them multiplied out. -/
def distribute (factors : List Expr) : Option (Expr × List Expr) :=
  let sums := factors.filterMap fun f => match f with
    | .sum l => some l
    | _ => none
  if sums.isEmpty then none
  else some (mul (factors.filter fun f => !f.isSum), productOfSums (sums.length + 1) sums)

/-- One step of multiplying out a product, above and below the bar. -/
def expandMulAux (deep : Bool) : Nat → Expr → Expr
  | 0, x => x
  | fuel + 1, x =>
    let (n, d) := x.fraction
    let inner := fun (y : Expr) => if y.isProd then expandMulAux deep fuel y else y
    let y := if d.isProd then div (inner n) (inner d) else div n d
    match y with
    | .prod l =>
      match distribute l with
      | none => y
      | some (plain, terms) =>
        add (terms.map fun t =>
          let p := times plain t
          if deep && p.isProd && p.factors.any isSum then expandMulAux deep fuel p else p)
    | y => y

def expandMulStep (x : Expr) : Expr := if x.isProd then expandMulAux true 20 x else x

/-! ## Logarithms and exponents -/

/-- Whether `(b ^ e)` may give its exponent to a logarithm. -/
def freesExponent (b e : Expr) : Bool :=
  e.isReal? = some true &&
    (b.isPositive || ((plus e .one).isPositive && !(sub e .one).isPositive))

/-- The logarithm of a product or power, taken apart where the signs allow it. `full` takes whole
numbers apart into all their factors. -/
def expandLogAux (full : Bool) : Nat → Expr → Expr
  | 0, x => apply .log x
  | fuel + 1, x =>
    let again := fun (y : Expr) => match apply .log y with
      | .app .log z => expandLogAux full fuel z
      | z => z
    match x with
    | .num (.exact q) =>
      if q.den ≠ 1 then sub (apply .log (.ofInt q.num)) (apply .log (.ofNat q.den))
      else if q ≤ 0 then apply .log x
      else
        let (b, e) := powerParts q.num.natAbs
        let factors := if full then factorsOf b else [(b, 1)]
        let whole := add (factors.map fun (p, k) => times (.ofNat k) (apply .log (.ofNat p)))
        times (.ofNat e) whole
    | .prod l =>
      let split := l.map fun f =>
        if f.isPositive then ([again f], [])
        else if f.isNegative then ([apply .log (neg f)], [Expr.negOne])
        else ([], [f])
      plus (add (split.flatMap Prod.fst)) (apply .log (mul (split.flatMap Prod.snd)))
    | .pow b e => if freesExponent b e then times e (again b) else apply .log x
    | x => apply .log x

def expandLogStep (full : Bool) (x : Expr) : Expr :=
  match x with
  | .app .log a => expandLogAux full (a.size + 1) a
  | x => x

/-- The expression with its logarithms taken apart until nothing changes. -/
def expandLogWith (full : Bool) (x : Expr) : Expr := loop 10 (x.mapUp (expandLogStep full))
where
  loop : Nat → Expr → Expr
    | 0, x => x
    | fuel + 1, x =>
      let y := x.mapUp (expandLogStep full)
      if y = x then x else loop fuel y

/-- A power of a product, taken apart where the signs allow it. -/
def expandPowerBaseStep (x : Expr) : Expr :=
  match x with
  | .pow (.prod l) e => Builder.full.spreadPower l e
  | x => x

/-- A power with a sum as exponent, as a product of powers, for a base that is not zero. -/
def expandPowerExpStep (x : Expr) : Expr :=
  match x with
  | .pow b (.sum l) => if b.isZero? = some false then mul (l.map (power b)) else x
  | .app .exp (.sum l) => mul (l.map (apply .exp))
  | x => x

/-! ## All of it -/

/-- Multiplies out powers and products until nothing changes. -/
def expandLoop (multinomial logs : Bool) : Nat → Expr → Expr
  | 0, x => x
  | fuel + 1, x =>
    let y := if multinomial then x.mapUp expandMultinomialStep else x
    let y := y.mapUp expandMulStep
    let y := if logs then y.mapUp (expandLogStep false) else y
    if y = x then x else expandLoop multinomial logs fuel y

/-- The expression multiplied out. -/
def expand (x : Expr) : Expr :=
  let y := x.mapUp (expandLogStep false)
  let y := y.mapUp expandMultinomialStep
  let y := y.mapUp expandMulStep
  let y := y.mapUp expandPowerBaseStep
  let y := y.mapUp expandPowerExpStep
  expandLoop true true 30 y

/-- The expression with its products multiplied out. -/
def expandMul (x : Expr) : Expr := expandLoop false false 30 x

/-- The outermost product multiplied out. -/
def expandMulTop (x : Expr) : Expr := if x.isProd then expandMulAux false 20 x else x

/-- The expression with its powers of sums multiplied out. -/
def expandMultinomial (x : Expr) : Expr := expandPowers 30 (x.mapUp expandMultinomialStep)
where
  /-- Goes on until nothing changes. -/
  expandPowers : Nat → Expr → Expr
    | 0, x => x
    | fuel + 1, x =>
      let y := x.mapUp expandMultinomialStep
      if y = x then x else expandPowers fuel y

/-- The expression with its powers of sums multiplied out, and then its products. -/
def multiplyOut (x : Expr) : Expr := expandMul x.expandMultinomial

/-- The expression with its exponents taken apart. -/
def expandPowerExp (x : Expr) : Expr := x.mapUp expandPowerExpStep

end Expr

end Reckoner
