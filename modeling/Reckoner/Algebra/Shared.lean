-- Common factors: what the terms of a sum share is brought before it, above and below one
-- bar.
import Reckoner.Algebra.Effort

namespace Reckoner

/-! ## Terms as powers -/

/-- Powers with positive whole exponents, each base once. -/
abbrev Powers := List (Expr × Nat)

namespace Powers

def mul (a b : Powers) : Powers := b.foldl (fun acc (x, n) => addEntry (· + ·) x n acc) a

/-- The powers that both have. -/
def gcd (a b : Powers) : Powers :=
  a.filterMap fun (x, n) => (lookupEntry x b).map fun m => (x, min n m)

/-- The powers that either has. -/
def lcm (a b : Powers) : Powers := b.foldl (fun acc (x, n) => addEntry max x n acc) a

/-- What is left of `a` after the powers of `b` are taken out. -/
def quo (a b : Powers) : Powers :=
  a.filterMap fun (x, n) =>
    let left := n - (lookupEntry x b).getD 0
    if left = 0 then none else some (x, left)

def toExpr (a : Powers) : Expr :=
  Expr.mul (a.map fun (x, n) =>
    if n = 1 then x
    else
      let (b, e) := x.baseExp Expr.neg
      Expr.power b (Expr.keepCoeff (.exact n) e))

end Powers

/-- A term: a rational number, and powers above and below the bar. A measured number is a
power like any other, so that terms can share it. -/
structure Term where
  coeff : Rat
  above : Powers
  below : Powers

namespace Term

/-- The greatest common divisor of two rational numbers. -/
def gcdRat (p q : Rat) : Rat :=
  mkRat (Nat.gcd p.num.natAbs q.num.natAbs) (Nat.lcm p.den q.den)

/-- A term taken apart. The content of a sum goes to the number. -/
def ofExpr (x : Expr) : Term :=
  let (c, rest) := match x with
    | .num (.approx m bits) =>
      if m.man < 0 then ((-1 : Rat), .num (Number.approx m bits).neg) else (1, x)
    | x => x.coeffMulRational
  if rest = Expr.one then ⟨c, [], []⟩
  else
    rest.factors.foldl (fun t f =>
      let (b, e) := Builder.full.decomposePower f
      let (content, b) := b.primitive
      let c := t.coeff * content ^ e
      if 0 < e then { t with coeff := c, above := addEntry (· + ·) b e.toNat t.above }
      else { t with coeff := c, below := addEntry (· + ·) b e.natAbs t.below }) ⟨c, [], []⟩

def toExpr (t : Term) : Expr :=
  Expr.mul [.ofRat t.coeff, Expr.div t.above.toExpr t.below.toExpr]

def gcd (s t : Term) : Term :=
  ⟨gcdRat s.coeff t.coeff, s.above.gcd t.above, s.below.gcd t.below⟩

/-- The quotient of two terms. -/
def quo (s t : Term) : Term :=
  let above := s.above.mul t.below
  let below := s.below.mul t.above
  ⟨s.coeff / t.coeff, above.quo below, below.quo above⟩

end Term

namespace Expr

/-! ## The factor of all terms -/

/-- The product of a number and an expression. `clear` brings a fraction before a sum;
`sign` keeps -1 before one. -/
def joinCoeff (clear sign : Bool) (c : Number) (x : Expr) : Expr :=
  match x with
  | .sum _ =>
    if c = .exact (-1) && sign then keepSign c x
    else if clear then Expr.keepCoeff c x
    else keepCoeffInside c x
  | x => Expr.keepCoeff c x

/-- What terms share, and what is left of them above and below a common bar. `bar` asks for
the bar; `primitive` says that the sum has no content. -/
def shareTerms (isPrimitive bar : Bool) (l : List Expr) : Expr × Expr × Expr :=
  let terms := (l.filter (· != .zero)).map Term.ofExpr
  let (shared, above, below) : Expr × Expr × Expr :=
    match terms with
    | [] => (.zero, .zero, .one)
    | [t] => (.ofRat t.coeff, t.above.toExpr, t.below.toExpr)
    | t :: rest =>
      let shared := rest.foldl Term.gcd t
      let left := terms.map (Term.quo · shared)
      if bar then
        let below := left.foldl (fun (acc : Powers) t => Powers.lcm acc t.below) []
        let above := left.map fun t =>
          Expr.mul [.ofRat t.coeff, (Powers.mul t.above (Powers.quo below t.below)).toExpr]
        (shared.toExpr, add above, Powers.toExpr below)
      else (shared.toExpr, add (left.map Term.toExpr), .one)
  if !isPrimitive && above.isSum then
    let (c, p) := above.primitive
    (times shared (.ofRat c), p, below)
  else (shared, above, below)

/-- The sum of terms with their common factor before it. -/
def shareFactors (isPrimitive clear bar : Bool) (l : List Expr) : Expr :=
  let (shared, above, below) := shareTerms isPrimitive bar l
  let (coeff, factors) := shared.coeffMul
  let (coeff, above) : Number × Expr :=
    match coeff, above with
    | .exact q, .sum m =>
      if !clear && q.den ≠ 1 then
        let inner := m.map fun t => let (k, r) := t.coeffMul; (k.mul (.exact (mkRat 1 q.den)), r)
        if inner.any fun (k, _) => k.isInteger then
          (.exact q.num, mul [.ofRat (mkRat 1 q.den), .sum m])
        else (coeff, above)
      else (coeff, above)
    | _, _ => (coeff, above)
  joinCoeff clear false coeff (mul [factors, above, inverse below])

/-- Each outermost sum as its common factor times one quotient. -/
def shareAllAux : Nat → Expr → Expr
  | 0, x => x
  | fuel + 1, x =>
    let part := shareAllAux fuel
    match x with
    | .num _ | .const _ | .sym _ => x
    | .sum l => shareFactors false true true l
    | .prod _ =>
      let (c, rest) := x.coeffMulRational
      Expr.keepCoeff (.exact c) (mul (rest.factors.map part))
    | .pow b e => power (part b) (part e)
    | .app f a => apply f (part a)

/-- Each outermost sum as its common factor times one quotient. -/
def shareAll (x : Expr) : Expr := shareAllAux (x.size + 1) x

/-- The expression with the common factors of the terms of its sums before them. `sign`
keeps -1 before a sum; `radical` brings common roots before it too. -/
def factorTermsAux (sign radical : Bool) : Nat → Expr → Expr
  | 0, x => x
  | fuel + 1, x =>
    let part := factorTermsAux sign radical fuel
    match x with
    | .num _ | .const _ | .sym _ => x
    | .pow b e =>
      let c := part b
      let f := part e
      if c = b ∧ f = e then x else power c f
    | .app f a => let b := part a; if b = a then x else apply f b
    | x =>
      let (content, p) := x.contentPrimitive false radical
      match p with
      | .sum l =>
        let terms := l.map part
        let allNegative := terms.all fun t => t.coeffMul.1.isNegative
        let content := if allNegative then -content else content
        let terms := if allNegative then terms.map Expr.neg else terms
        joinCoeff false sign (.exact content) (shareFactors true false false terms)
      | .prod l => joinCoeff false sign (.exact content) (mul (l.map part))
      | .pow b e => joinCoeff false sign (.exact content) (power (part b) (part e))
      | .app f a => joinCoeff false sign (.exact content) (apply f (part a))
      | p => joinCoeff false sign (.exact content) p

/-- The expression with the common factors of the terms of its sums before them. -/
def factorTerms (sign : Bool) (x : Expr) : Expr := factorTermsAux sign false (2 * x.size + 8) x

/-- The expression with the common factors and roots of the terms of its sums before them. -/
def factorRoots (x : Expr) : Expr := factorTermsAux true true (2 * x.size + 8) x

/-- The expression as one quotient; `deep` goes into functions and exponents too. -/
def togetherAux (deep : Bool) : Nat → Expr → Expr
  | 0, x => x
  | fuel + 1, x =>
    let part := togetherAux deep fuel
    match x with
    | .num _ | .const _ | .sym _ => x
    | .app f a => if deep then apply f (part a) else x
    | .sum l => shareFactors false true true (l.map part)
    | .pow b e => power (part b) (if deep then part e else e)
    | .prod l => mul (l.map part)

/-- The expression as one quotient. -/
def together (deep : Bool) (x : Expr) : Expr := togetherAux deep (2 * x.size + 8) x

/-- The expression as a quotient, where a whole number below the bar becomes a factor. -/
def asQuotient (x : Expr) : Expr :=
  if x.isAtom then x
  else
    let (n, d) := x.numerDenom
    match d with
    | .num (.exact q) =>
      if q = 1 then n
      else
        -- the factors stand as they are, with one number before them
        let all := [n, .ofRat (1 / q)].flatMap factors
        let number := all.foldl (fun (acc : Number) f => match f with
          | .num k => acc.mul k
          | _ => acc) (.exact 1)
        let rest := sortParts (all.filter fun f => !f.isNum)
        rawProd (if number = .exact 1 then rest else .num number :: rest)
    | d => div n d

end Expr

end Reckoner
