-- Polynomials whose coefficients are complex numbers with rational parts: common divisors,
-- quotients in lowest terms, and factors by way of the product with the conjugate.
import Reckoner.Polynomial.Factor

namespace Reckoner

/-! ## Complex numbers with rational parts -/

/-- A complex number with rational parts. -/
structure Gaussian where
  re : Rat
  im : Rat
deriving DecidableEq

namespace Gaussian

def ofRat (q : Rat) : Gaussian := ⟨q, 0⟩

instance : Zero Gaussian := ⟨⟨0, 0⟩⟩
instance : One Gaussian := ⟨⟨1, 0⟩⟩
instance : Add Gaussian := ⟨fun a b => ⟨a.re + b.re, a.im + b.im⟩⟩
instance : Neg Gaussian := ⟨fun a => ⟨-a.re, -a.im⟩⟩
instance : Sub Gaussian := ⟨fun a b => ⟨a.re - b.re, a.im - b.im⟩⟩
instance : Mul Gaussian :=
  ⟨fun a b => ⟨a.re * b.re - a.im * b.im, a.re * b.im + a.im * b.re⟩⟩
instance : NatCast Gaussian := ⟨fun n => ofRat n⟩

/-- The imaginary unit. -/
def i : Gaussian := ⟨0, 1⟩

/-- The complex number with the other sign of its imaginary part. -/
def conj (a : Gaussian) : Gaussian := ⟨a.re, -a.im⟩

/-- The square of the distance from zero. -/
def norm (a : Gaussian) : Rat := a.re * a.re + a.im * a.im

/-- The product with the conjugate is the norm, so this divides by `b`. Division by zero gives
zero. -/
instance : Div Gaussian :=
  ⟨fun a b => let c := a * b.conj; ⟨c.re / b.norm, c.im / b.norm⟩⟩

def pow (a : Gaussian) : Nat → Gaussian
  | 0 => 1
  | n + 1 => pow a n * a

/-- The unit that turns a number into the first quadrant, where zero and the positive real numbers
belong. -/
def toFirstQuadrant (a : Gaussian) : Gaussian :=
  if 0 < a.im then if 0 < a.re then 1 else -i
  else if a.im < 0 then if a.re < 0 then -1 else i
  else if 0 ≤ a.re then 1 else -1

/-- The whole number next to a rational one. -/
def nearest (q : Rat) : Rat := ((q + 1 / 2).floor : Int)

/-- A greatest common divisor of two numbers with whole parts. The norm of the rest is at most half
that of the divisor, so `fuel` need only count halvings. -/
def gcdAux : Nat → Gaussian → Gaussian → Gaussian
  | 0, a, _ => a
  | fuel + 1, a, b =>
    if b = 0 then a
    else
      let q := a / b
      gcdAux fuel b (a - ⟨nearest q.re, nearest q.im⟩ * b)

/-- The greatest common divisor in the first quadrant of two numbers with whole parts. -/
def gcd (a b : Gaussian) : Gaussian :=
  let g := gcdAux (a.norm.num.natAbs.log2 + b.norm.num.natAbs.log2 + 4) a b
  g * g.toFirstQuadrant

/-- The least positive number that makes the parts of all numbers whole. -/
def commonDenominator (l : List Gaussian) : Nat :=
  l.foldl (fun d c => Nat.lcm (Nat.lcm d c.re.den) c.im.den) 1

/-- The greatest common divisor of numbers with whole parts. -/
def gcdList (l : List Gaussian) : Gaussian := l.foldl gcd 0

/-- The common part of a list, with the leading number in the first quadrant. -/
def common (l : List Gaussian) : Gaussian :=
  let d : Gaussian := (commonDenominator l : Gaussian)
  let g := gcdList (l.map (· * d)) / d
  match l with
  | c :: _ => g / (c / g).toFirstQuadrant
  | [] => g

instance : Coefficient Gaussian where
  common := common

end Gaussian

namespace Poly

/-! ## Real and conjugate polynomials -/

/-- Whether all coefficients are real. -/
def isReal (p : Poly Gaussian) : Bool := p.all fun (_, c) => c.im = 0

/-- The real parts of the coefficients. -/
def realPart (p : Poly Gaussian) : Poly Rat :=
  p.filterMap fun (e, c) => if c.re = 0 then none else some (e, c.re)

def ofReal (p : Poly Rat) : Poly Gaussian := p.map fun (e, c) => (e, .ofRat c)

def conj (p : Poly Gaussian) : Poly Gaussian := p.map fun (e, c) => (e, c.conj)

/-- The polynomial divided by its leading coefficient. -/
def monic (p : Poly Gaussian) : Poly Gaussian := if p.isEmpty then p else scale (1 / lead p) p

/-- The common divisor of the coefficients, which have whole parts. -/
def gaussianContent (p : Poly Gaussian) : Gaussian := Gaussian.gcdList (p.map Prod.snd)

/-! ## Quotients -/

/-- A quotient in lowest terms, with the leading coefficient of the denominator in the first
quadrant. Common denominators of the coefficients are reduced by themselves. -/
def reduceGaussian (p q : Poly Gaussian) : Poly Gaussian × Poly Gaussian :=
  if p.isEmpty then ([], constant q.arity 1)
  else
    let m := Gaussian.commonDenominator (p.map Prod.snd)
    let n := Gaussian.commonDenominator (q.map Prod.snd)
    let p := scale (m : Gaussian) p
    let q := scale (n : Gaussian) q
    let g := gcd p q
    let a := (divExact? p g).getD p
    let b := (divExact? q g).getD q
    -- a common divisor without content may leave parts that are not whole
    let d : Gaussian :=
      (Gaussian.commonDenominator ((a ++ b).map Prod.snd) : Gaussian)
    let a := scale d a
    let b := scale d b
    let c := Gaussian.gcd (gaussianContent a) (gaussianContent b)
    let k := Nat.gcd m n
    let a := scale (((n / k : Nat) : Gaussian) / c) a
    let b := scale (((m / k : Nat) : Gaussian) / c) b
    let unit := (lead b).toFirstQuadrant
    (scale unit a, scale unit b)

/-! ## Factors -/

/-- The polynomial with each variable moved by `s`. -/
def shift (s : Gaussian) (p : Poly Gaussian) : Poly Gaussian :=
  let n := p.arity
  let one : Poly Gaussian := constant n 1
  let moved := (List.range n).map fun i =>
    add [((List.range n).map fun j => if i = j then 1 else 0, 1)] (constant n s)
  p.foldl (fun acc (e, c) =>
    let term := (moved.zip e).foldl (fun t (x, k) => mul t (pow one x k)) one
    add acc (scale c term)) []

/-- The factors of a polynomial that has none with rational coefficients but itself. Moved off the
real axis its product with the conjugate has no repeated factor, and each factor of that shares one
with it. -/
def splitReal (p : Poly Gaussian) : Nat → Nat → List (Poly Gaussian)
  | 0, _ => [p]
  | fuel + 1, s =>
    let move : Gaussian := ⟨0, s⟩
    let moved := shift (-move) p
    let (_, factors) := factor (realPart (mul moved (conj moved)))
    if factors.any fun (_, k) => k ≠ 1 then splitReal p fuel (s + 1)
    else if factors.length ≤ 1 then [p]
    else factors.map fun (f, _) => monic (shift move (gcd (ofReal f) moved))

/-- How often `q` divides `p`, and what is left. -/
def divideOut (q : Poly Gaussian) : Nat → Poly Gaussian → Nat × Poly Gaussian
  | 0, p => (0, p)
  | fuel + 1, p =>
    match divExact? p q with
    | some r => let (n, rest) := divideOut q fuel r; (n + 1, rest)
    | none => (0, p)

/-- The leading coefficient, and the factors with leading coefficient one and multiplicities. -/
def factorMonic (p : Poly Gaussian) : Gaussian × List (Poly Gaussian × Nat) :=
  let f := monic p
  let (_, real) := factor (realPart (mul f (conj f)))
  let candidates := real.flatMap fun (r, _) => splitReal (monic (ofReal r)) 30 1
  let degree := p.foldl (fun n (e, _) => max n (e.foldl (· + ·) 0)) 0
  let (factors, _) := candidates.foldl (fun (acc, f) q =>
    let (n, rest) := divideOut q degree f
    (if n = 0 then acc else acc ++ [(q, n)], rest)) (([] : List (Poly Gaussian × Nat)), f)
  (lead p, factors)

/-- The number before the factors, and the factors with multiplicities. The factors of a polynomial
with whole parts have whole parts without a common divisor. -/
def factorGaussian (p : Poly Gaussian) : Gaussian × List (Poly Gaussian × Nat) :=
  let (c, factors) := factorMonic p
  if Gaussian.commonDenominator (p.map Prod.snd) ≠ 1 then (c, factors)
  else
    let whole := factors.map fun (f, n) =>
      let f := scale (Gaussian.commonDenominator (f.map Prod.snd) : Gaussian) f
      (scale (1 / gaussianContent f) f, n)
    (whole.foldl (fun c (f, n) => c / (lead f).pow n) c, whole)

end Poly

end Reckoner
