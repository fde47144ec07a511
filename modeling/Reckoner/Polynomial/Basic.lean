-- Polynomials in several variables: a list of terms, highest exponents first, none with the
-- coefficient zero. The coefficients are the numbers of a field.
import Reckoner.Sorting

namespace Reckoner

/-! ## Coefficients -/

/-- The numbers that coefficients are. A list of them has a common part: divided by it they are
whole, have no common divisor, and the first has its best sign. -/
class Coefficient (K : Type) extends Zero K, One K, Add K, Neg K, Mul K, Div K, NatCast K where
  common : List K → K

/-- The rational number by which a list of rational numbers differs from whole numbers without a
common divisor. -/
def rationalContent (l : List Rat) : Rat :=
  let g := l.foldl (fun (g : Nat) c => Nat.gcd g c.num.natAbs) 0
  let d := l.foldl (fun (d : Nat) c => Nat.lcm d c.den) 1
  mkRat g d

instance : Coefficient Rat where
  zero := (0 : Rat)
  one := (1 : Rat)
  common l := if l.head?.getD 0 < 0 then -(rationalContent l) else rationalContent l

/-! ## The type -/

/-- The exponents of the variables in a term. -/
abbrev Exponents := List Nat

/-- The terms of a polynomial. -/
abbrev Poly (K : Type) := List (Exponents × K)

namespace Poly

variable {K : Type} [Coefficient K] [DecidableEq K]

/-- The order of terms: the first variable counts most. -/
def exponentsCmp : Exponents → Exponents → Ordering
  | a :: r, b :: s => (compare b a).then (exponentsCmp r s)
  | _, _ => .eq

/-- Adds a term in its place. -/
def addTerm (e : Exponents) (c : K) : Poly K → Poly K
  | [] => if c = 0 then [] else [(e, c)]
  | (f, d) :: r =>
    match exponentsCmp e f with
    | .lt => if c = 0 then (f, d) :: r else (e, c) :: (f, d) :: r
    | .eq => if c + d = 0 then r else (f, c + d) :: r
    | .gt => (f, d) :: addTerm e c r

/-- The polynomial with these terms, in any order. -/
def ofTerms (l : List (Exponents × K)) : Poly K := l.foldl (fun p (e, c) => addTerm e c p) []

def constant (arity : Nat) (c : K) : Poly K :=
  if c = 0 then [] else [(List.replicate arity 0, c)]

/-- Whether no variable occurs. -/
def isConstant (p : Poly K) : Bool := p.all fun (e, _) => e.all (· == 0)

/-! ## Arithmetic -/

def add (p q : Poly K) : Poly K := q.foldl (fun acc (e, c) => addTerm e c acc) p

def scale (k : K) (p : Poly K) : Poly K := if k = 0 then [] else p.map fun (e, c) => (e, k * c)

def neg (p : Poly K) : Poly K := p.map fun (e, c) => (e, -c)

def sub (p q : Poly K) : Poly K := add p (neg q)

def addExponents (e f : Exponents) : Exponents := List.zipWith (· + ·) e f

/-- The product with a term. -/
def mulTerm (e : Exponents) (c : K) (p : Poly K) : Poly K :=
  p.map fun (f, d) => (addExponents e f, c * d)

def mul (p q : Poly K) : Poly K := p.foldl (fun acc (e, c) => add acc (mulTerm e c q)) []

def pow (one p : Poly K) : Nat → Poly K
  | 0 => one
  | n + 1 => mul (pow one p n) p

/-- The difference of exponents, when none is negative. -/
def subExponents? : Exponents → Exponents → Option Exponents
  | a :: r, b :: s => if b ≤ a then (subExponents? r s).map fun rest => (a - b) :: rest else none
  | _, _ => some []

/-- Division that stops at the first term that the divisor's first term does not divide. -/
def divExactAux (e : Exponents) (c : K) (q : Poly K) : Nat → Poly K → Poly K → Option (Poly K)
  | _, [], acc => some acc.reverse
  | 0, _, _ => none
  | fuel + 1, (f, d) :: r, acc => do
    let g ← subExponents? f e
    divExactAux e c q fuel (sub ((f, d) :: r) (mulTerm g (d / c) q)) ((g, d / c) :: acc)

/-- The number of exponent tuples below the highest exponents: no division takes more
steps. -/
def stepBound (p : Poly K) : Nat :=
  1 + (p.foldl (fun (acc : List Nat) (e, _) =>
    if acc.isEmpty then e else List.zipWith max acc e) []).foldl (fun n k => n * (k + 1)) 1

/-- The quotient, when the division leaves nothing. -/
def divExact? (p q : Poly K) : Option (Poly K) :=
  match q with
  | [] => none
  | (e, c) :: _ => divExactAux e c q (stepBound p) p []

/-- The leading coefficient. -/
def lead (p : Poly K) : K :=
  match p with
  | [] => 0
  | (_, c) :: _ => c

/-- The polynomial without the common part of its coefficients. -/
def normal (p : Poly K) : Poly K :=
  if p.isEmpty then p else scale (1 / Coefficient.common (p.map Prod.snd)) p

/-! ## The first variable -/

/-- The degree in the first variable. -/
def degree (p : Poly K) : Nat :=
  match p with
  | (n :: _, _) :: _ => n
  | _ => 0

/-- The coefficients of the powers of the first variable, highest first, with their
degrees. -/
def byFirst (p : Poly K) : List (Nat × Poly K) :=
  p.foldr (fun (e, c) acc =>
    match e with
    | n :: rest =>
      match acc with
      | (m, q) :: more => if n = m then (m, (rest, c) :: q) :: more else (n, [(rest, c)]) :: acc
      | [] => [(n, [(rest, c)])]
    | [] => acc) []

/-- A polynomial in the other variables, as one in all of them. -/
def lift (n : Nat) (p : Poly K) : Poly K := p.map fun (e, c) => (n :: e, c)

/-- The leading coefficient in the first variable, as a polynomial in all of them. -/
def leadFirst (p : Poly K) : Poly K :=
  match byFirst p with
  | (_, q) :: _ => lift 0 q
  | [] => []

/-- The remainder of a multiple of `p` by `q` in the first variable. -/
def pseudoRemainder (q : Poly K) : Nat → Poly K → Poly K
  | 0, p => p
  | fuel + 1, p =>
    if p.isEmpty || degree p < degree q then p
    else
      let shift := (degree p - degree q) ::
        List.replicate ((q.head?.map fun (e, _) => e.length - 1).getD 0) 0
      let left := mul (leadFirst q) p
      let right := mulTerm shift 1 (mul (leadFirst p) q)
      pseudoRemainder q fuel (normal (sub left right))

/-! ## Greatest common divisors -/

/-- The last common divisor of a chain of remainders; `strip` takes the content in the
other variables out of each. -/
def remainderChain (strip : Poly K → Poly K) : Nat → Poly K → Poly K → Poly K
  | 0, p, _ => p
  | fuel + 1, p, q =>
    if q.isEmpty then p
    else remainderChain strip fuel q (strip (pseudoRemainder q (degree p + 1) p))

/-- The greatest common divisor of two polynomials in `arity` variables, without content
and with a positive leading coefficient. -/
def gcdAux : Nat → Poly K → Poly K → Poly K
  | 0, p, q => if p.isEmpty && q.isEmpty then [] else [([], 1)]
  | arity + 1, p, q =>
    if p.isEmpty then normal q
    else if q.isEmpty then normal p
    else
      let contentOf := fun (p : Poly K) =>
        (byFirst p).foldl (fun g (_, c) => gcdAux arity g c) []
      let strip := fun (p : Poly K) =>
        if p.isEmpty then p
        else normal ((divExact? p (lift 0 (contentOf p))).getD p)
      let common := gcdAux arity (contentOf p) (contentOf q)
      let a := strip p
      let b := strip q
      let (a, b) := if degree a < degree b then (b, a) else (a, b)
      let g := remainderChain strip (degree b + 2) a b
      normal (mul (lift 0 common) (if degree g = 0 then constant (arity + 1) 1 else strip g))

/-- The number of variables. -/
def arity (p : Poly K) : Nat := (p.head?.map fun (e, _) => e.length).getD 0

/-- The greatest common divisor up to a number. -/
def gcd (p q : Poly K) : Poly K := gcdAux (max p.arity q.arity) p q

/-- The derivative in the first variable. -/
def derivative (p : Poly K) : Poly K :=
  p.filterMap fun (e, c) => match e with
    | n :: rest => if n = 0 then none else some ((n - 1) :: rest, c * (n : K))
    | [] => none

/-! ## Rational coefficients -/

/-- The rational number by which a polynomial differs from one with whole coefficients
that have no common divisor. -/
def content (p : Poly Rat) : Rat := rationalContent (p.map Prod.snd)

/-- The polynomial without its content. -/
def primitive (p : Poly Rat) : Poly Rat := if p.isEmpty then p else scale (1 / content p) p

/-- A quotient of polynomials with whole coefficients in lowest terms: no common divisor is
left, and the denominator has a positive leading coefficient. -/
def reduce (p q : Poly Rat) : Poly Rat × Poly Rat :=
  if p.isEmpty then ([], constant q.arity 1)
  else
    let g := gcd p q
    let a := (divExact? p g).getD p
    let b := (divExact? q g).getD q
    let ratio := content a / content b
    let a := scale (ratio.num : Rat) (primitive a)
    let b := scale (ratio.den : Rat) (primitive b)
    if lead b < 0 then (neg a, neg b) else (a, b)

end Poly

end Reckoner
