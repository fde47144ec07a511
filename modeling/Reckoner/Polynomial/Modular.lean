-- Polynomials in one variable modulo a prime, lowest coefficient first, and their factors:
-- first by degree, then one by one.

namespace Reckoner

/-! ## Arithmetic -/

/-- Coefficients modulo a prime, lowest first, the last one not zero. -/
abbrev ModPoly := List Nat

namespace ModPoly

/-- The coefficients without the zeros at the top. -/
def trim (l : List Nat) : ModPoly := (l.reverse.dropWhile (· == 0)).reverse

/-- `b ^ e` modulo `m`. -/
def powMod (m : Nat) : Nat → Nat → Nat → Nat → Nat
  | 0, _, _, acc => acc
  | fuel + 1, b, e, acc =>
    if e = 0 then acc
    else powMod m fuel (b * b % m) (e / 2) (if e % 2 = 1 then acc * b % m else acc)

/-- The inverse of `a` modulo the prime `p`. -/
def inverseMod (p a : Nat) : Nat := powMod p (p.log2 + 2) (a % p) (p - 2) 1

def addAux (p : Nat) : List Nat → List Nat → List Nat
  | [], b => b
  | a, [] => a
  | x :: a, y :: b => (x + y) % p :: addAux p a b

def subAux (p : Nat) : List Nat → List Nat → List Nat
  | [], b => b.map fun y => (p - y) % p
  | a, [] => a
  | x :: a, y :: b => (x + p - y) % p :: subAux p a b

def sub (p : Nat) (a b : ModPoly) : ModPoly := trim (subAux p a b)

def scale (p k : Nat) (a : ModPoly) : ModPoly := trim (a.map fun x => k * x % p)

def mul (p : Nat) (a b : ModPoly) : ModPoly :=
  trim (a.foldr (fun x acc => addAux p (b.map fun y => x * y % p) (0 :: acc)) [])

/-- The coefficients from the highest one down, reduced by a divisor with the leading
coefficient one that is also given from the highest one down: quotient and remainder. -/
def divAux (p : Nat) (divisor : List Nat) : Nat → List Nat → List Nat → List Nat × List Nat
  | 0, a, q => (q.reverse, a)
  | steps + 1, a, q =>
    match a with
    | [] => (q.reverse, [])
    | x :: _ => divAux p divisor steps (subAux p a (divisor.map fun y => x * y % p)).tail (x :: q)

/-- The quotient and the remainder by a polynomial with the leading coefficient one. -/
def divMod (p : Nat) (a b : ModPoly) : ModPoly × ModPoly :=
  if a.length < b.length then ([], a)
  else
    let (q, r) := divAux p b.reverse (a.length - b.length + 1) a.reverse []
    (trim q.reverse, trim r.reverse)

/-- The polynomial with the leading coefficient one. -/
def monic (p : Nat) (a : ModPoly) : ModPoly :=
  match a.getLast? with
  | none => []
  | some c => scale p (inverseMod p c) a

def gcdAux (p : Nat) : Nat → ModPoly → ModPoly → ModPoly
  | 0, a, _ => a
  | fuel + 1, a, b =>
    if b.isEmpty then monic p a else
      let b := monic p b
      gcdAux p fuel b (divMod p a b).2

/-- The greatest common divisor, with the leading coefficient one. -/
def gcd (p : Nat) (a b : ModPoly) : ModPoly := gcdAux p (a.length + b.length + 2) a b

/-- A power modulo a polynomial. -/
def powModPoly (p : Nat) (f : ModPoly) : Nat → ModPoly → Nat → ModPoly → ModPoly
  | 0, _, _, acc => acc
  | fuel + 1, b, e, acc =>
    if e = 0 then acc
    else
      let acc := if e % 2 = 1 then (divMod p (mul p acc b) f).2 else acc
      powModPoly p f fuel (divMod p (mul p b b) f).2 (e / 2) acc

/-- The formal derivative. -/
def derivative (p : Nat) (a : ModPoly) : ModPoly :=
  trim ((a.zipIdx.map fun (c, i) => c * i % p).tail)

/-! ## Factors -/

/-- The products of the factors of each degree, of a polynomial without repeated factors.
`power` is the variable raised to a power of the prime. -/
def byDegree (p : Nat) : Nat → Nat → ModPoly → ModPoly → List (Nat × ModPoly)
  | 0, _, f, _ => if f.length ≤ 1 then [] else [(f.length - 1, f)]
  | fuel + 1, d, f, power =>
    if f.length - 1 < 2 * d then if f.length ≤ 1 then [] else [(f.length - 1, f)]
    else
      let power := powModPoly p f (p.log2 + 2) (divMod p power f).2 p [1]
      let g := gcd p f (sub p power [0, 1])
      if g.length ≤ 1 then byDegree p fuel (d + 1) f power
      else (d, g) :: byDegree p fuel (d + 1) (divMod p f g).1 power

/-- A polynomial to split with: its coefficients are the digits of a number in base five. -/
def splitter (n : Nat) : ModPoly := trim ((Nat.toDigits 5 (n + 5)).map fun c => c.toNat - 48)

/-- Splits a product of factors of the degree `d` with one splitter after another. -/
def splitEqual (p d : Nat) : Nat → Nat → ModPoly → List ModPoly
  | 0, _, f => [f]
  | fuel + 1, n, f =>
    if f.length - 1 ≤ d then [f]
    else
      let e := (p ^ d - 1) / 2
      let h := powModPoly p f (e.log2 + 2) (divMod p (splitter n) f).2 e [1]
      let g := gcd p f (sub p h [1])
      if g.length ≤ 1 || g.length = f.length then splitEqual p d fuel (n + 1) f
      else splitEqual p d fuel (n + 1) g ++ splitEqual p d fuel (n + 1) (divMod p f g).1

/-- The factors of a polynomial without repeated factors, with the leading coefficient
one. -/
def factors (p : Nat) (f : ModPoly) : List ModPoly :=
  (byDegree p f.length 1 (monic p f) [0, 1]).flatMap fun (d, g) =>
    splitEqual p d (40 + 10 * g.length) 0 g

end ModPoly

end Reckoner
