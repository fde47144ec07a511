-- Factors modulo a prime, lifted to a power of the prime: each step squares the modulus and
-- corrects two factors and the numbers that show that they share nothing.
import Reckoner.Number.Power
import Reckoner.Polynomial.Modular

namespace Reckoner

open scoped CoreArithmetic

namespace ModPoly

/-! ## Coprime polynomials -/

/-- The chain of remainders of two polynomials modulo a prime, each with its multiplier of the
first and of the second one. The last multipliers are scaled to a common divisor of one. -/
def bezoutAux (p : Nat) : Nat → ModPoly × ModPoly × ModPoly → ModPoly × ModPoly × ModPoly →
    ModPoly × ModPoly
  | 0, (_, s, t), _ => (s, t)
  | fuel + 1, (a, s, t), (b, u, v) =>
    let finish := inverseMod p (a.getLast?.getD 1)
    match b.getLast? with
    | none => (scale p finish s, scale p finish t)
    | some c =>
      let k := inverseMod p c
      let (b, u, v) := (scale p k b, scale p k u, scale p k v)
      let (q, r) := divMod p a b
      bezoutAux p fuel (b, u, v) (r, sub p s (mul p q u), sub p t (mul p q v))

/-- Multipliers `s` and `t` with `s * a + t * b = 1` modulo the prime `p`, for `a` and `b` that
have no common divisor. -/
def bezout (p : Nat) (a b : ModPoly) : ModPoly × ModPoly :=
  bezoutAux p (a.length + b.length + 2) (a, [1], []) (b, [], [1])

/-! ## Lifting -/

/-- Two factors of a polynomial modulo a number, with multipliers that show that they have no
common divisor. -/
structure Split where
  left : ModPoly
  right : ModPoly
  s : ModPoly
  t : ModPoly

/-- The split modulo `m`, from one modulo a number whose square `m` divides. The right factor has
the leading coefficient one. -/
def Split.lift (m : Nat) (f : ModPoly) (x : Split) : Split :=
  let add := fun (a b : ModPoly) => trim (addAux m a b)
  let error := sub m f (mul m x.left x.right)
  let (q, r) := divMod m (mul m x.s error) x.right
  let left := add x.left (add (mul m x.t error) (mul m q x.left))
  let right := add x.right r
  let excess := sub m (add (mul m x.s left) (mul m x.t right)) [1]
  let (c, d) := divMod m (mul m x.s excess) right
  ⟨left, right, sub m x.s d, sub m (sub m x.t (mul m x.t excess)) (mul m c left)⟩

/-- The split modulo `m` squared so many times. -/
def Split.liftTimes (m : Nat) (f : ModPoly) : Nat → Split → Split
  | 0, x => x
  | n + 1, x =>
    let y := Split.liftTimes m f n x
    let modulus := m ^ 2 ^ (n + 1)
    y.lift modulus (trim (f.map (· % modulus)))

/-- Lifts the factors modulo `p` of a polynomial with the leading coefficient one, to the modulus
that is `p` squared `times` times. -/
def liftFactors (p times : Nat) : Nat → ModPoly → List ModPoly → List ModPoly
  | 0, f, _ => [f]
  | fuel + 1, f, parts =>
    if parts.length ≤ 1 then [f]
    else
      let half := parts.length / 2
      let left := parts.take half
      let right := parts.drop half
      let g := left.foldl (mul p) [1]
      let h := right.foldl (mul p) [1]
      let (s, t) := bezout p g h
      let x := Split.liftTimes p f times ⟨g, h, s, t⟩
      liftFactors p times fuel x.left left ++ liftFactors p times fuel x.right right

/-- How often `p` has to be squared to pass a bound. -/
def squaringsPast (bound : Nat) : Nat → Nat → Nat
  | 0, _ => 0
  | fuel + 1, m => if bound < m then 0 else squaringsPast bound fuel (m * m) + 1

/-- The inverse of `a` modulo `p ^ k`. -/
def inverseModPower (p k a : Nat) : Nat :=
  let m := p ^ k
  let e := p ^ (k - 1) * (p - 1) - 1
  powMod m (e.log2 + 2) (a % m) e 1

end ModPoly

end Reckoner
