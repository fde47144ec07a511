-- Elementary functions of binary fractions. Each is summed as a series on whole
-- numbers with spare bits, and rounded once to the bits that are asked for.
import Reckoner.Number.Binary

namespace Reckoner

open scoped CoreArithmetic

namespace Binary

/-! ## Fixed-point series -/

/-- The bits that each series carries beyond the bits asked for. -/
def spareBits : Nat := 64

/-- The value as a whole number of units `2 ^ (-wp)`, rounded down. -/
def toFixed (b : Binary) (wp : Nat) : Int :=
  let e := b.exp + wp
  if 0 ≤ e then b.man * 2 ^ e.toNat else b.man / 2 ^ (-e).toNat

def ofFixed (n : Int) (wp : Nat) : Binary := trim ⟨n, -(wp : Int)⟩

/-- The sum of `±power / (2k + 1)` over the odd powers of `1 / q`. -/
def arctanTerms (fuel : Nat) (alternate : Bool) (q2 power : Nat) (k : Nat) (acc : Int) : Int :=
  match fuel with
  | 0 => acc
  | fuel + 1 =>
    if power = 0 then acc
    else
      let term : Int := power / (2 * k + 1)
      let acc := if alternate && k % 2 == 1 then acc - term else acc + term
      arctanTerms fuel alternate q2 (power / q2) (k + 1) acc

/-- `arctan (1 / q)` in units `2 ^ (-wp)`. -/
def arctanInverse (q wp : Nat) : Int := arctanTerms (wp + 2) true (q * q) ((1 <<< wp) / q) 0 0

/-- `artanh (1 / q)` in units `2 ^ (-wp)`. -/
def artanhInverse (q wp : Nat) : Int := arctanTerms (wp + 2) false (q * q) ((1 <<< wp) / q) 0 0

/-- The circle constant in units `2 ^ (-wp)`. -/
def piFixed (wp : Nat) : Int :=
  let w := wp + 16
  (16 * arctanInverse 5 w - 4 * arctanInverse 239 w) >>> (16 : Nat)

/-- The natural logarithm of two in units `2 ^ (-wp)`. -/
def ln2Fixed (wp : Nat) : Int :=
  let w := wp + 16
  (18 * artanhInverse 26 w - 2 * artanhInverse 4801 w + 8 * artanhInverse 8749 w) >>> (16 : Nat)

/-- The terms `r ^ k / k!` from the given one on. -/
def expTerms (fuel : Nat) (r : Int) (wp k : Nat) (term acc : Int) : Int :=
  match fuel with
  | 0 => acc
  | fuel + 1 =>
    let next := ((term * r) >>> wp) / (k + 1)
    if next = 0 || next = -1 then acc else expTerms fuel r wp (k + 1) next (acc + next)

/-- Repeated squaring in units `2 ^ (-wp)`. -/
def squareTimes (n : Nat) (x : Int) (wp : Nat) : Int :=
  match n with
  | 0 => x
  | n + 1 => squareTimes n ((x * x) >>> wp) wp

/-- `e ^ r` for a small `r` in units `2 ^ (-wp)`. -/
def expFixed (r : Int) (wp : Nat) : Int :=
  let w := wp + 24
  let r := (r <<< (24 : Nat)) >>> (8 : Nat)
  let one : Int := 1 <<< w
  squareTimes 8 (expTerms (w + 8) r w 0 one one) w >>> (24 : Nat)

/-- The terms of the sine or the cosine: each is the one before times
`-r² / (k (k + 1))`. -/
def waveTerms (fuel : Nat) (r2 : Int) (wp k : Nat) (term acc : Int) : Int :=
  match fuel with
  | 0 => acc
  | fuel + 1 =>
    let next := -(((term * r2) >>> wp) / ((k : Int) * (k + 1)))
    if next = 0 || next = 1 then acc else waveTerms fuel r2 wp (k + 2) next (acc + next)

/-- Sine and cosine of a small angle in units `2 ^ (-wp)`. -/
def waveFixed (r : Int) (wp : Nat) : Int × Int :=
  let r2 := (r * r) >>> wp
  let one : Int := 1 <<< wp
  (waveTerms (wp + 8) r2 wp 2 r r, waveTerms (wp + 8) r2 wp 1 one one)

/-- The series of `artanh` for a small `t` in units `2 ^ (-wp)`. -/
def artanhTerms (fuel : Nat) (t2 : Int) (wp k : Nat) (power acc : Int) : Int :=
  match fuel with
  | 0 => acc
  | fuel + 1 =>
    if power = 0 || power = -1 then acc
    else artanhTerms fuel t2 wp (k + 1) ((power * t2) >>> wp) (acc + power / (2 * k + 1))

/-- The series of `arctan` for a small `t` in units `2 ^ (-wp)`. -/
def arctanSmall (fuel : Nat) (t2 : Int) (wp k : Nat) (power acc : Int) : Int :=
  match fuel with
  | 0 => acc
  | fuel + 1 =>
    if power = 0 || power = -1 || power = 1 then acc
    else arctanSmall fuel t2 wp (k + 1) (-((power * t2) >>> wp)) (acc + power / (2 * k + 1))

/-! ## The functions -/

/-- The circle constant to `prec` bits. -/
def pi (mode : Rounding) (prec : Nat) : Binary :=
  round mode prec (ofFixed (piFixed (prec + spareBits)) (prec + spareBits))

/-- The exponential to `prec` bits. -/
def exponential (mode : Rounding) (prec : Nat) (x : Binary) : Binary :=
  if x.man = 0 then ofInt 1
  else
    let wp := prec + spareBits + x.magnitude.toNat
    let t := toFixed x wp
    let ln2 := ln2Fixed wp
    let k := (2 * t + ln2) / (2 * ln2)
    let r := t - k * ln2
    round mode prec ((ofFixed (expFixed r wp) wp).scale k)

/-- The natural logarithm of a positive value to `prec` bits. The value is brought
close to one by a power of two; next to one itself more bits are carried. -/
def ln (mode : Rounding) (prec : Nat) (x : Binary) : Binary :=
  let diff := sub x (ofInt 1)
  if diff.man = 0 then zero
  else
    let k := x.magnitude
    let m := x.scale (-k)
    let (m, k) := if lt m ⟨3, -2⟩ then (m.scale 1, k - 1) else (m, k)
    let small := if k = 0 then (-(sub m (ofInt 1)).magnitude).toNat else 0
    let wp := prec + spareBits + small + bitLength k.natAbs
    let one : Int := 1 <<< wp
    let f := toFixed m wp
    let t := ((f - one) <<< wp) / (f + one)
    let t2 := (t * t) >>> wp
    let s := 2 * artanhTerms (wp + 8) t2 wp 0 t 0
    round mode prec (ofFixed (s + k * ln2Fixed wp) wp)

/-- Sine and cosine to `prec` bits. The angle is brought within an eighth of a turn of
a multiple of a quarter turn. -/
def sinCos (mode : Rounding) (prec : Nat) (x : Binary) : Binary × Binary :=
  if x.man = 0 then (zero, ofInt 1)
  else
    let wp := 2 * prec + spareBits + x.magnitude.toNat + (-x.magnitude).toNat
    let t := toFixed x wp
    let quarter := piFixed wp >>> (1 : Nat)
    let k := (2 * t + quarter) / (2 * quarter)
    let (s, c) := waveFixed (t - k * quarter) wp
    let (s, c) := match (k % 4).toNat with
      | 0 => (s, c)
      | 1 => (c, -s)
      | 2 => (-s, -c)
      | _ => (-c, s)
    (round mode prec (ofFixed s wp), round mode prec (ofFixed c wp))

/-- The angle whose tangent is `x`, to `prec` bits. An angle past an eighth of a turn is
found from its complement, and each halving of the angle halves the tangent's size. -/
def arctan (mode : Rounding) (prec : Nat) (x : Binary) : Binary :=
  if x.man = 0 then zero
  else
    let wp := 2 * prec + spareBits + (-x.magnitude).toNat + x.magnitude.toNat
    let one : Int := 1 <<< wp
    let a := toFixed x.abs wp
    let inverted := decide (one < a)
    let t := if inverted then (one <<< wp) / a else a
    -- one halving: tan (θ / 2) = t / (1 + √(1 + t²))
    let halve := fun (t : Int) =>
      (t <<< wp) / (one + (natRoot ((one * one + t * t).toNat) : Int))
    let t := halve (halve (halve t))
    let t2 := (t * t) >>> wp
    let s := 8 * arctanSmall (wp + 8) t2 wp 0 t 0
    let s := if inverted then (piFixed wp >>> (1 : Nat)) - s else s
    round mode prec (ofFixed (if x.man < 0 then -s else s) wp)

/-- The angle of the point `(x, y)`, to `prec` bits. -/
def angle (mode : Rounding) (prec : Nat) (y x : Binary) : Binary :=
  let wp := prec + spareBits
  if x.man = 0 then
    if y.man = 0 then zero
    else
      let half := (pi .nearest wp).scale (-1)
      round mode prec (if y.man < 0 then half.neg else half)
  else
    let a := arctan .nearest wp (div .nearest wp y x)
    if 0 < x.man then round mode prec a
    else if y.man < 0 then round mode prec (sub a (pi .nearest wp))
    else round mode prec (add a (pi .nearest wp))

/-- A positive value to a real power, to `prec` bits. -/
def power (mode : Rounding) (prec : Nat) (x y : Binary) : Binary :=
  let wp := prec + spareBits + y.magnitude.toNat + (bitLength x.magnitude.natAbs)
  exponential mode prec (mul y (ln .nearest wp x))

end Binary

end Reckoner
