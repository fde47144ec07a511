-- Roots and factors of whole numbers, as far as a radical is taken apart: exact roots,
-- perfect powers, and the factors that trial division finds.
import Reckoner.Number.Binary

namespace Reckoner

open scoped CoreArithmetic

/-! ## Roots -/

/-- Steps of the method of tangents for the `k`-th root, each of which keeps an upper
bound, until one no longer goes down. -/
def nthRootStep (k n : Nat) : Nat → Nat → Nat
  | 0, guess => guess
  | fuel + 1, guess =>
    let next := ((k - 1) * guess + n / guess ^ (k - 1)) / k
    if next < guess then nthRootStep k n fuel next else guess

/-- The whole part of the `k`-th root of `n`. -/
def nthRoot (k n : Nat) : Nat :=
  if n ≤ 1 || k ≤ 1 then n
  else if bitLength n ≤ k then 1
  else nthRootStep k n (2 * bitLength n + 8) (1 <<< ((bitLength n + k - 1) / k))

/-- The `k`-th root of `n` when it is a whole number. -/
def exactRoot? (k n : Nat) : Option Nat :=
  let r := nthRoot k n
  if r ^ k = n then some r else none

/-- Takes `k`-th roots as long as they are exact; `e` counts the exponent taken. -/
def peelRoots (k : Nat) : Nat → Nat → Nat → Nat × Nat
  | 0, n, e => (n, e)
  | fuel + 1, n, e =>
    match exactRoot? k n with
    | some r => peelRoots k fuel r (e * k)
    | none => (n, e)

/-- The smallest base of which `n` is a power, and the exponent. -/
def powerParts (n : Nat) : Nat × Nat :=
  if n ≤ 3 then (n, 1)
  else
    (List.range (bitLength n)).foldl (fun (b, e) k =>
      if k < 2 || bitLength b < k then (b, e) else peelRoots k (bitLength n) b e) (n, 1)

/-! ## Trial division -/

/-- Divides `d` out of `n` as often as it goes; `e` counts the times. -/
def divideOut (d : Nat) : Nat → Nat → Nat → Nat × Nat
  | 0, n, e => (n, e)
  | fuel + 1, n, e => if n % d = 0 then divideOut d fuel (n / d) (e + 1) else (n, e)

/-- The factors of `n` from `d` up, found with `fuel` trials. What is left counts as one
factor, or as a power of one. -/
def trialFactors : Nat → Nat → Nat → List (Nat × Nat)
  | 0, n, _ => if n ≤ 1 then [] else [powerParts n]
  | fuel + 1, n, d =>
    if n ≤ 1 then []
    else if n < d * d then [(n, 1)]
    else
      let step := if d = 2 then 1 else 2
      if n % d = 0 then
        let (m, e) := divideOut d (bitLength n) n 0
        (d, e) :: trialFactors fuel m (d + step)
      else trialFactors fuel n (d + step)

/-- How many trial divisors are used. -/
def trialLimit : Nat := 2 ^ (14 : Nat)

/-- The factors of a positive number with their exponents. -/
def factorsOf (n : Nat) : List (Nat × Nat) := trialFactors trialLimit n 2

end Reckoner
