-- Decimals with a set number of places or digits. The exact value of a double is rounded
-- once, and a tie goes to the even neighbour.
import Reckoner.Number.Text

namespace Reckoner

open scoped CoreArithmetic

/-- `num / den` rounded to a whole number. -/
def roundQuotient (num den : Nat) : Nat :=
  let q := num / den
  let r := num % den
  if 2 * r < den then q
  else if den < 2 * r then q + 1
  else if q % 2 = 0 then q else q + 1

/-- A rounded quotient lies within half a unit of the quotient. -/
theorem roundQuotient_near (num den : Nat) (h : 0 < den) :
    2 * (roundQuotient num den * den) ≤ 2 * num + den ∧
      2 * num ≤ 2 * (roundQuotient num den * den) + den := by
  have e : den * (num / den) + num % den = num := Nat.div_add_mod num den
  have l : num % den < den := Nat.mod_lt _ h
  simp only [roundQuotient]
  generalize num / den = q at *
  generalize num % den = r at *
  have hq : (q + 1) * den = q * den + den := by rw [Nat.add_mul]; simp
  have hc : den * q = q * den := Nat.mul_comm ..
  split
  · omega
  · split
    · omega
    · split <;> omega

/-- A positive `p / q` times `10 ^ places`, rounded to a whole number. -/
def roundScaled (p q : Nat) (places : Int) : Nat :=
  if 0 ≤ places then roundQuotient (p * 10 ^ places.toNat) q
  else roundQuotient p (q * 10 ^ (-places).toNat)

/-- The text of `n / 10 ^ places`. -/
def placesText (places n : Nat) : String :=
  let digits := (natText n).toList
  let digits := List.replicate (places + 1 - digits.length) '0' ++ digits
  let front := digits.take (digits.length - places)
  let back := digits.drop (digits.length - places)
  String.ofList front ++ (if places = 0 then "" else "." ++ String.ofList back)

/-- The first `count` digits of a positive `p / q`, and the exponent of the first one. -/
def significant (count p q : Nat) : Nat × Int :=
  let top := leadingExponent p q
  let n := roundScaled p q ((count : Int) - 1 - top)
  if n = 10 ^ count then (10 ^ (count - 1), top + 1) else (n, top)

end Reckoner
