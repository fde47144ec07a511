-- Mental arithmetic: squares, cubes, products and quotients by the rules of the sutras. Each
-- rule writes down its steps, and its answer is checked by plain arithmetic.
import Reckoner.Solution.Basic
import Reckoner.Value.Arithmetic

namespace Reckoner

open scoped CoreArithmetic

namespace Vedic

/-! ## Operands -/

/-- The whole number, zero or more, that a number is. -/
def whole? : Value → Option Nat
  | .number (.whole n) => if 0 ≤ n then some n.toNat else none
  | .number (.measure x) =>
    if 0 ≤ x && x.isFinite && Double.isWhole x then (Double.toInt? x).map Int.toNat else none
  | _ => none

/-- The tens and units of a whole number of two digits. -/
def twoDigits? (v : Value) : Option (Nat × Nat) :=
  match whole? v with
  | some n => if 10 ≤ n && n ≤ 99 then some (n / 10, n % 10) else none
  | none => none

/-- The square of an operand by plain arithmetic. -/
def plainSquare (v : Value) : Except ValueFault Value := v.mul v

/-- The cube of an operand by plain arithmetic. -/
def plainCube (v : Value) : Except ValueFault Value := do (← v.mul v).mul v

/-! ## Squares -/

/-- The bases near which a square is taken from the deviation. -/
def bases : List Nat := [10, 100, 1000]

/-- Whether a number is less than a fifth of the base away from it. -/
def isNear (n base : Nat) : Bool := 5 * (n - base) < base && 5 * (base - n) < base

/-- The square of a number near a base. -/
def nearBaseSquare (n base : Nat) (given : Value) : Except ValueFault Solution := do
  let deviation : Int := n - base
  let left : Int := n + deviation
  let right := deviation * deviation
  let result := left * base + right
  return {
    method := "nikhilam_sutra"
    answer := result
    steps := [
      ← Value.line ["Using Nikhilam Sutra (base ", (base : Int), ")"],
      ← Value.line ["Number: ", (n : Int), ", Base: ", (base : Int), ", Deviation: ", deviation],
      ← Value.line ["Left part: ", (n : Int), " + (", deviation, ") = ", left],
      ← Value.line ["Right part: (", deviation, ")² = ", right],
      ← Value.line ["Result: ", left, " × ", (base : Int), " + ", right, " = ", result]]
    verified := (Value.whole result).equal (← plainSquare given)
    details := [("base", (base : Int)), ("deviation", deviation), ("left_part", left),
      ("right_part", right), ("original_number", given)] }

/-- The square of a number that ends in five. -/
def endsInFiveSquare (n : Nat) (given : Value) : Except ValueFault Solution := do
  let front : Int := n / 10
  let next := front + 1
  let left := front * next
  let result := left * 100 + 25
  return {
    method := "ekadhikena_purvena"
    answer := result
    steps := [
      "Using Ekadhikena Purvena Sutra (numbers ending in 5)",
      ← Value.line ["Number: ", (n : Int), " = ", front, "5"],
      ← Value.line ["Left part: ", front, " × (", front, " + 1) = ", front, " × ", next,
        " = ", left],
      "Right part: 25 (always for numbers ending in 5)",
      ← Value.line ["Result: ", left, "25 = ", result]]
    verified := (Value.whole result).equal (← plainSquare given)
    details := [("prefix", front), ("left_part", left), ("right_part", (25 : Int)),
      ("original_number", given)] }

/-- The square of a number with these tens and units. -/
def duplexSquare (tens units : Nat) (given : Value) : Except ValueFault Solution := do
  let tens : Int := tens
  let units : Int := units
  let number := tens * 10 + units
  let first := tens * tens
  let second := 2 * tens * units
  let third := units * units
  let result := first * 100 + second * 10 + third
  return {
    method := "duplex"
    answer := result
    steps := [
      "Using Duplex Method (2-digit numbers)",
      ← Value.line ["Number: ", number, " = ", tens, units],
      ← Value.line ["Step 1: ", tens, "² = ", first],
      ← Value.line ["Step 2: 2 × ", tens, " × ", units, " = ", second],
      ← Value.line ["Step 3: ", units, "² = ", third],
      ← Value.line ["Result: ", first, " × 100 + ", second, " × 10 + ", third, " = ", result]]
    verified := (Value.whole result).equal (← plainSquare given)
    details := [("duplexes", .wholes [first, second, third]), ("original_number", given)] }

/-- A square by plain multiplication. -/
def standardSquare (v : Value) : Except ValueFault Solution := do
  let result ← plainSquare v
  return {
    method := "standard"
    answer := result
    steps := [← Value.line [v, " × ", v, " = ", result]]
    verified := result.equal (← plainSquare v)
    details := [("original_number", v)] }

/-- The square of a number: from a base near it, from the five that it ends in, from its two
digits, or else by plain multiplication. -/
def square (v : Value) : Except ValueFault Solution :=
  match whole? v with
  | none => standardSquare v
  | some n =>
    match bases.find? (isNear n) with
    | some base => nearBaseSquare n base v
    | none =>
      if n % 10 = 5 then endsInFiveSquare n v
      else if 10 ≤ n ∧ n ≤ 99 then duplexSquare (n / 10) (n % 10) v
      else standardSquare v

/-! ## Products -/

/-- The product of two numbers with these tens and units, crosswise. -/
def crosswiseProduct (v w : Value) (a b : Nat × Nat) : Except ValueFault Solution := do
  let (a1, a0) : Int × Int := (a.1, a.2)
  let (b1, b0) : Int × Int := (b.1, b.2)
  let right := a0 * b0
  let cross := a0 * b1 + a1 * b0
  let left := a1 * b1
  let result := left * 100 + cross * 10 + right
  return {
    method := "urdhva_tiryagbhyam"
    answer := result
    steps := [
      "Using Urdhva Tiryagbhyam (Vertically and Crosswise)",
      ← Value.line ["Numbers: ", v, " = ", a1, a0, ", ", w, " = ", b1, b0],
      ← Value.line ["Step 1 (Right): ", a0, " × ", b0, " = ", right],
      ← Value.line ["Step 2 (Cross): (", a0, " × ", b1, ") + (", a1, " × ", b0, ") = ", cross],
      ← Value.line ["Step 3 (Left): ", a1, " × ", b1, " = ", left],
      ← Value.line ["Result: ", left, " × 100 + ", cross, " × 10 + ", right, " = ", result]]
    verified := (Value.whole result).equal (← v.mul w)
    details := [("right", right), ("cross", cross), ("left", left)] }

/-- A product by plain multiplication. -/
def standardProduct (v w : Value) : Except ValueFault Solution := do
  let result ← v.mul w
  return {
    method := "standard"
    answer := result
    steps := [← Value.line [v, " × ", w, " = ", result]]
    verified := result.equal (← v.mul w) }

/-- The product of two numbers; two numbers of two digits are multiplied crosswise. -/
def multiply (v w : Value) : Except ValueFault Solution :=
  match twoDigits? v, twoDigits? w with
  | some a, some b => crosswiseProduct v w a b
  | _, _ => standardProduct v w

/-! ## Cubes -/

/-- The cube of a number that ends in five, term by term. -/
def endsInFiveCube (n : Nat) (given : Value) : Except ValueFault Solution := do
  let a : Int := n / 10
  let term1 := 1000 * a ^ (3 : Nat)
  let term2 := 1500 * a ^ (2 : Nat)
  let term3 := 750 * a
  let term4 : Int := 125
  let result := term1 + term2 + term3 + term4
  return {
    method := "vedic_cube_5"
    answer := result
    steps := [
      "Using Vedic method for cubes ending in 5",
      ← Value.line ["Number: ", (n : Int), " = ", a,
        "5, so (10a + 5)³ = 1000a³ + 1500a² + 750a + 125"],
      ← Value.line ["1000a³ = 1000 × ", a, "³ = ", term1],
      ← Value.line ["1500a² = 1500 × ", a, "² = ", term2],
      ← Value.line ["750a = 750 × ", a, " = ", term3],
      "Constant = 125",
      ← Value.line ["Result: ", term1, " + ", term2, " + ", term3, " + ", term4, " = ", result]]
    verified := (Value.whole result).equal (← plainCube given)
    details := [("prefix", a), ("terms", .wholes [term1, term2, term3, term4])] }

/-- A cube by plain multiplication. -/
def standardCube (v : Value) : Except ValueFault Solution := do
  let result ← plainCube v
  return {
    method := "standard"
    answer := result
    steps := [← Value.line [v, "³ = ", v, " × ", v, " × ", v, " = ", result]]
    verified := result.equal (← plainCube v) }

/-- The cube of a number. -/
def cube (v : Value) : Except ValueFault Solution :=
  match whole? v with
  | some n => if n % 10 = 5 then endsInFiveCube n v else standardCube v
  | none => standardCube v

/-! ## Quotients -/

/-- The whole quotient of two numbers, and what it leaves. -/
def divide (v w : Value) : Except ValueFault Solution := do
  if w.equal (.whole 0) then
    return .failure "dhvajanka" "Division by zero" [] [("dividend", v), ("divisor", w)]
  let quotient ← v.wholeQuotient w
  let remainder ← v.remainder w
  return {
    method := "dhvajanka"
    answer := quotient
    steps := [← Value.line [v, " ÷ ", w], ← Value.line ["Quotient: ", quotient],
      ← Value.line ["Remainder: ", remainder]]
    verified := (← (← w.mul quotient).add remainder).equal v
    details := [("quotient", quotient), ("remainder", remainder)] }

end Vedic

end Reckoner
