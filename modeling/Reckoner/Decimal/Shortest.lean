-- The fewest decimal digits that name a double: every decimal in an interval around the
-- double reads back as it, and the shortest one in that interval is taken.
import Reckoner.Number.Text

namespace Reckoner

open scoped CoreArithmetic

/-! ## The interval of a double -/

/-- A positive double as `man * 2 ^ exp`. Below a power of two the gap to the next smaller
double is half of the one above. -/
structure DoubleParts where
  man : Nat
  exp : Int
  narrowBelow : Bool

/-- The parts of the absolute value of a finite double. -/
def DoubleParts.ofBits (bits : Nat) : DoubleParts :=
  let e := (bits >>> 52) % 2048
  let f := bits % 2 ^ (52 : Nat)
  if e = 0 then ⟨f, -1074, false⟩
  else ⟨2 ^ (52 : Nat) + f, (e : Int) - 1075, decide (f = 0 ∧ 1 < e)⟩

/-- The order of `a * 10 ^ i` and `n * 2 ^ j`. -/
def compareScaled (a : Nat) (i : Int) (n : Nat) (j : Int) : Ordering :=
  compare (a * 10 ^ i.toNat * 2 ^ (-j).toNat) (n * 2 ^ j.toNat * 10 ^ (-i).toNat)

/-- Whether `digits * 10 ^ place` is closer to this double than to any other. The ends of the
interval belong to it when the last bit is even. -/
def DoubleParts.readsBack (x : DoubleParts) (digits : Nat) (place : Int) : Bool :=
  let low := if x.narrowBelow then 4 * x.man - 1 else 4 * x.man - 2
  let high := 4 * x.man + 2
  let closed := x.man % 2 == 0
  let below := compareScaled digits place low (x.exp - 2)
  let above := compareScaled digits place high (x.exp - 2)
  (below == .gt || (closed && below == .eq)) && (above == .lt || (closed && above == .eq))

/-! ## The search -/

/-- The value as a quotient of natural numbers. -/
def DoubleParts.quotient (x : DoubleParts) : Nat × Nat :=
  (x.man * 2 ^ x.exp.toNat, 2 ^ (-x.exp).toNat)

/-- The neighbour of the value on the grid `10 ^ place` that reads back, the closer one if
both do. -/
def DoubleParts.onGrid? (x : DoubleParts) (place : Int) : Option Nat :=
  let (p, q) := x.quotient
  let low := scaledFloor p q (-place)
  let lowFits := low ≠ 0 && x.readsBack low place
  let highFits := x.readsBack (low + 1) place
  if lowFits && highFits then
    -- twice the value against the sum of both
    match compareScaled (2 * low + 1) place (2 * x.man) x.exp with
    | .gt => some low
    | .lt => some (low + 1)
    | .eq => some (if low % 2 = 0 then low else low + 1)
  else if lowFits then some low
  else if highFits then some (low + 1)
  else none

/-- Digits without the zeros that end them, and how many there were. -/
def dropZeros : Nat → Nat → Int → Nat × Int
  | 0, n, place => (n, place)
  | fuel + 1, n, place =>
    if n % 10 = 0 && n ≠ 0 then dropZeros fuel (n / 10) (place + 1) else (n, place)

/-- The shortest digits of a positive double and the place of the last one. -/
def DoubleParts.shortest (x : DoubleParts) : Nat × Int :=
  let (p, q) := x.quotient
  let top := leadingExponent p q
  let found := (List.range 17).findSome? fun (i : Nat) =>
    (x.onGrid? (top - (i : Int))).map fun n => (n, top - (i : Int))
  match found with
  | some (n, place) => dropZeros 20 n place
  | none => (p, 0)

end Reckoner
