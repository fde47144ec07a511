-- Binary fractions: a whole number times a power of two, rounded to a number of
-- bits. A result is exact before it is rounded, so each operation rounds once.
import Reckoner.Number.Power

namespace Reckoner

open scoped CoreArithmetic

/-! ## The value -/

/-- The number `man * 2 ^ exp`. -/
structure Binary where
  man : Int
  exp : Int
deriving DecidableEq

/-- How a result that does not fit is brought to the bits that are kept. -/
inductive Rounding where
  /-- The extra bits are dropped. -/
  | towardZero
  /-- Extra bits count as one more unit. -/
  | awayFromZero
  /-- The closest value is taken, and of two equally close ones the even one. -/
  | nearest
deriving DecidableEq

/-- The mode for a divisor under which the quotient is rounded in the given mode. -/
def Rounding.forDivisor : Rounding → Rounding
  | .towardZero => .awayFromZero
  | .awayFromZero => .towardZero
  | .nearest => .nearest

/-- The number of binary digits of `n`; zero has none. -/
def bitLength (n : Nat) : Nat := if n = 0 then 0 else n.log2 + 1

/-- The number of zero bits that end a positive `n`. -/
def trailingZeros (n : Nat) : Nat := (n ^^^ (n &&& (n - 1))).log2

/-- `±n`, negative when `negative` holds. -/
def withSign (negative : Bool) (n : Nat) : Int := if negative then -(n : Int) else n

namespace Binary

/-- Zero. -/
def zero : Binary := ⟨0, 0⟩

/-- The whole number `n`. -/
def ofInt (n : Int) : Binary := ⟨n, 0⟩

/-- No fraction is written with more bits than it needs: the mantissa is odd, or the
value is zero. -/
def trim (b : Binary) : Binary :=
  if b.man = 0 then zero
  else
    let t := trailingZeros b.man.natAbs
    ⟨withSign (decide (b.man < 0)) (b.man.natAbs >>> t), b.exp + t⟩

/-- The value as a rational number. -/
def toRat (b : Binary) : Rat :=
  if 0 ≤ b.exp then ((b.man * 2 ^ b.exp.toNat : Int) : Rat)
  else mkRat b.man (2 ^ (-b.exp).toNat)

/-- A value below one half of a unit goes down and one above goes up. -/
def roundsUp (mode : Rounding) (kept rest half : Nat) : Bool :=
  match mode with
  | .towardZero => false
  | .awayFromZero => decide (0 < rest)
  | .nearest => decide (half < rest) || (rest == half && kept % 2 == 1)

/-- `n` without its lowest `shift` bits, rounded. -/
def roundShift (mode : Rounding) (n shift : Nat) : Nat :=
  if shift = 0 then n
  else
    let kept := n >>> shift
    let rest := n - (kept <<< shift)
    if roundsUp mode kept rest (1 <<< (shift - 1)) then kept + 1 else kept

/-- The value kept to `prec` bits. -/
def round (mode : Rounding) (prec : Nat) (b : Binary) : Binary :=
  let n := b.man.natAbs
  let len := bitLength n
  if len ≤ prec then b.trim
  else
    let shift := len - prec
    trim ⟨withSign (decide (b.man < 0)) (roundShift mode n shift), b.exp + shift⟩

/-- `p / q` kept to `prec` bits. One more bit stands for all that the division leaves
over, so the rounding sees on which side of the middle the quotient lies. -/
def ofQuotient (mode : Rounding) (prec : Nat) (p : Int) (q : Nat) : Binary :=
  let n := p.natAbs
  let shift := prec + 3 + bitLength q - bitLength n
  let scaled := n <<< shift
  let rest := if scaled % q = 0 then 0 else 1
  round mode prec ⟨withSign (decide (p < 0)) (2 * (scaled / q) + rest), -(shift : Int) - 1⟩

/-- A rational number kept to `prec` bits. -/
def ofRat (mode : Rounding) (prec : Nat) (x : Rat) : Binary :=
  ofQuotient mode prec x.num x.den

/-! ## Arithmetic -/

def neg (b : Binary) : Binary := ⟨-b.man, b.exp⟩

def abs (b : Binary) : Binary := ⟨b.man.natAbs, b.exp⟩

/-- The exact sum. -/
def add (a b : Binary) : Binary :=
  if a.exp ≤ b.exp then trim ⟨a.man + b.man * 2 ^ (b.exp - a.exp).toNat, a.exp⟩
  else trim ⟨a.man * 2 ^ (a.exp - b.exp).toNat + b.man, b.exp⟩

def sub (a b : Binary) : Binary := add a (neg b)

/-- The exponent of the first power of two above the absolute value. -/
def magnitude (b : Binary) : Int := b.exp + bitLength b.man.natAbs

/-- The sum of a value and one that lies wholly below the bits of its sum, kept to `prec` bits:
the small one only tells on which side of the large one the sum lies. -/
def addTiny (mode : Rounding) (prec : Nat) (big small : Binary) : Binary :=
  round mode prec ⟨big.man * 2 ^ (prec + 4) + small.man.sign, big.exp - (prec + 4 : Nat)⟩

/-- The sum kept to `prec` bits. -/
def addRounded (mode : Rounding) (prec : Nat) (a b : Binary) : Binary :=
  if a.man = 0 then b.round mode prec
  else if b.man = 0 then a.round mode prec
  else if b.magnitude + (prec + 4 : Nat) < a.exp then addTiny mode prec a b
  else if a.magnitude + (prec + 4 : Nat) < b.exp then addTiny mode prec b a
  else (add a b).round mode prec

/-- The exact sum, less what lies more than `bits` bits below the rest of it. -/
def addWithin (bits : Nat) (a b : Binary) : Binary :=
  if a.man ≠ 0 && a.magnitude + (bits : Int) < b.exp then b
  else if b.man ≠ 0 && a.man ≠ 0 && b.magnitude + (bits : Int) < a.exp then a
  else add a b

/-- The exact product. -/
def mul (a b : Binary) : Binary := trim ⟨a.man * b.man, a.exp + b.exp⟩

/-- The value times `2 ^ k`. -/
def scale (b : Binary) (k : Int) : Binary := ⟨b.man, b.exp + k⟩

/-- The quotient kept to `prec` bits. The divisor is not zero. -/
def div (mode : Rounding) (prec : Nat) (a b : Binary) : Binary :=
  let q := ofQuotient mode prec (if b.man < 0 then -a.man else a.man) b.man.natAbs
  trim ⟨q.man, q.exp + a.exp - b.exp⟩

/-- The first `work` bits of a mantissa with its exponent; the bits after them are dropped, or
count as one more unit when `up` holds. -/
def leadingBits (up : Bool) (work n : Nat) (e : Int) : Nat × Int :=
  let len := bitLength n
  if len ≤ work then (n, e)
  else
    (roundShift (if up then .awayFromZero else .towardZero) n (len - work), e + (len - work : Nat))

/-- Multiplies `done` by the power of `base` that the bits of `n` name. No product keeps more
than `work` bits. -/
def powBits (up : Bool) (work : Nat) : Nat → Nat → Nat × Int → Nat × Int → Nat × Int
  | 0, _, _, done => done
  | fuel + 1, n, base, done =>
    let done := if n % 2 = 1 then
        leadingBits up work (done.1 * base.1) (done.2 + base.2)
      else done
    if n ≤ 1 then done
    else powBits up work fuel (n / 2) (leadingBits up work (base.1 * base.1) (2 * base.2)) done

/-- A power kept to `prec` bits. One that fits in a thousand bits is exact before it is rounded;
a longer one is multiplied up with a few spare bits for each bit of the exponent. -/
def powNat (mode : Rounding) (prec : Nat) (b : Binary) (n : Nat) : Binary :=
  let b := b.trim
  let m := b.man.natAbs
  let negative := decide (b.man < 0) && n % 2 == 1
  if n = 0 then ofInt 1
  else if m = 1 then ⟨withSign negative 1, b.exp * n⟩
  else if n ≤ 2 || bitLength m * n < 1000 then
    round mode prec ⟨withSign negative (m ^ n), b.exp * n⟩
  else
    let work := prec + 4 * bitLength n + 4
    let (m, e) := powBits (mode == .awayFromZero) work (bitLength n) n (m, b.exp) (1, 0)
    round mode prec ⟨withSign negative m, e⟩

/-- A whole power of a value other than zero, kept to `prec` bits. A negative power is one over
a power with five bits more. -/
def powInt (mode : Rounding) (prec : Nat) (b : Binary) (n : Int) : Binary :=
  if 0 ≤ n then powNat mode prec b n.toNat
  else if n = -1 then div mode prec (ofInt 1) b
  else div mode prec (ofInt 1) (powNat mode.forDivisor (prec + 5) b n.natAbs)

/-- The whole part of the square root of `n`, by steps that each at least keep an upper
bound. -/
def rootStep (fuel n guess : Nat) : Nat :=
  match fuel with
  | 0 => guess
  | fuel + 1 =>
    let next := (guess + n / guess) / 2
    if next < guess then rootStep fuel n next else guess

/-- The whole part of the square root of `n`. -/
def natRoot (n : Nat) : Nat :=
  if n = 0 then 0 else rootStep (bitLength n + 2) n (1 <<< ((bitLength n + 1) / 2))

/-- The square root of a value that is not negative, kept to `prec` bits. -/
def sqrt (mode : Rounding) (prec : Nat) (b : Binary) : Binary :=
  let n := b.man.natAbs
  let want := 2 * prec + 6
  let shift := want - bitLength n
  let shift := if (b.exp - shift) % 2 = 0 then shift else shift + 1
  let scaled := n <<< shift
  let r := natRoot scaled
  let rest := if r * r = scaled then 0 else 1
  round mode prec ⟨2 * r + rest, (b.exp - shift) / 2 - 1⟩

/-! ## Order -/

/-- The sign of the value: -1, 0 or 1. -/
def sign (b : Binary) : Int := b.man.sign

def cmp (a b : Binary) : Ordering := compare (addRounded .nearest 4 a b.neg).man 0

def lt (a b : Binary) : Bool := cmp a b == .lt

/-- The largest whole number not above the value. -/
def floor (b : Binary) : Int :=
  if 0 ≤ b.exp then b.man * 2 ^ b.exp.toNat else b.man / 2 ^ (-b.exp).toNat

/-! ## Double precision -/

/-- The bits of the double closest to `n * 2 ^ e`. A value past the largest double is
infinite, and one below the smallest is zero. -/
def doubleBits (n : Nat) (e : Int) : Nat :=
  let len := bitLength n
  let top := e + len - 1
  if n = 0 || top < -1100 then 0
  else if 1023 < top then 2047 <<< 52
  else
    let low := if -1022 ≤ top then top - 52 else -1074
    let kept :=
      if low ≤ e then n <<< (e - low).toNat else roundShift .nearest n (low - e).toNat
    let bits := if -1022 ≤ top then (top + 1022).toNat <<< 52 else 0
    let sum := bits + kept
    min sum (2047 <<< 52)

/-- The double closest to the value. -/
def toFloat (b : Binary) : Float :=
  let bits := doubleBits b.man.natAbs b.exp
  let bits := if b.man < 0 then bits + (1 <<< 63) else bits
  Float.ofBits (UInt64.ofNat bits)

/-- The value of a finite double. -/
def ofFloat? (x : Float) : Option Binary :=
  let bits := x.toBits.toNat
  let negative := decide ((1 <<< 63) ≤ bits)
  let expBits := (bits >>> 52) % 2048
  let frac := bits % (1 <<< 52)
  if expBits = 2047 then none
  else if expBits = 0 then some (trim ⟨withSign negative frac, -1074⟩)
  else some (trim ⟨withSign negative (frac + (1 <<< 52)), (expBits : Int) - 1075⟩)

/-- The rational number closest to a given decimal, kept to `prec` bits. -/
def ofDecimal (mode : Rounding) (prec : Nat) (digits : Nat) (exponent : Int) : Binary :=
  if 0 ≤ exponent then ofQuotient mode prec (digits * 10 ^ exponent.toNat : Nat) 1
  else ofQuotient mode prec digits (10 ^ (-exponent).toNat)

end Binary

end Reckoner
