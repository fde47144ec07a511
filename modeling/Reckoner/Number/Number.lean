-- The numbers of the algebra: exact rationals, binary fractions kept to a number of
-- bits, the two infinities, and the value of an undefined operation.
import Reckoner.Number.Elementary

namespace Reckoner

/-! ## The type -/

/-- A number that arithmetic folds at once. -/
inductive Number where
  /-- A rational number. -/
  | exact (q : Rat)
  /-- A measured number, kept to `prec` bits. -/
  | approx (value : Binary) (prec : Nat)
  /-- Positive infinity, or negative infinity when `negative` holds. -/
  | infinite (negative : Bool)
  /-- The value of an operation that has none. -/
  | undefined
deriving DecidableEq

namespace Number

def ofInt (n : Int) : Number := .exact n

/-- A measured value. One that came out as zero is the exact zero. -/
def settle (value : Binary) (prec : Nat) : Number :=
  if value.man = 0 then .exact 0 else .approx value prec

def isExact : Number → Bool
  | .exact _ => true
  | _ => false

def isApprox : Number → Bool
  | .approx _ _ => true
  | _ => false

def isInteger : Number → Bool
  | .exact q => q.den == 1
  | _ => false

def isFinite : Number → Bool
  | .exact _ | .approx _ _ => true
  | _ => false

def isZero : Number → Bool
  | .exact q => q == 0
  | .approx b _ => b.man == 0
  | _ => false

/-- The sign of the number: -1, 0 or 1. An undefined value has none. -/
def sign? : Number → Option Int
  | .exact q => some q.num.sign
  | .approx b _ => some b.man.sign
  | .infinite negative => some (if negative then -1 else 1)
  | .undefined => none

def isNegative (n : Number) : Bool := n.sign? == some (-1)

def isPositive (n : Number) : Bool := n.sign? == some 1

/-- The bits to which a number takes part in measured arithmetic: those of a measured
number, and none for the others. -/
def precision : Number → Nat
  | .approx _ p => p
  | _ => 0

/-- A finite number as a binary fraction of `prec` bits. -/
def toBinary? (prec : Nat) : Number → Option Binary
  | .exact q => some (Binary.ofRat .nearest prec q)
  | .approx b _ => some b
  | _ => none

/-- A finite number as a rational number. -/
def toRat? : Number → Option Rat
  | .exact q => some q
  | .approx b _ => some b.toRat
  | _ => none

/-! ## Arithmetic -/

def neg : Number → Number
  | .exact q => .exact (-q)
  | .approx b p => .approx b.neg p
  | .infinite n => .infinite (!n)
  | .undefined => .undefined

/-- A measured operation on two finite numbers: each is brought to the larger of the two
precisions, and the result is rounded to it. -/
def measured (op : Nat → Binary → Binary → Binary) (a b : Number) : Number :=
  let prec := max a.precision b.precision
  match a.toBinary? prec, b.toBinary? prec with
  | some x, some y => settle (op prec x y) prec
  | _, _ => .undefined

def add : Number → Number → Number
  | .exact p, .exact q => .exact (p + q)
  | .undefined, _ | _, .undefined => .undefined
  | .infinite m, .infinite n => if m = n then .infinite m else .undefined
  | .infinite m, _ | _, .infinite m => .infinite m
  | a, b => measured (fun prec x y => Binary.addRounded .nearest prec x y) a b

def sub (a b : Number) : Number := a.add b.neg

def mul : Number → Number → Number
  | .exact p, .exact q => .exact (p * q)
  | a, b =>
    if a.isFinite && b.isFinite then
      measured (fun prec x y => (x.mul y).round .nearest prec) a b
    else
      match a.sign?, b.sign? with
      | some s, some t =>
        if s * t = 0 then .undefined else .infinite (decide (s * t < 0))
      | _, _ => .undefined

/-- The quotient of a measured number by a finite one other than zero. -/
def divMeasured (a b : Number) : Number :=
  measured (fun prec x y => Binary.div .nearest prec x y) a b

/-- The order of a rational number and a binary fraction. They are compared as rational numbers
only where they are about as large. -/
def cmpMixed (q : Rat) (b : Binary) : Ordering :=
  let size : Int := (bitLength q.num.natAbs : Int) - bitLength q.den
  if q = 0 || b.man = 0 || q.num.sign ≠ b.sign then compare q.num.sign b.sign
  else if size + 2 < b.magnitude then compare 0 b.sign
  else if b.magnitude < size - 2 then compare b.sign 0
  else compare (q - b.toRat).num 0

/-- The order of two finite numbers. -/
def cmp : Number → Number → Ordering
  | .exact p, .exact q => compare (p - q).num 0
  | .exact q, .approx b _ => cmpMixed q b
  | .approx b _, .exact q => (cmpMixed q b).swap
  | .approx a _, .approx b _ => a.cmp b
  | .infinite true, .infinite true | .infinite false, .infinite false => .eq
  | .infinite true, _ | _, .infinite false => .lt
  | .infinite false, _ | _, .infinite true => .gt
  | _, _ => .eq

end Number

end Reckoner
