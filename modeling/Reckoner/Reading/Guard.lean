-- The guard before a text is worked out: no power may have a large exponent or too many
-- digits. It looks at the expression as written, from the inside out.
import Reckoner.Reading.Meaning

namespace Reckoner

/-! ## Size -/

/-- The absolute value of a number, as far as a double holds it. -/
inductive Magnitude where
  | finite (b : Binary)
  | infinite
  | undefined

/-- A value of at most 53 bits, or infinity past the largest double. -/
def Magnitude.ofBinary (b : Binary) : Magnitude :=
  if 1024 < b.magnitude then .infinite else .finite b.abs

/-- The magnitude of a complex number. -/
def Magnitude.ofParts (re im : Number) : Magnitude :=
  match re, im with
  | .infinite _, _ | _, .infinite _ => .infinite
  | .undefined, _ | _, .undefined => .undefined
  | re, im =>
    match re.toBinary? 53, im.toBinary? 53 with
    | some x, some y =>
      if y.man = 0 then .ofBinary x
      else if x.man = 0 then .ofBinary y
      else .ofBinary (Binary.sqrt .nearest 53 ((x.mul x).add (y.mul y)))
    | _, _ => .undefined

/-- The magnitude of an expression without symbols, or nothing where it has no value. -/
def magnitude? (x : Expr) : Option Magnitude :=
  match x.toNumeric 57 with
  | .value re im => some (.ofParts (Builder.partNumber re) (Builder.partNumber im))
  | .zoo => some .undefined
  | .noValue | .symbolic => none

/-- Whether a magnitude is above a whole number. -/
def Magnitude.above (n : Nat) : Magnitude → Bool
  | .finite b => Binary.lt (.ofInt n) b
  | .infinite => true
  | .undefined => false

/-- The decimal logarithm, to 53 bits. -/
def log10 (b : Binary) : Binary :=
  Binary.div .nearest 53 (Binary.ln .nearest 120 b) (Binary.ln .nearest 120 (.ofInt 10))

/-- Whether a power with the magnitudes of its exponent and base has too many digits. -/
def hasTooManyDigits (exponent base : Magnitude) : Bool :=
  match exponent, base with
  | .finite e, .finite b =>
    Binary.lt (.ofInt 1) b &&
      Binary.lt (.ofInt maxPowerDigits) ((e.mul (log10 b)).round .nearest 53)
  | .finite e, .infinite => e.man ≠ 0
  | .infinite, .finite b => Binary.lt (.ofInt 1) b
  | .infinite, .infinite => true
  | _, _ => false

/-! ## Truth values -/

/-- The names in a tree, from left to right. -/
def Tree.names : Tree → List String
  | .name s => [s]
  | .whole _ | .decimal _ | .nothing => []
  | .call _ a | .positive a | .negative a => a.names
  | .binary _ a b => a.names ++ b.names

/-- Whether a tree has no symbols other than truth values. -/
def Tree.isConstant (symbols : List String) (t : Tree) : Bool :=
  t.names.all fun name => (truthOf? name).isSome || !symbols.contains name

/-- A tree without symbols has no size if there is a truth value in it. -/
def checkSize (symbols : List String) (t : Tree) : Except ReadFault Unit :=
  if !t.isConstant symbols then .ok ()
  else
    match t.names.findSome? truthOf? with
    | none => .ok ()
    | some b =>
      let kind := if b then "BooleanTrue" else "BooleanFalse"
      let isAlone := match t with
        | .name _ => true
        | _ => false
      .error (.value (.noPart kind (if isAlone then "evalf" else "_eval_evalf")))

/-- Checks that the powers in a tree have no truth value for exponent or base. -/
def checkTruths (symbols : List String) : Tree → Except ReadFault Unit
  | .name _ | .whole _ | .decimal _ | .nothing => .ok ()
  | .call f a => do
    checkTruths symbols a
    if f = "sqrt" then checkSize symbols a
  | .positive a | .negative a => checkTruths symbols a
  | .binary o a b => do
    checkTruths symbols a
    checkTruths symbols b
    if o = .power then
      checkSize symbols b
      if b.isConstant symbols then checkSize symbols a
    if o = .over then checkSize symbols b

/-! ## The guard -/

/-- Checks one power. -/
def checkPower (b e : Expr) : Except ReadFault Unit := do
  if !e.isClosed then return ()
  match magnitude? e with
  | none => throw (.noFiniteValue e.text)
  | some exponent =>
    if exponent.above maxExponent then throw .exponentTooLarge
    if !b.isClosed then return ()
    match magnitude? b with
    | none => throw (.noFiniteValue b.text)
    | some base => if hasTooManyDigits exponent base then throw .powerTooLarge

/-- Checks the powers of an expression as written. -/
def checkPowers (x : Expr) : Except ReadFault Unit :=
  x.postorder.forM fun
    | .pow b e => checkPower b e
    | _ => .ok ()

end Reckoner
