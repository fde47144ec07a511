-- The values of formulas and functions.
import Reckoner.Value.Arithmetic

namespace Reckoner

/-! ## Functions of a real number -/

namespace Double

/-- The square root. -/
def squareRoot (x : Float) : Except ValueFault Float :=
  if x < 0 then .error .outOfDomain else .ok x.sqrt

/-- A sine or cosine. -/
def wave (f : Float → Float) (x : Float) : Except ValueFault Float :=
  if x.isInf then .error .outOfDomain else .ok (f x)

/-- The exponential. -/
def exponential (x : Float) : Except ValueFault Float :=
  let y := x.exp
  if y.isInf && !x.isInf then .error .pastRange else .ok y

/-- The natural logarithm. -/
def logarithm (x : Float) : Except ValueFault Float :=
  if x ≤ 0 then .error .outOfDomain else .ok x.log

/-- The third side of a triangle with a right angle. The longer side is taken out, so that no
square gets too large. -/
def hypotenuse (x y : Float) : Float :=
  let m := if x.abs < y.abs then y.abs else x.abs
  if x.isInf || y.isInf then 1 / 0
  else if m == 0 then 0
  else m * ((x / m) * (x / m) + (y / m) * (y / m)).sqrt

end Double

/-- The natural logarithm of a quantity. A whole number past the doubles is split into a
fraction and a power of two. -/
def Quantity.logarithm : Quantity → Except ValueFault Float
  | .measure x => Double.logarithm x
  | .whole n =>
    if n ≤ 0 then .error .outOfDomain
    else match Double.ofInt? n with
      | some x => .ok x.log
      | none =>
        let bits := bitLength n.natAbs
        let fraction := (Binary.mk n (-(bits : Int))).toFloat
        .ok (fraction.log + Float.log 2 * Float.ofNat bits)

/-! ## Formulas -/

/-- A function of a double at a value. -/
def Value.mapFloat (f : Float → Except ValueFault Float) (v : Value) : Except ValueFault Value := do
  return .measure (← f (← v.toFloat))

/-- The value of a formula. -/
def Formula.eval (vx vy : Value) : Formula → Except ValueFault Value
  | .x => .ok vx
  | .y => .ok vy
  | .number q => .ok (.number q)
  | .add a b => do (← a.eval vx vy).add (← b.eval vx vy)
  | .sub a b => do (← a.eval vx vy).sub (← b.eval vx vy)
  | .mul a b => do (← a.eval vx vy).mul (← b.eval vx vy)
  | .div a b => do (← a.eval vx vy).div (← b.eval vx vy)
  | .less a b => do
    return .whole (if ← (← a.eval vx vy).less (← b.eval vx vy) then 1 else 0)
  | .neg a => do (← a.eval vx vy).neg
  | .abs a => do (← a.eval vx vy).abs
  | .sqrt a => do (← a.eval vx vy).mapFloat Double.squareRoot
  | .sin a => do (← a.eval vx vy).mapFloat (Double.wave Float.sin)
  | .cos a => do (← a.eval vx vy).mapFloat (Double.wave Float.cos)
  | .exp a => do (← a.eval vx vy).mapFloat Double.exponential
  | .log a => do
    let v ← a.eval vx vy
    match v.quantity? with
    | some q => return .measure (← q.logarithm)
    | none => throw (.notReal v.kind)

/-! ## Calls -/

/-- The value of a function at one argument. -/
def Value.at (f v : Value) : Except ValueFault Value :=
  match f with
  | .formula f => f.eval v .nothing
  | f => .error (.notCalled f.kind)

/-- The value of a function at two arguments. -/
def Value.atPair (f v w : Value) : Except ValueFault Value :=
  match f with
  | .formula f => f.eval v w
  | f => .error (.notCalled f.kind)

/-- The outcome of a call of an experiment, by the number of calls before it. -/
def Value.trial (experiment : Value) (i : Nat) : Except ValueFault Value :=
  match experiment with
  | .cycle values =>
    if values.isEmpty then .error .remainderByZero
    else .ok (values.getD (i % values.length) .nothing)
  | v => .error (.notCalled v.kind)

end Reckoner
