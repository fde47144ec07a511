-- Expressions in one unknown, made ready to be worked out in doubles at many points. A part
-- that is no real number is worked out as a pair of doubles. On many points no operation
-- fails; on a single point a plain number is neither divided by zero nor raised past the
-- doubles.
import Reckoner.Algebra.Normal
import Reckoner.Algebra.Text
import Reckoner.Value.Apply

namespace Reckoner

/-! ## Samples -/

/-- A value at a point: a double, or a complex number of two doubles. -/
inductive Sample where
  | real (x : Float)
  | complex (re im : Float)

namespace Sample

def re : Sample → Float
  | real x => x
  | complex x _ => x

def im : Sample → Float
  | real _ => 0
  | complex _ y => y

def size : Sample → Float
  | real x => x.abs
  | complex x y => (x * x + y * y).sqrt

def add : Sample → Sample → Sample
  | real x, real y => real (x + y)
  | a, b => complex (a.re + b.re) (a.im + b.im)

def neg : Sample → Sample
  | real x => real (-x)
  | complex x y => complex (-x) (-y)

def mul : Sample → Sample → Sample
  | real x, real y => real (x * y)
  | a, b => complex (a.re * b.re - a.im * b.im) (a.re * b.im + a.im * b.re)

def div : Sample → Sample → Sample
  | real x, real y => real (x / y)
  | a, b =>
    let d := b.re * b.re + b.im * b.im
    complex ((a.re * b.re + a.im * b.im) / d) ((a.im * b.re - a.re * b.im) / d)

/-- The exponential. -/
def exp : Sample → Sample
  | real x => real x.exp
  | complex x y => complex (x.exp * y.cos) (x.exp * y.sin)

/-- The natural logarithm. -/
def log : Sample → Sample
  | real x => real x.log
  | z => complex z.size.log (Float.atan2 z.im z.re)

/-- A power. A negative constant has complex powers; the unknown has none. -/
def pow (constant : Bool) : Sample → Sample → Sample
  | real x, real y =>
    if y == 2 then real (x * x)
    else if y == -1 then real (1 / x)
    else if constant && x < 0 && y != y.floor then ((real y).mul (complex (-x).log (Float.atan2 0 x))).exp
    else real (x.pow y)
  | a, b => (b.mul a.log).exp

/-- The square root. -/
def sqrt : Sample → Sample
  | real x => real x.sqrt
  | z => ((real 0.5).mul z.log).exp

/-- A function with a sum of exponentials for complex numbers. -/
def wave (f : Float → Float) (viaExp : Sample → Sample) : Sample → Sample
  | real x => real (f x)
  | z => viaExp z

/-- The hyperbolic sine and cosine as sums of exponentials. -/
def sinhSum (z : Sample) : Sample := (z.exp.add z.neg.exp.neg).mul (real 0.5)

def coshSum (z : Sample) : Sample := (z.exp.add z.neg.exp).mul (real 0.5)

/-- A quarter turn. -/
def turn (z : Sample) : Sample := z.mul (complex 0 1)

def sinSum (z : Sample) : Sample := (sinhSum (turn z)).mul (complex 0 (-1))

def cosSum (z : Sample) : Sample := coshSum (turn z)

/-- The value of a function. -/
def apply (f : Fn) (z : Sample) : Sample :=
  let one : Sample := real 1
  match f with
  | .sin => z.wave Float.sin sinSum
  | .cos => z.wave Float.cos cosSum
  | .tan => z.wave Float.tan fun z => (sinSum z).div (cosSum z)
  | .cot => one.div (z.wave Float.tan fun z => (sinSum z).div (cosSum z))
  | .sec => one.div (z.wave Float.cos cosSum)
  | .csc => one.div (z.wave Float.sin sinSum)
  | .sinh => z.wave Float.sinh sinhSum
  | .cosh => z.wave Float.cosh coshSum
  | .tanh => z.wave Float.tanh fun z => (sinhSum z).div (coshSum z)
  | .coth => one.div (z.wave Float.tanh fun z => (sinhSum z).div (coshSum z))
  | .sech => one.div (z.wave Float.cosh coshSum)
  | .csch => one.div (z.wave Float.sinh sinhSum)
  | .exp => z.exp
  | .log => z.log
  | .floor => match z with
    | real x => real x.floor
    | z => z
  | .floorSlope => real (0 / 0)

end Sample

/-! ## Samplers -/

/-- An expression in one unknown, ready to be worked out. -/
inductive Sampler where
  | constant (z : Sample)
  | unknown
  | sum (terms : List Sampler)
  /-- A quotient of products; `negative` puts a sign before it. -/
  | quotient (negative : Bool) (above below : List Sampler)
  | pow (isConstant : Bool) (base exponent : Sampler)
  | root (radicand : Sampler)
  | app (f : Fn) (arg : Sampler)

namespace Sampler

/-- The product of samples, from left to right. -/
def productOf : List Sample → Sample
  | [] => .real 1
  | z :: r => r.foldl Sample.mul z

mutual
/-- The value at a point. -/
def sample (x : Float) : Sampler → Sample
  | constant z => z
  | unknown => .real x
  | sum l => match samples x l with
    | [] => .real 0
    | z :: r => r.foldl Sample.add z
  | quotient negative above below =>
    let top := productOf (samples x above)
    let z := match samples x below with
      | [] => top
      | l => top.div (productOf l)
    if negative then z.neg else z
  | pow isConstant b e => Sample.pow isConstant (b.sample x) (e.sample x)
  | root a => (a.sample x).sqrt
  | app f a => (a.sample x).apply f
def samples (x : Float) : List Sampler → List Sample
  | [] => []
  | a :: r => a.sample x :: samples x r
end

/-! ## Single points -/

/-- A value at a single point. What went through a function is lenient: it may be divided
by zero. -/
structure PointValue where
  value : Sample
  lenient : Bool

namespace PointValue

/-- A value that no operation was made on. -/
def plain (z : Sample) : PointValue := ⟨z, false⟩

def add (a b : PointValue) : PointValue := ⟨a.value.add b.value, a.lenient || b.lenient⟩

def mul (a b : PointValue) : PointValue := ⟨a.value.mul b.value, a.lenient || b.lenient⟩

def neg (a : PointValue) : PointValue := ⟨a.value.neg, a.lenient⟩

/-- A quotient. Plain values are not divided by zero. -/
def div (a b : PointValue) : Except ValueFault PointValue :=
  let lenient := a.lenient || b.lenient
  match a.value, b.value with
  | .real _, .real y =>
    if !lenient && y == 0 then .error .measuredDivisionByZero
    else .ok ⟨a.value.div b.value, lenient⟩
  | _, y =>
    if !lenient && y.re == 0 && y.im == 0 then .error .complexDivisionByZero
    else .ok ⟨a.value.div b.value, lenient⟩

/-- A power. A plain zero has no negative powers, and a plain power stays in the doubles. -/
def pow (constant : Bool) (b e : PointValue) : Except ValueFault PointValue :=
  let lenient := b.lenient || e.lenient
  match b.value, e.value with
  | .real x, .real y =>
    if lenient then .ok ⟨Sample.pow constant b.value e.value, true⟩
    else if x == 0 && y < 0 then .error .negativePowerOfZero
    else
      match Sample.pow true b.value e.value with
      | .real r =>
        if r.isInf && x.isFinite && y.isFinite then .error .powerPastDoubles
        else .ok (plain (.real r))
      | z => .ok (plain z)
  | _, _ => .ok ⟨Sample.pow constant b.value e.value, lenient⟩

/-- The product of values, from left to right. -/
def productOf : List PointValue → PointValue
  | [] => plain (.real 1)
  | a :: r => r.foldl mul a

end PointValue

mutual
/-- The value at a single point. -/
def valueAt (x : Float) : Sampler → Except ValueFault PointValue
  | constant z => .ok (.plain z)
  | unknown => .ok (.plain (.real x))
  | sum l => do
    match ← valuesAt x l with
    | [] => return .plain (.real 0)
    | a :: r => return r.foldl PointValue.add a
  | quotient negative above below => do
    let top := PointValue.productOf (← valuesAt x above)
    let top := if negative then top.neg else top
    match ← valuesAt x below with
    | [] => return top
    | l => top.div (PointValue.productOf l)
  | pow isConstant b e => do PointValue.pow isConstant (← b.valueAt x) (← e.valueAt x)
  | root a => do return ⟨(← a.valueAt x).value.sqrt, true⟩
  | app f a => do return ⟨(← a.valueAt x).value.apply f, true⟩
def valuesAt (x : Float) : List Sampler → Except ValueFault (List PointValue)
  | [] => .ok []
  | a :: r => do return (← a.valueAt x) :: (← valuesAt x r)
end

/-! ## Making samplers -/

/-- A number in doubles. A measured one goes by the digits that its text shows. -/
def ofNumber (n : Number) : Except ValueFault Sample :=
  match n with
  | .exact q =>
    if q.den = 1 then (Quantity.whole q.num).toFloat.map .real
    else match Double.ofQuotient? q.num q.den with
      | some x => .ok (.real x)
      | none => .error .quotientPastDoubles
  | .approx _ _ => .ok (.real ((Double.read? (n.text true)).getD 0))
  | .infinite negative => .ok (.real (if negative then -1 / 0 else 1 / 0))
  | .undefined => .ok (.real (0 / 0))

/-- A factor that stands below the bar, with the opposite exponent. -/
def below? : Expr → Option Expr
  | .pow b (.num (.exact q)) =>
    if q < 0 then some (if q = -1 then b else .pow b (.num (.exact (-q)))) else none
  | _ => none

/-- The name that stands before the argument of a function. Its reciprocals go by the name of
the function below the bar. -/
def calledName : Fn → String
  | .sin | .csc => "sin"
  | .cos | .sec => "cos"
  | .tan | .cot => "tan"
  | .sinh | .csch => "sinh"
  | .cosh | .sech => "cosh"
  | .tanh | .coth => "tanh"
  | .exp => "exp"
  | .log => "log"
  | .floor | .floorSlope => "floor"

/-- A function whose name the unknown takes away is not called. -/
def ensureCalled (unknown called : String) : Except ValueFault Unit :=
  if called = unknown then .error (.notCalled "numpy.ndarray") else .ok ()

/-- The sampler of an expression, where `fuel` bounds the depth. Sums and products keep the
order of reading. An unknown with the name of a constant stands in its place. -/
def ofExprAux (name : String) : Nat → Expr → Except ValueFault Sampler
  | 0, _ => .ok (.constant (.real 0))
  | fuel + 1, x =>
    let part := ofExprAux name fuel
    match x with
    | .num n => return .constant (← ofNumber n)
    | .const .pi => return .constant (.real 3.141592653589793)
    | .const .e =>
      .ok (if name = "e" then .unknown else .constant (.real 2.718281828459045))
    | .const .i => .ok (.constant (.complex 0 1))
    | .const .zoo => throw (.unknownEntry "ComplexInfinity")
    | .sym _ => return .unknown
    | .sum l => return .sum (← (Builder.full.orderedTerms (.sum l)).mapM part)
    | .prod l => do
      let (c, rest) := (Expr.prod l).coeffMul
      let y := if c.isNegative then Expr.keepCoeff c.neg rest else .prod l
      let factors := match y with
        | .prod l => Builder.full.sortByKey l
        | y => [y]
      let above ← (factors.filter fun f => (below? f).isNone).mapM part
      let below ← (factors.filterMap below?).mapM part
      return .quotient c.isNegative above below
    | .pow b e => do
      if e = .half then
        ensureCalled name "sqrt"
        return .root (← part b)
      else if e = .neg .half then
        ensureCalled name "sqrt"
        return .quotient false [] [.root (← part b)]
      else return .pow b.isClosed (← part b) (← part e)
    | .app f a => do
      ensureCalled name (calledName f)
      return .app f (← part a)

/-- The sampler of an expression in the unknown of the name. -/
def ofExpr (name : String) (x : Expr) : Except ValueFault Sampler :=
  ofExprAux name (2 * x.size + 4) x

end Sampler

end Reckoner
