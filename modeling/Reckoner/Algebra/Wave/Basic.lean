-- Waves: the trigonometric functions, their hyperbolic relatives, and the cost by which the
-- forms of an expression with such functions are compared.
import Reckoner.Algebra.Factored

namespace Reckoner

/-! ## Kinds of functions -/

/-- Whether the function is trigonometric. -/
def Fn.isWave : Fn → Bool
  | .sin | .cos | .tan | .cot | .sec | .csc => true
  | _ => false

/-- Whether the function is hyperbolic. -/
def Fn.isHyperbolic : Fn → Bool
  | .sinh | .cosh | .tanh | .coth | .sech | .csch => true
  | _ => false

/-- Whether the function is a sine or a cosine. -/
def Fn.isSinusoid : Fn → Bool
  | .sin | .cos => true
  | _ => false

/-- The function of the complementary angle. -/
def Fn.complement : Fn → Fn
  | .sin => .cos | .cos => .sin | .tan => .cot | .cot => .tan | .sec => .csc | .csc => .sec
  | f => f

namespace Expr

def hasWave (x : Expr) : Bool := x.hasFn Fn.isWave

def hasHyperbolic (x : Expr) : Bool := x.hasFn Fn.isHyperbolic

/-- Whether the expression is a sine or a cosine. -/
def isSinusoid : Expr → Bool
  | .app f _ => f.isSinusoid
  | _ => false

/-- The number of trigonometric functions. -/
def waveCount (x : Expr) : Nat :=
  x.postorder.countP fun y => match y with
    | .app f _ => f.isWave
    | _ => false

/-! ## Cost -/

/-- What an expression is compared by: its trigonometric functions, its operations, its
size, its parts, and whether it is a sum. -/
def waveCost (x : Expr) : List Nat :=
  [x.waveCount, x.effort, x.weight, x.args.length, if x.isSum then 1 else 0]

/-- Whether the first cost is less than the second. -/
def costBefore : List Nat → List Nat → Bool
  | a :: r, b :: s => a < b || (a = b && costBefore r s)
  | _, _ => false

/-- The first of the expressions with the least cost. -/
def leastWaves (first : Expr) (others : List Expr) : Expr :=
  (others.foldl (fun (best : Expr × List Nat) y =>
    let cost := y.waveCost
    if costBefore cost best.2 then (y, cost) else best) (first, first.waveCost)).1

/-! ## Powers -/

/-- The exponent of each base of a product. -/
def powersOf (x : Expr) : List (Expr × Expr) :=
  x.factors.foldl (fun acc f => let (b, e) := f.baseExp neg; addEntry plus b e acc) []

/-- The product of powers, those with exponent zero left out. -/
def productOfPowers (l : List (Expr × Expr)) : Expr :=
  mul ((l.filter fun (_, e) => e != .zero).map fun (b, e) => power b e)

end Expr

end Reckoner
