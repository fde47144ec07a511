-- The operations that build expressions in normal form.
import Reckoner.Algebra.Function

namespace Reckoner

/-! ## The builder -/

/-- The builder whose rules may build parts of their results to the given depth. Below it
parts are taken as they are. -/
def Builder.ofDepth : Nat → Builder
  | 0 => .raw
  | depth + 1 =>
    let B := Builder.ofDepth depth
    ⟨B.sumOf, B.prodOf, B.powOf, B.appOf⟩

/-- The depth that no expression of a reasonable size reaches. -/
def Builder.fullDepth : Nat := 64

/-- The builder of normal forms. -/
def Builder.full : Builder := .ofDepth fullDepth

namespace Expr

/-- The sum of expressions. -/
def add (l : List Expr) : Expr := Builder.full.add l

/-- The product of expressions. -/
def mul (l : List Expr) : Expr := Builder.full.mul l

/-- A power. -/
def power (b e : Expr) : Expr := Builder.full.pow b e

/-- An applied function. -/
def apply (f : Fn) (x : Expr) : Expr := Builder.full.app f x

/-- The negative of an expression. -/
def neg (x : Expr) : Expr := Builder.full.neg x

/-- The difference of two expressions. -/
def sub (x y : Expr) : Expr :=
  match x, y with
  | .num m, .num n => .num (m.sub n)
  | x, y => add [x, neg y]

/-- The quotient of two expressions. -/
def div (x y : Expr) : Expr := mul [x, power y .negOne]

/-- The reciprocal of an expression. -/
def inverse (x : Expr) : Expr := power x .negOne

/-- The square root of an expression. -/
def sqrt (x : Expr) : Expr := power x .half

/-- A sum of two expressions. -/
def plus (x y : Expr) : Expr := add [x, y]

/-- A product of two expressions. -/
def times (x y : Expr) : Expr := mul [x, y]

/-- The product of a number and an expression, where the number is not spread over the
terms of a sum. -/
def keepCoeff (c : Number) (x : Expr) : Expr := Builder.full.keepCoeff c x

end Expr

end Reckoner
