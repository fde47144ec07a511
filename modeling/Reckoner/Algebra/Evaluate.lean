-- Putting values for symbols, and the measured value of an expression.
import Reckoner.Algebra.Normal

namespace Reckoner

namespace Expr

/-! ## Substitution -/

mutual
/-- The expression with one subexpression replaced wherever it stands. What holds a
replaced part is built again. -/
def replace (old new : Expr) : Expr → Expr
  | .sum l =>
    if Expr.sum l = old then new
    else
      let m := replaceList old new l
      if m = l then .sum l else add m
  | .prod l =>
    if Expr.prod l = old then new
    else
      let m := replaceList old new l
      if m = l then .prod l else mul m
  | .pow b e =>
    if Expr.pow b e = old then new
    else
      let c := replace old new b
      let f := replace old new e
      if c = b ∧ f = e then .pow b e else power c f
  | .app f a =>
    if Expr.app f a = old then new
    else
      let b := replace old new a
      if b = a then .app f a else apply f b
  | .num n => if Expr.num n = old then new else .num n
  | .const c => if Expr.const c = old then new else .const c
  | .sym s => if Expr.sym s = old then new else .sym s
def replaceList (old new : Expr) : List Expr → List Expr
  | [] => []
  | a :: r => replace old new a :: replaceList old new r
end

end Expr

end Reckoner
