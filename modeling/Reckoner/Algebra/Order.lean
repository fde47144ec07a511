-- The order in which a sum or a product holds its parts: by kind, then by the number of
-- parts, then part by part.
import Reckoner.Algebra.Numeric
import Reckoner.Sorting

namespace Reckoner

/-! ## Kinds -/

/-- The written name of a function. -/
def Fn.name : Fn → String
  | .sin => "sin" | .cos => "cos" | .tan => "tan" | .cot => "cot" | .sec => "sec"
  | .csc => "csc" | .sinh => "sinh" | .cosh => "cosh" | .tanh => "tanh" | .coth => "coth"
  | .sech => "sech" | .csch => "csch" | .exp => "exp" | .log => "log" | .floor => "floor"
  | .floorSlope => "Subs"

namespace Expr

/-- The place of a rational number's kind: zero, one and one half come first. -/
def rationalRank (q : Rat) : Nat :=
  if q = 0 then 0
  else if q = 1 then 1
  else if q = 1 / 2 then 2
  else if q = -1 then 5
  else if q.den = 1 then 7
  else 8

/-- The place of the kind of an expression, and the name that orders functions. -/
def kind : Expr → Nat × String
  | .num (.exact q) => (rationalRank q, "")
  | .num (.infinite false) => (3, "")
  | .num .undefined => (4, "")
  | .num (.infinite true) => (6, "")
  | .num (.approx _ _) => (9, "")
  | .const .e => (10, "")
  | .const .pi => (11, "")
  | .const .i => (12, "")
  | .sym _ => (13, "")
  | .pow _ _ => (15, "")
  | .prod _ => (16, "")
  | .sum _ => (17, "")
  | .app .floorSlope (.sym _) => (18, "")
  | .const .zoo => (99, "ComplexInfinity")
  | .app f _ => (99, f.name)

/-- The order of two kinds. -/
def kindCmp (a b : Nat × String) : Ordering := (compare a.1 b.1).then (compare a.2 b.2)

/-- The order of two binary fractions as pairs of sign and mantissa, and then exponent. -/
def binaryCmp (a b : Binary) : Ordering :=
  (compare (decide (a.man < 0)) (decide (b.man < 0))).then
    ((compare a.man.natAbs b.man.natAbs).then (compare a.exp b.exp))

/-- The order of two numbers of one kind. -/
def numberCmp : Number → Number → Ordering
  | .exact p, .exact q => (compare p.num q.num).then (compare p.den q.den)
  | .approx a p, .approx b q => (binaryCmp a b).then (compare p q)
  | _, _ => .eq

mutual
/-- The order of two expressions. -/
def cmp : Expr → Expr → Ordering
  | .num m, .num n => (kindCmp (kind (.num m)) (kind (.num n))).then (numberCmp m n)
  | .sym a, .sym b => compare a b
  | .sum l, .sum m => (compare l.length m.length).then (cmpList l m)
  | .prod l, .prod m => (compare l.length m.length).then (cmpList l m)
  | .pow a b, .pow c d => (cmp a c).then (cmp b d)
  | .app f a, .app g b => (kindCmp (kind (.app f a)) (kind (.app g b))).then (cmp a b)
  | a, b => kindCmp (kind a) (kind b)
def cmpList : List Expr → List Expr → Ordering
  | a :: r, b :: s => (cmp a b).then (cmpList r s)
  | _, _ => .eq
end

/-- The parts of a sum or product in their order. -/
def sortParts (l : List Expr) : List Expr := sortBy (fun a b => cmp a b != .gt) l

end Expr

end Reckoner
