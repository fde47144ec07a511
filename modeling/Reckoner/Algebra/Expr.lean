-- Expressions in normal form: numbers, constants, symbols, and sums, products, powers
-- and applied functions of them. A sum or product holds its parts as a flat list.
import Reckoner.Number.Number

namespace Reckoner

/-! ## The type -/

/-- The constants that are not numbers of arithmetic. -/
inductive Constant where
  /-- The infinity without a direction. -/
  | zoo
  /-- The imaginary unit. -/
  | i
  /-- The circle constant. -/
  | pi
  /-- The base of the natural logarithm. -/
  | e
deriving DecidableEq

/-- The functions of one argument. The slope of the whole part is a function without a
simpler form. -/
inductive Fn where
  | sin | cos | tan | cot | sec | csc
  | sinh | cosh | tanh | coth | sech | csch
  | exp | log | floor | floorSlope
deriving DecidableEq

/-- An expression. -/
inductive Expr where
  | num (n : Number)
  | const (c : Constant)
  | sym (name : String)
  | sum (terms : List Expr)
  | prod (factors : List Expr)
  | pow (base exponent : Expr)
  | app (f : Fn) (arg : Expr)

namespace Expr

instance : Inhabited Expr := ⟨.num (.exact 0)⟩

def zero : Expr := .num (.exact 0)
def one : Expr := .num (.exact 1)
def negOne : Expr := .num (.exact (-1))
def half : Expr := .num (.exact (1 / 2 : Rat))
def nan : Expr := .num .undefined
def zoo : Expr := .const .zoo
def i : Expr := .const .i
def pi : Expr := .const .pi
def ofInt (n : Int) : Expr := .num (.exact n)
def ofNat (n : Nat) : Expr := .num (.exact n)
def ofRat (q : Rat) : Expr := .num (.exact q)

/-! ## Equality -/

mutual
/-- Whether two expressions are the same tree. -/
def same : Expr → Expr → Bool
  | .num m, .num n => decide (m = n)
  | .const c, .const d => decide (c = d)
  | .sym a, .sym b => decide (a = b)
  | .sum a, .sum b => sameList a b
  | .prod a, .prod b => sameList a b
  | .pow a b, .pow c d => same a c && same b d
  | .app f a, .app g b => decide (f = g) && same a b
  | _, _ => false
/-- Whether two lists hold the same trees in the same order. -/
def sameList : List Expr → List Expr → Bool
  | [], [] => true
  | a :: r, b :: s => same a b && sameList r s
  | _, _ => false
end

mutual
theorem same_refl : ∀ a : Expr, same a a = true
  | .num _ | .const _ | .sym _ => by simp [same]
  | .sum l => by simp [same, sameList_refl l]
  | .prod l => by simp [same, sameList_refl l]
  | .pow a b => by simp [same, same_refl a, same_refl b]
  | .app _ a => by simp [same, same_refl a]
theorem sameList_refl : ∀ l : List Expr, sameList l l = true
  | [] => rfl
  | a :: r => by simp [sameList, same_refl a, sameList_refl r]
end

mutual
theorem eq_of_same : ∀ a b : Expr, same a b = true → a = b
  | .num _, .num _, h => by simpa [same] using h
  | .const _, .const _, h => by simpa [same] using h
  | .sym _, .sym _, h => by simpa [same] using h
  | .sum l, .sum m, h => by rw [eq_of_sameList l m (by simpa [same] using h)]
  | .prod l, .prod m, h => by rw [eq_of_sameList l m (by simpa [same] using h)]
  | .pow a b, .pow c d, h => by
    have h : same a c = true ∧ same b d = true := by simpa [same] using h
    rw [eq_of_same a c h.1, eq_of_same b d h.2]
  | .app f a, .app g b, h => by
    have h : f = g ∧ same a b = true := by simpa [same] using h
    rw [h.1, eq_of_same a b h.2]
  | .num _, .const _, h | .num _, .sym _, h | .num _, .sum _, h | .num _, .prod _, h
  | .num _, .pow _ _, h | .num _, .app _ _, h
  | .const _, .num _, h | .const _, .sym _, h | .const _, .sum _, h | .const _, .prod _, h
  | .const _, .pow _ _, h | .const _, .app _ _, h
  | .sym _, .num _, h | .sym _, .const _, h | .sym _, .sum _, h | .sym _, .prod _, h
  | .sym _, .pow _ _, h | .sym _, .app _ _, h
  | .sum _, .num _, h | .sum _, .const _, h | .sum _, .sym _, h | .sum _, .prod _, h
  | .sum _, .pow _ _, h | .sum _, .app _ _, h
  | .prod _, .num _, h | .prod _, .const _, h | .prod _, .sym _, h | .prod _, .sum _, h
  | .prod _, .pow _ _, h | .prod _, .app _ _, h
  | .pow _ _, .num _, h | .pow _ _, .const _, h | .pow _ _, .sym _, h | .pow _ _, .sum _, h
  | .pow _ _, .prod _, h | .pow _ _, .app _ _, h
  | .app _ _, .num _, h | .app _ _, .const _, h | .app _ _, .sym _, h | .app _ _, .sum _, h
  | .app _ _, .prod _, h | .app _ _, .pow _ _, h => by simp [same] at h
theorem eq_of_sameList : ∀ l m : List Expr, sameList l m = true → l = m
  | [], [], _ => rfl
  | [], _ :: _, h | _ :: _, [], h => by simp [sameList] at h
  | a :: r, b :: s, h => by
    have h : same a b = true ∧ sameList r s = true := by simpa [sameList] using h
    rw [eq_of_same a b h.1, eq_of_sameList r s h.2]
end

theorem same_iff {a b : Expr} : same a b = true ↔ a = b :=
  ⟨eq_of_same a b, fun h => h ▸ same_refl a⟩

instance : DecidableEq Expr := fun a b =>
  if h : same a b = true then isTrue (eq_of_same a b h)
  else isFalse fun e => h (e ▸ same_refl a)

/-! ## Parts -/

/-- The terms of a sum; any other expression is a sum of one term. -/
def terms : Expr → List Expr
  | .sum l => l
  | x => [x]

/-- The factors of a product; any other expression is a product of one factor. -/
def factors : Expr → List Expr
  | .prod l => l
  | x => [x]

/-- The parts from which the expression is built. -/
def args : Expr → List Expr
  | .num _ | .const _ | .sym _ => []
  | .sum l | .prod l => l
  | .pow a b => [a, b]
  | .app _ a => [a]

def isAtom : Expr → Bool
  | .num _ | .const _ | .sym _ => true
  | _ => false

def isSum : Expr → Bool
  | .sum _ => true
  | _ => false

def isProd : Expr → Bool
  | .prod _ => true
  | _ => false

def isPow : Expr → Bool
  | .pow _ _ => true
  | _ => false

def isNum : Expr → Bool
  | .num _ => true
  | _ => false

/-- The rational number that the expression is. -/
def rat? : Expr → Option Rat
  | .num (.exact q) => some q
  | _ => none

/-- The whole number that the expression is. -/
def int? : Expr → Option Int
  | .num (.exact q) => if q.den = 1 then some q.num else none
  | _ => none

def isRational (x : Expr) : Bool := x.rat?.isSome

def isInteger (x : Expr) : Bool := x.int?.isSome

/-- The sum with the given terms, taken as they are. -/
def rawSum : List Expr → Expr
  | [] => zero
  | [x] => x
  | l => .sum l

/-- The product with the given factors, taken as they are. -/
def rawProd : List Expr → Expr
  | [] => one
  | [x] => x
  | l => .prod l

/-- The leading number of a product and the rest of it. -/
def coeffMul : Expr → Number × Expr
  | .num n => (n, one)
  | .prod (.num n :: rest) => (n, rawProd rest)
  | x => (.exact 1, x)

/-- The leading rational number of a product and the rest of it. A negative number of
another kind gives up its sign. -/
def coeffMulRational : Expr → Rat × Expr
  | .num (.exact q) => (q, one)
  | .prod (.num (.exact q) :: rest) => (q, rawProd rest)
  | .prod (.num n :: rest) =>
    if n.isNegative then (-1, rawProd (.num n.neg :: rest)) else (1, .prod (.num n :: rest))
  | x => (1, x)

/-- The leading number of a sum and the rest of it. -/
def coeffAdd : Expr → Number × Expr
  | .num n => (n, zero)
  | .sum (.num n :: rest) => (n, rawSum rest)
  | x => (.exact 0, x)

/-- The base and exponent of a power; `b ^ x` for a base `b = 1 / n` is `n ^ (-x)`, and
the exponential is a power too. `negate` makes the negative of an exponent. -/
def baseExp (negate : Expr → Expr) : Expr → Expr × Expr
  | .pow b x =>
    match b with
    | .num (.exact q) => if q.num = 1 ∧ q.den ≠ 1 then (ofNat q.den, negate x) else (b, x)
    | _ => (b, x)
  | .app .exp x => (.const .e, x)
  | x => (x, one)

/-! ## Traversal -/

mutual
/-- The number of nodes of the tree. -/
def size : Expr → Nat
  | .num _ | .const _ | .sym _ => 1
  | .sum l | .prod l => 1 + sizeList l
  | .pow a b => 1 + size a + size b
  | .app _ a => 1 + size a
def sizeList : List Expr → Nat
  | [] => 0
  | a :: r => size a + sizeList r
end

mutual
/-- Whether some node of the tree passes the test. -/
def any (p : Expr → Bool) : Expr → Bool
  | .sum l => p (.sum l) || anyList p l
  | .prod l => p (.prod l) || anyList p l
  | .pow a b => p (.pow a b) || any p a || any p b
  | .app f a => p (.app f a) || any p a
  | .num n => p (.num n)
  | .const c => p (.const c)
  | .sym s => p (.sym s)
def anyList (p : Expr → Bool) : List Expr → Bool
  | [] => false
  | a :: r => any p a || anyList p r
end

/-- Whether the expression has no symbol. -/
def isClosed (x : Expr) : Bool :=
  !x.any fun
    | .sym _ => true
    | _ => false

/-- Whether the symbol occurs. -/
def hasSymbol (name : String) (x : Expr) : Bool :=
  x.any fun
    | .sym s => s == name
    | _ => false

/-- Whether the subexpression occurs. -/
def hasExpr (part : Expr) (x : Expr) : Bool := x.any (same part)

/-- Whether a measured number occurs. -/
def hasApprox (x : Expr) : Bool :=
  x.any fun
    | .num n => n.isApprox
    | _ => false

/-- Whether one of the functions occurs. -/
def hasFn (p : Fn → Bool) (x : Expr) : Bool :=
  x.any fun
    | .app f _ => p f
    | _ => false

mutual
/-- The names of the symbols, with repetitions, from left to right. -/
def symbolList : Expr → List String
  | .sym s => [s]
  | .sum l | .prod l => symbolsOfList l
  | .pow a b => symbolList a ++ symbolList b
  | .app _ a => symbolList a
  | .num _ | .const _ => []
def symbolsOfList : List Expr → List String
  | [] => []
  | a :: r => symbolList a ++ symbolsOfList r
end

mutual
/-- All subexpressions, each node after its parts. -/
def postorder : Expr → List Expr
  | .sum l => postorderList l ++ [.sum l]
  | .prod l => postorderList l ++ [.prod l]
  | .pow a b => postorder a ++ postorder b ++ [.pow a b]
  | .app f a => postorder a ++ [.app f a]
  | .num n => [.num n]
  | .const c => [.const c]
  | .sym s => [.sym s]
def postorderList : List Expr → List Expr
  | [] => []
  | a :: r => postorder a ++ postorderList r
end

end Expr

/-- Inserts a name into a sorted list without repetition. -/
def insertName (name : String) : List String → List String
  | [] => [name]
  | a :: r => if name = a then a :: r else if name < a then name :: a :: r else a :: insertName name r

/-- The names in order, each once. -/
def sortNames (names : List String) : List String := names.foldr insertName []

/-- The symbols of an expression in order, each once. -/
def Expr.symbols (x : Expr) : List String := sortNames x.symbolList

end Reckoner
