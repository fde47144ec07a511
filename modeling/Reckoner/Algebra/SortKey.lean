-- The order of reading: how the terms of a sum and the factors of a product are ordered
-- where they are written or compared, and which of `x` and `-x` reads better.
import Reckoner.Algebra.Power
import Reckoner.Number.Text

namespace Reckoner

/-! ## Keys -/

/-- What an expression is ordered by: the rank of its kind, the keys of its parts, the key
of its exponent and its number. -/
inductive SortKey where
  | mk (rank : Nat × Nat × String) (size : Nat) (name : String) (parts : List SortKey)
    (exponent : List SortKey) (coeff : Number)

namespace SortKey

/-- The order of two ranks. -/
def rankCmp (a b : Nat × Nat × String) : Ordering :=
  (compare a.1 b.1).then ((compare a.2.1 b.2.1).then (compare a.2.2 b.2.2))

mutual
/-- The order of two keys. -/
def cmp : SortKey → SortKey → Ordering
  | .mk r n s p e c, .mk r' n' s' p' e' c' =>
    (rankCmp r r').then ((compare n n').then ((compare s s').then ((cmpList p p').then
      ((cmpList e e').then (Number.cmp c c')))))
def cmpList : List SortKey → List SortKey → Ordering
  | [], [] => .eq
  | [], _ :: _ => .lt
  | _ :: _, [] => .gt
  | a :: r, b :: s => (cmp a b).then (cmpList r s)
end

def lt (a b : SortKey) : Bool := cmp a b == .lt

/-- The key of a number. -/
def ofNumber (n : Number) : SortKey := .mk (1, 0, "Number") 0 "" [] [] n

/-- The place of a function among the others. -/
def functionRank : Fn → Nat
  | .exp => 10 | .log => 11
  | .sin => 20 | .cos => 21 | .tan => 22 | .cot => 23
  | .sinh => 30 | .cosh => 31 | .tanh => 32 | .coth => 33
  | .sec | .csc | .sech | .csch | .floor => 10000
  | .floorSlope => 0

def isSymbol : Expr → Bool
  | .sym _ => true
  | _ => false

/-- The rank of the kind of an expression. -/
def rank : Expr → Nat × Nat × String
  | .num _ => (1, 0, "Number")
  | .const .zoo => (2, 0, "ComplexInfinity")
  | .const .i => (2, 0, "ImaginaryUnit")
  | .const .pi => (2, 0, "Pi")
  | .const .e => (2, 0, "Exp1")
  | .sym _ => (2, 0, "Symbol")
  | .sum _ => (3, 1, "Add")
  | .prod _ => (3, 0, "Mul")
  | .pow _ _ => (3, 2, "Pow")
  | .app .floorSlope a => (5, 0, if isSymbol a then "Derivative" else "Subs")
  | .app f _ => (4, functionRank f, f.name)

/-- The written form of an expression without parts. -/
def atomName : Expr → String
  | .num n => n.text false
  | .const .zoo => "zoo"
  | .const .i => "I"
  | .const .pi => "pi"
  | .const .e => "E"
  | .sym s => s
  | _ => ""

end SortKey

/-! ## Terms as coefficients and powers -/

/-- A term of a sum: its numeric factor, real and imaginary, and the whole powers that it
is made of. -/
structure Monomial where
  re : Rat
  im : Rat
  powers : List (Expr × Int)

/-- The value of a finite expression without symbols, to 53 bits. -/
def Expr.complexValue? (x : Expr) : Option (Rat × Rat) :=
  match x with
  | .num (.exact q) => some (q, 0)
  | x =>
    if !x.isClosed then none
    else
      match x.toNumeric 57 with
      | .value re im => do
        let a ← Part.finite? re
        let b ← Part.finite? im
        return ((a.round .nearest 53).toRat, (b.round .nearest 53).toRat)
      | _ => none

namespace Builder

variable (B : Builder)

/-- A factor as a whole power. -/
def decomposePower (x : Expr) : Expr × Int :=
  let (b, e) := x.baseExp B.neg
  match e with
  | .num (.exact q) =>
    if q.den = 1 then (b, q.num) else (B.pow b (.ofRat (mkRat 1 q.den)), q.num)
  | .num _ => (x, 1)
  | e =>
    let (q, tail) := e.coeffMulRational
    if q = -1 then (B.pow b tail, -1)
    else if q ≠ 1 then (B.pow b (B.keepCoeff (.exact (mkRat 1 q.den)) tail), q.num)
    else (x, 1)

/-- A term as a coefficient and whole powers. -/
def monomialOf (x : Expr) : Monomial :=
  let (c, rest) := x.coeffMul
  let start : Monomial := ⟨c.toRat?.getD 0, 0, []⟩
  if rest = .one then start
  else
    rest.factors.foldl (fun acc f =>
      match f.complexValue? with
      | some (a, b) =>
        { acc with re := acc.re * a - acc.im * b, im := acc.re * b + acc.im * a }
      | none =>
        let (g, e) := B.decomposePower f
        { acc with powers := addEntry (fun _ e => e) g e acc.powers }) start

/-- The order of two coefficients: real ones first, and then by size. -/
def coeffCmp (a b : Monomial) : Ordering :=
  (compare (decide (a.im ≠ 0)) (decide (b.im ≠ 0))).then
    ((compare (a.im - b.im).num 0).then ((compare (a.re - b.re).num 0)))

/-- The order of two terms: higher powers of the first bases come first. -/
def monomialCmp (bases : List Expr) (a b : Monomial) : Ordering :=
  let power := fun (m : Monomial) (g : Expr) => (lookupEntry g m.powers).getD 0
  (bases.foldl (fun (acc : Ordering) g => acc.then (compare (power b g) (power a g)))
    Ordering.eq).then (coeffCmp a b)

/-- A number or one of the constants that are numbers. -/
def isPlainNumber : Expr → Bool
  | .num _ | .const .pi | .const .e => true
  | _ => false

/-- The terms of a sum in the order of reading, where `key` orders the bases. A positive
number stands before a single negative term. -/
def orderTerms (key : Expr → SortKey) (l : List Expr) : List Expr :=
  let numbersFirst := l.filter isPlainNumber ++ l.filter fun x => !isPlainNumber x
  let special := match numbersFirst with
    | [a, .prod [m, n]] =>
      let (m, _) := if isPlainNumber m then (m, n) else (n, m)
      if isPlainNumber a && a.isPositive && m.isNum && m.isNegative then some numbersFirst
      else none
    | _ => none
  match special with
  | some terms => terms
  | none =>
    let terms := l.map fun x => (x, B.monomialOf x)
    let bases := (terms.flatMap fun (_, m) => m.powers.map Prod.fst).eraseDups
    let bases := (sortBy (fun a b => !SortKey.lt b.2 a.2) (bases.map fun g => (g, key g))).map Prod.fst
    (sortBy (fun a b => monomialCmp bases a.2 b.2 != .gt) terms).map Prod.fst

/-- The key of an expression, where `fuel` bounds the depth. -/
def sortKeyAux : Nat → Expr → SortKey
  | 0, _ => .ofNumber (.exact 0)
  | fuel + 1, x =>
    match x with
    | .num n => .ofNumber n
    | .const _ | .sym _ =>
      .mk (SortKey.rank x) 1 (SortKey.atomName x) [] [.ofNumber (.exact 1)] (.exact 1)
    | x =>
      let key := sortKeyAux fuel
      let (c, x) := x.coeffMul
      let (x, e) := match x with
        | .pow b e => (b, key e)
        | x => (x, .ofNumber (.exact 1))
      if x.isAtom then .mk (SortKey.rank x) 1 (SortKey.atomName x) [] [e] c
      else
        let parts := match x with
          | .sum l => (orderTerms B key l).map key
          | .prod l => sortBy (fun a b => !SortKey.lt b a) (l.map key)
          | x => x.args.map key
        .mk (SortKey.rank x) parts.length "" parts [e] c

/-- The key of an expression. A part of it is taken apart at most three times on the way
down. -/
def sortKey (x : Expr) : SortKey := sortKeyAux B (3 * x.size + 3) x

/-- The terms of an expression in the order of reading. -/
def orderedTerms (x : Expr) : List Expr := orderTerms B B.sortKey x.terms

/-- The list in the order of reading. -/
def sortByKey (l : List Expr) : List Expr :=
  (sortBy (fun a b => !SortKey.lt b.2 a.2) (l.map fun x => (x, B.sortKey x))).map Prod.fst

/-! ## The better sign -/

/-- Whether `-x` reads better than `x`: a negative number leads, or a sum has more
negative terms than others. -/
def prefersNegative (x : Expr) : Bool :=
  match x with
  | .num n => n.isNegative
  | .prod (.num n :: _) => n.isNegative
  | .sum l =>
    let down := l.countP fun y => match y with
      | .num n => n.isNegative
      | .prod (.num n :: _) => n.isNegative
      | _ => false
    let up := l.length - down
    if down < up then false
    else if up < down then true
    else SortKey.lt (B.sortKey x) (B.sortKey (B.neg x))
  | _ => false

end Builder

end Reckoner
