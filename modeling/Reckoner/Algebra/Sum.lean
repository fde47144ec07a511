-- Sums in normal form: numbers are added, terms that differ only in their number are
-- joined, and what remains is put in order.
import Reckoner.Algebra.Order

namespace Reckoner

/-! ## The operations that build normal forms -/

/-- The ways to build an expression from parts in normal form. A builder is made from one
that may go less deep, so that each rule can build parts of its result. -/
structure Builder where
  add : List Expr → Expr
  mul : List Expr → Expr
  pow : Expr → Expr → Expr
  app : Fn → Expr → Expr

namespace Builder

/-- The builder that takes every part as it is. -/
def raw : Builder := ⟨Expr.rawSum, Expr.rawProd, .pow, .app⟩

variable (B : Builder)

/-- The negative of an expression. -/
def neg : Expr → Expr
  | .num n => .num n.neg
  | .const .zoo => .const .zoo
  | .sum l => B.mul [.negOne, .sum l]
  | .prod [.num n, .sum l] =>
    if n = .exact (-1) then .sum l else B.mul [.num n.neg, .sum l]
  | .prod (.num n :: rest) =>
    if n = .exact (-1) then Expr.rawProd rest
    else .prod (.num n.neg :: rest)
  | .prod l => .prod (.negOne :: l)
  | x => .prod [.negOne, x]

/-- The product of a number and an expression, where the number is not spread over the
terms of a sum. -/
def keepCoeff (c : Number) (x : Expr) : Expr :=
  if c = .exact 1 then x
  else if x = .one then .num c
  else if c = .exact (-1) then B.neg x
  else
    match x with
    | .sum _ => .prod [.num c, x]
    | .prod (.num n :: rest) =>
      let m := c.mul n
      if m = .exact 1 then Expr.rawProd rest else .prod (.num m :: rest)
    | .prod l => .prod (.num c :: l)
    | .num n => .num (c.mul n)
    | x => B.mul [.num c, x]

/-! ## Collecting terms -/

/-- What a sum has gathered: its number, or the infinity without a direction, and the
number of each different term. -/
structure Terms where
  coeff : Expr
  parts : List (Expr × Number)

/-- A part of a term that carries infinity. -/
def isInfinite : Expr → Bool
  | .num (.infinite _) | .const .zoo => true
  | _ => false

/-- Gathers the parts of a sum, nested sums after the others. The sum has no value when
two infinities meet, or an undefined number. -/
def collectTerms : Nat → List Expr → Terms → Option Terms
  | 0, _, acc => some acc
  | _, [], acc => some acc
  | fuel + 1, x :: rest, acc =>
    let join := fun (c : Number) (s : Expr) =>
      let parts := addEntry Number.add s c acc.parts
      if lookupEntry s parts = some .undefined then none
      else collectTerms fuel rest { acc with parts := parts }
    match x with
    | .num n =>
      match acc.coeff with
      | .num m =>
        let total := m.add n
        if total = .undefined then none
        else collectTerms fuel rest { acc with coeff := .num total }
      | _ => if n.isFinite then collectTerms fuel rest acc else none
    | .const .zoo =>
      if isInfinite acc.coeff then none
      else collectTerms fuel rest { acc with coeff := .zoo }
    | .sum l => collectTerms fuel (rest ++ l) acc
    | .pow b e =>
      let fold := b.isNum && (e.isInteger || (e.isRational && e.isNegative))
      if fold then collectTerms fuel (rest ++ [B.pow b e]) acc else join (.exact 1) x
    | x => let (c, s) := x.coeffMul; join c s

/-- One gathered term. -/
def buildTerm (s : Expr) (c : Number) : Option Expr :=
  if c.isZero then none
  else if c = .exact 1 then some s
  else
    match s with
    | .prod l => some (.prod (.num c :: l))
    | .sum _ => some (.prod [.num c, s])
    | s => some (B.mul [.num c, s])

/-- The terms that an infinite number leaves: a finite one is lost in it. -/
def besideInfinity (coeff : Expr) (l : List Expr) : List Expr :=
  match coeff with
  | .num (.infinite _) => l.filter fun x => x.isReal? != some true
  | .const .zoo => l.filter fun x => !(x.isClosed && x.isReal?.isSome)
  | _ => l

/-- The sum of parts in normal form. -/
def sumOf (args : List Expr) : Expr :=
  let args := args.filter fun x => x != .zero
  let start := fun (args : List Expr) =>
    match collectTerms B (Expr.sizeList args + args.length + 8) args ⟨.zero, []⟩ with
    | none => .nan
    | some acc =>
      let parts := acc.parts.filterMap fun (s, c) => buildTerm B s c
      let parts := Expr.sortParts (besideInfinity acc.coeff parts)
      Expr.rawSum (if acc.coeff = .zero then parts else acc.coeff :: parts)
  match args with
  | [] => .zero
  | [x] => x
  | [a, b] =>
    let (a, b) := if b.isRational then (b, a) else (a, b)
    if a.isRational && b.isProd then .sum [a, b] else start [a, b]
  | args => start args

end Builder

end Reckoner
