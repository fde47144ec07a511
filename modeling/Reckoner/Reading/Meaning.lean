-- What a tree means: the expression in normal form, and the expression as it was written,
-- with every power still standing.
import Reckoner.Reading.Splitting
import Reckoner.Reading.Tree
import Reckoner.Algebra.Text

namespace Reckoner

/-! ## Literals -/

/-- The value of a digit in any base up to sixteen. -/
def hexValue (c : Char) : Nat :=
  if isAsciiDigit c then c.toNat - 48
  else if 'a' ≤ c then c.toNat - 87
  else c.toNat - 55

/-- The number that digits in a base stand for. -/
def valueInBase (base : Nat) (digits : List Char) : Nat :=
  digits.foldl (fun n c => base * n + hexValue c) 0

/-- The value of a whole literal. In base ten only zero begins with a zero. -/
def wholeLiteral? (s : String) : Option Nat :=
  match s.toList with
  | '0' :: c :: rest =>
    if c = 'x' || c = 'X' then some (valueInBase 16 rest)
    else if c = 'b' || c = 'B' then some (valueInBase 2 rest)
    else if c = 'o' || c = 'O' then some (valueInBase 8 rest)
    else if (c :: rest).all (· == '0') then some 0
    else none
  | l => if l.all isAsciiDigit then some (valueInBase 10 l) else none

/-- The bits that hold so many decimal digits. -/
def bitsForPlaces (places : Nat) : Nat :=
  -- the nearest whole number to (places + 1) * log2 10
  ((places + 1) * 33219280948873626 + 5000000000000000) / 10000000000000000

/-- The value of a literal with a point or an exponent, kept to the bits that its digits
need and to 53 at least. -/
def decimalLiteral (s : String) : Number :=
  let chars := s.toList
  let isMark := fun (c : Char) => c = 'e' || c = 'E'
  let body := chars.takeWhile fun c => !isMark c
  let exponent : Int := match (chars.dropWhile fun c => !isMark c).drop 1 with
    | '-' :: digits => -(valueInBase 10 digits : Int)
    | '+' :: digits => valueInBase 10 digits
    | digits => valueInBase 10 digits
  let front := body.takeWhile (· != '.')
  let back := (body.dropWhile (· != '.')).drop 1
  let digits := valueInBase 10 (front ++ back)
  let exponent := exponent - back.length
  let count := (natText digits).length
  let isWhole := 0 ≤ exponent && !body.contains '.'
  let places := if isWhole && digits ≠ 0 then count + exponent.toNat else count
  let bits := bitsForPlaces (max 15 places)
  .approx (Binary.ofDecimal .nearest bits digits exponent) bits

/-! ## Meanings -/

/-- What a tree can mean. -/
inductive Meaning where
  | value (x : Expr)
  /-- The name of a function that is not applied. -/
  | function
  /-- Brackets around nothing. -/
  | nothing
  /-- The word for no value. -/
  | absent
  | truth (b : Bool)
  /-- A number that was worked out from truth values alone. -/
  | count (n : Int)

/-- The number that a truth value counts as. -/
def truthCount (b : Bool) : Int := if b then 1 else 0

/-- The number that a meaning made of truth values alone counts as. -/
def Meaning.count? : Meaning → Option Int
  | .truth b => some (truthCount b)
  | .count n => some n
  | _ => none

/-- The function of a name; the square root is a power. -/
def functionOf? (name : String) : Option (Option Fn) :=
  match name with
  | "sin" => some (some .sin)
  | "cos" => some (some .cos)
  | "tan" => some (some .tan)
  | "exp" => some (some .exp)
  | "log" => some (some .log)
  | "ln" => some (some .log)
  | "sqrt" => some none
  | _ => none

/-- The constant of a name. -/
def constantOf? (name : String) : Option Expr :=
  match name with
  | "pi" => some .pi
  | "I" => some .i
  | "E" => some (.const .e)
  | "oo" => some (.num (.infinite false))
  | "zoo" => some .zoo
  | "nan" => some .nan
  | _ => none

/-- The meaning of a name: a reserved word, a symbol, a function or a constant, or one of the
letters that a name was split into. -/
def nameMeaning (symbols : List String) (s : String) : Option Meaning :=
  if s = "None" then some .absent
  else if reservedWords.contains s then none
  else
    match truthOf? s with
    | some b => some (.truth b)
    | none =>
      if symbols.contains s then some (.value (.sym s))
      else if (functionOf? s).isSome then some .function
      else
        match constantOf? s with
        | some x => some (.value x)
        | none => if s.length = 1 then some (.value (.sym s)) else none

/-! ## In normal form -/

/-- The quotient of two expressions. A measured number is divided by a number in one step. -/
def quotient (x y : Expr) : Expr :=
  match x, y with
  | .num (.exact p), .num (.exact q) =>
    if q = 0 then if p = 0 then .nan else .zoo else .ofRat (p / q)
  | .num (.approx a p), .num n =>
    if n.isZero || !n.isFinite then Expr.times x (Expr.inverse y)
    else .num (Number.divMeasured (.approx a p) n)
  | x, y => if x = .one then Expr.inverse y else Expr.times x (Expr.inverse y)

/-- The whole part of a quotient. A whole number is not divided by the number zero. -/
def wholeQuotient? (x y : Expr) : Option Expr :=
  match x.rat?, y with
  | some p, .num n =>
    if !x.isInteger then some (Expr.apply .floor (quotient x y))
    else if n = .undefined then some .nan
    else if n.isZero then none
    else n.toRat?.map fun q => .ofInt (p / q).floor
  | _, y => some (Expr.apply .floor (quotient x y))

/-- The value of an operation between two expressions. -/
def combineValues (o : BinaryOperator) (x y : Expr) : Option Expr :=
  match o with
  | .plus => some (Expr.plus x y)
  | .minus => some (Expr.sub x y)
  | .times => some (Expr.times x y)
  | .over => some (quotient x y)
  | .power => some (Expr.power x y)
  | .wholeOver => wholeQuotient? x y

/-- The value of an operation between whole numbers, as far as it is whole in any case. -/
def combineCounts (o : BinaryOperator) (m n : Int) : Option Int :=
  match o with
  | .plus => some (m + n)
  | .minus => some (m - n)
  | .times => some (m * n)
  | _ => none

/-- The meaning of an operation between two meanings. Nothing times a whole number is
nothing; a truth value counts beside a whole number only. -/
def combine (o : BinaryOperator) (a b : Meaning) : Option Meaning :=
  match a, b with
  | .value x, .value y => (combineValues o x y).map .value
  | .count n, .value x => (combineValues o (.ofInt n) x).map .value
  | .value x, .count n => (combineValues o x (.ofInt n)).map .value
  | .truth b, .value x => do
    return .value (.ofInt (← combineCounts o (truthCount b) (← x.int?)))
  | .value x, .truth b => do
    return .value (.ofInt (← combineCounts o (← x.int?) (truthCount b)))
  | .nothing, .value x | .value x, .nothing =>
    if o = .times && x.isInteger then some .nothing else none
  | a, b => do return .count (← combineCounts o (← a.count?) (← b.count?))

/-- The value of a function at an expression. -/
def applyName (f : Option Fn) (x : Expr) : Expr :=
  match f with
  | some f => Expr.apply f x
  | none => Expr.sqrt x

/-- The meaning of a tree in normal form. -/
def Tree.meaning (symbols : List String) : Tree → Option Meaning
  | .name s => nameMeaning symbols s
  | .whole s => (wholeLiteral? s).map fun n => .value (.ofNat n)
  | .decimal s => some (.value (.num (decimalLiteral s)))
  | .nothing => some .nothing
  | .call f a =>
    if symbols.contains f then none
    else
      match functionOf? f, a.meaning symbols with
      | some g, some (.value x) => some (.value (applyName g x))
      | _, _ => none
  | .positive a =>
    match a.meaning symbols with
    | some (.value x) => some (.value x)
    | some m => m.count?.map .count
    | none => none
  | .negative a =>
    match a.meaning symbols with
    | some (.value x) => some (.value (Expr.neg x))
    | some m => m.count?.map fun n => .count (-n)
    | none => none
  | .binary o a b =>
    match a.meaning symbols, b.meaning symbols with
    | some x, some y => combine o x y
    | _, _ => none

/-! ## As written -/

/-- The last operation of a written expression, as far as a sum in a sum and a product in
a product are joined. -/
inductive Written where
  | sum (terms : List Expr)
  | product (factors : List Expr)
  | other (m : Meaning)

namespace Written

/-- The expression. Brackets around nothing and truth values stand for a symbol without a
name. -/
def expr? : Written → Option Expr
  | .sum l => some (.sum l)
  | .product l => some (.prod l)
  | .other (.value x) => some x
  | .other (.count n) => some (.ofInt n)
  | .other .nothing | .other (.truth _) => some (.sym "")
  | .other .function | .other .absent => none

/-- Whether it is an expression of algebra. -/
def isAlgebraic : Written → Bool
  | .sum _ | .product _ | .other (.value _) => true
  | .other _ => false

def terms? : Written → Option (List Expr)
  | .sum l => some l
  | w => w.expr?.map ([·])

def factors? : Written → Option (List Expr)
  | .product l => some l
  | w => w.expr?.map ([·])

end Written

/-- The names that an operation goes by where nothing is worked out. A symbol of one of them
takes the operation away. -/
def BinaryOperator.names : BinaryOperator → List String
  | .plus => ["Add"]
  | .minus => ["Add", "Mul"]
  | .times => ["Mul"]
  | .over => ["Mul", "Pow"]
  | .power => ["Pow"]
  | .wholeOver => []

/-- The meaning of a tree as it was written. The sides of a whole quotient are worked out,
and so is the negative of an expression. -/
def Tree.written (symbols : List String) : Tree → Option Written
  | .call f a => do
    if symbols.contains f then none
    let g ← functionOf? f
    let x ← (← a.written symbols).expr?
    match g with
    | some g => return .other (.value (.app g x))
    | none => return .other (.value (.pow x .half))
  | .positive a => do
    match ← a.written symbols with
    | .other .nothing | .other .function => none
    | .other (.truth b) => return .other (.count (truthCount b))
    | .other (.count n) => return .other (.count n)
    | w => return .other (.value (← w.expr?))
  | .negative a => do
    match ← a.written symbols with
    | .other .nothing | .other .function => none
    | .other (.truth b) => return .other (.count (-truthCount b))
    | .other (.count n) => return .other (.count (-n))
    | w => return .other (.value (Expr.neg (← w.expr?)))
  | .binary o a b =>
    if o.names.any symbols.contains then none
    else match o with
    | .plus => do
      let x ← (← a.written symbols).terms?
      let y ← (← b.written symbols).terms?
      return .sum (x ++ y)
    | .minus => do
      let x ← (← a.written symbols).terms?
      let y ← (← b.written symbols).expr?
      return .sum (x ++ [.prod [.negOne, y]])
    | .times => do
      let x ← (← a.written symbols).factors?
      let y ← (← b.written symbols).factors?
      return .product (x ++ y)
    | .over => do
      let x ← (← a.written symbols).factors?
      let y ← (← b.written symbols).expr?
      return .product (x ++ [.pow y .negOne])
    | .power => do
      let x ← (← a.written symbols).expr?
      let y ← (← b.written symbols).expr?
      return .other (.value (.pow x y))
    | .wholeOver => do
      let x ← a.meaning symbols
      let y ← b.meaning symbols
      return .other (← combine .wholeOver x y)
  | t => (t.meaning symbols).map .other

end Reckoner
