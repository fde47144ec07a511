-- What expressions denote, and what the trees of texts denote. Symbols, constants, functions and
-- powers get their values from an interpretation in a field; numbers, sums and products get theirs
-- from the field.
import Mathlib
import Reckoner.Reading.Meaning

namespace Reckoner

/-! ## Interpretations -/

/-- Values for all that is not arithmetic. Of powers it is known that the exponent one changes
nothing, and that the opposite exponent gives the reciprocal. -/
structure Interpretation (K : Type) [Field K] where
  symbol : String → K
  constant : Constant → K
  function : Fn → K → K
  power : K → K → K
  power_one : ∀ b, power b 1 = b
  power_neg : ∀ b e, power b (-e) = (power b e)⁻¹

/-- The functions of complex numbers. The slope of the whole part has no value there. -/
noncomputable def Fn.complex : Fn → ℂ → ℂ
  | .sin => Complex.sin
  | .cos => Complex.cos
  | .tan => Complex.tan
  | .cot => Complex.cot
  | .sec => fun z => (Complex.cos z)⁻¹
  | .csc => fun z => (Complex.sin z)⁻¹
  | .sinh => Complex.sinh
  | .cosh => Complex.cosh
  | .tanh => Complex.tanh
  | .coth => fun z => (Complex.tanh z)⁻¹
  | .sech => fun z => (Complex.cosh z)⁻¹
  | .csch => fun z => (Complex.sinh z)⁻¹
  | .exp => Complex.exp
  | .log => Complex.log
  | .floor => fun z => ⌊z.re⌋ + ⌊z.im⌋ * Complex.I
  | .floorSlope => fun _ => 0

/-- The complex numbers, with these values of the symbols. -/
noncomputable def Interpretation.complex (symbol : String → ℂ) : Interpretation ℂ where
  symbol := symbol
  constant
    | .pi => Real.pi
    | .e => Complex.exp 1
    | .i => Complex.I
    | .zoo => 0
  function := Fn.complex
  power := fun b e => b ^ e
  power_one := Complex.cpow_one
  power_neg := Complex.cpow_neg

/-! ## Values -/

section Value

variable {K : Type} [Field K] (I : Interpretation K)

/-- The value of a number, as far as it is one of arithmetic. -/
def Number.valueIn (K : Type) [Field K] : Number → K
  | .exact q => (q : K)
  | .approx b _ => (b.toRat : K)
  | .infinite _ | .undefined => 0

namespace Expr

mutual
/-- The value of an expression. -/
def value : Expr → K
  | .num n => n.valueIn K
  | .const c => I.constant c
  | .sym s => I.symbol s
  | .sum l => sumValue l
  | .prod l => prodValue l
  | .pow b e => I.power (value b) (value e)
  | .app f a => I.function f (value a)
def sumValue : List Expr → K
  | [] => 0
  | x :: l => value x + sumValue l
def prodValue : List Expr → K
  | [] => 1
  | x :: l => value x * prodValue l
end

@[simp] theorem value_num (q : ℚ) : (Expr.num (.exact q)).value I = q := rfl

@[simp] theorem value_sum (l : List Expr) : (Expr.sum l).value I = (l.map (value I)).sum := by
  change sumValue I l = _
  induction l with
  | nil => rfl
  | cons x l ih =>
    change value I x + sumValue I l = _
    rw [ih, List.map_cons, List.sum_cons]

@[simp] theorem value_prod (l : List Expr) : (Expr.prod l).value I = (l.map (value I)).prod := by
  change prodValue I l = _
  induction l with
  | nil => rfl
  | cons x l ih =>
    change value I x * prodValue I l = _
    rw [ih, List.map_cons, List.prod_cons]

@[simp] theorem value_pow (b e : Expr) :
    (Expr.pow b e).value I = I.power (b.value I) (e.value I) := rfl

@[simp] theorem value_app (f : Fn) (a : Expr) :
    (Expr.app f a).value I = I.function f (a.value I) := rfl

@[simp] theorem value_sym (s : String) : (Expr.sym s).value I = I.symbol s := rfl

@[simp] theorem value_const (c : Constant) : (Expr.const c).value I = I.constant c := rfl

theorem value_one : Expr.one.value I = 1 := by rw [one, value_num, Rat.cast_one]

theorem value_negOne : negOne.value I = -1 := by
  rw [negOne, value_num, Rat.cast_neg, Rat.cast_one]

/-- A product that is taken as it is has the value of a product. -/
theorem value_rawProd (l : List Expr) : (rawProd l).value I = (l.map (value I)).prod := by
  match l with
  | [] => exact value_one I
  | [x] => simp [rawProd]
  | x :: y :: l => rw [rawProd, value_prod] <;> simp

end Expr

/-! ## Trees -/

/-- The value of an operation between two values. -/
def BinaryOperator.value (a b : K) : BinaryOperator → K
  | .plus => a + b
  | .minus => a - b
  | .times => a * b
  | .over => a / b
  | .wholeOver => I.function .floor (a / b)
  | .power => I.power a b

/-- The value of a function by its name; the square root is a power. -/
def Interpretation.applied (f : Option Fn) (a : K) : K :=
  match f with
  | some g => I.function g a
  | none => I.power a ((1 / 2 : ℚ) : K)

/-- The value that a tree has as it stands, where it has one. -/
def Tree.value (symbols : List String) : Tree → Option K
  | .name s =>
    match nameMeaning symbols s with
    | some (.value x) => some (x.value I)
    | _ => none
  | .whole s => (wholeLiteral? s).map Nat.cast
  | .decimal s => some ((decimalLiteral s).valueIn K)
  | .nothing => none
  | .call f a =>
    if symbols.contains f then none
    else (functionOf? f).bind fun g => (a.value symbols).map (I.applied g)
  | .positive a => a.value symbols
  | .negative a => (a.value symbols).map Neg.neg
  | .binary o a b =>
    (a.value symbols).bind fun x => (b.value symbols).map fun y => o.value I x y

end Value

end Reckoner
