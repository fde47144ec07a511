-- Expressions as arguments: they are read from values, and a fault in the text becomes part of
-- the solution.
import Reckoner.Algebra.Derivative
import Reckoner.Algebra.Factored
import Reckoner.Algebra.Simplify
import Reckoner.Fault.Basic
import Reckoner.Reading.Read
import Reckoner.Solution.Basic
import Reckoner.Value.Arithmetic

namespace Reckoner

open scoped CoreArithmetic

/-- Whether a number of the expression has too many digits to be written. -/
def Expr.isTooLong (x : Expr) : Bool :=
  x.any fun
    | .num (.exact q) => 10 ^ maxDigits ≤ q.num.natAbs || 10 ^ maxDigits ≤ q.den
    | _ => false

/-- The text of an expression, where its numbers can be written. -/
def Expr.checkedText (x : Expr) : Except Fault String :=
  if x.isTooLong then .error (.value .tooLongToWrite) else .ok x.text

/-- The text of an expression in a line of text. Only a measured number by itself looks
different there. -/
def Expr.lineText (x : Expr) : Except Fault String :=
  match x with
  | .num (.approx b prec) => .ok (measuredLineText b prec)
  | x => x.checkedText

namespace Symbolic

/-- The expression that a value is the text of. What is empty in any way counts as an empty
text. -/
def readArgument (v : Value) (bound : List String) : Except Fault Expr :=
  match v with
  | .text s => (readExpression s bound).mapError .ofReading
  | v =>
    match bound.find? fun name => !isName name.toList with
    | some name => .error (.reading (.badVariable name))
    | none =>
      if v.isTrue then .error (.value (.noPart v.kind "strip")) else .error (.reading .empty)

/-- The name of the unknown that a value stands for. -/
def unknownOf : Value → Except Fault String
  | .text s => .ok s
  | v => .error (.value (.notName v.kind))

/-- Goes on with an outcome. A fault in a text that was read is told in a solution. -/
def reportReading {α : Type} (outcome : Except Fault α) (report : String → Solution)
    (next : α → Except Fault Solution) : Except Fault Solution :=
  match outcome with
  | .ok a => next a
  | .error (.reading f) => .ok (report f.message)
  | .error f => .error f

/-- A line of text made up of the texts of values. -/
def line (parts : List Value) : Except Fault String := (Value.line parts).mapError .value

/-! ## Simplification -/

/-- The simplest form of an expression. It is checked by simplifying its difference from the
expression. -/
def simplification (expression : Value) : Except Fault Solution :=
  reportReading (readArgument expression [])
    (fun reason => .failure "simplification" reason [] [("original", expression)])
    fun x => do
      let simple := x.simplify
      let text ← simple.checkedText
      return {
        method := "simplification"
        answer := text
        steps := [← line ["Original: ", expression], "Simplified: " ++ (← simple.lineText)]
        verified := (x.sub simple).simplify = .zero
        details := [("original", expression), ("simplified", text)] }

/-! ## Derivatives -/

/-- The derivative of an expression. -/
def differentiation (expression variableName : Value) : Except Fault Solution := do
  let bound ← variableName.toText.mapError .value
  reportReading (readArgument expression [bound])
    (fun reason => .failure "differentiation" reason []
      [("original", expression), ("variable", variableName)])
    fun x => do
      let name ← unknownOf variableName
      let derivative := x.derivative name
      let text ← derivative.checkedText
      return {
        method := "differentiation"
        answer := text
        steps := [← line ["f(", variableName, ") = ", expression],
          ← line ["f'(", variableName, ") = ", ← derivative.lineText]]
        details := [("original", expression), ("derivative", text), ("variable", variableName)] }

/-! ## Factors -/

/-- The factors of a polynomial. They are checked by multiplying them out. -/
def factorization (expression : Value) : Except Fault Solution :=
  reportReading (readArgument expression [])
    (fun reason => .failure "factorization" reason [] [("original", expression)])
    fun x => do
      let factored := x.factor
      let text ← factored.checkedText
      return {
        method := "factorization"
        answer := text
        steps := [← line ["Original: ", expression], "Factored: " ++ (← factored.lineText)]
        verified := (factored.sub x).expand = .zero
        details := [("original", expression), ("factored", text)] }

end Symbolic

end Reckoner
