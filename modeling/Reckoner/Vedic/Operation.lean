-- The operations of mental arithmetic by name, and requests for them.
import Reckoner.Vedic.Sutras
import Reckoner.Fault.Basic

namespace Reckoner

namespace Vedic

/-! ## Operations -/

/-- An operation of mental arithmetic. -/
inductive Operation where
  | square | cube | multiply | divide
deriving DecidableEq

namespace Operation

def all : List Operation := [square, cube, multiply, divide]

def name : Operation → String
  | square => "square"
  | cube => "cube"
  | multiply => "multiply"
  | divide => "divide"

/-- The operation of a name. -/
def ofName? (name : String) : Option Operation := all.find? fun o => o.name == name

/-- The names of all operations, in order. -/
def sortedNames : List String := sortBy (fun a b => decide (a < b)) (all.map name)

/-- The names of the operands. -/
def operandNames : Operation → List String
  | square | cube => ["n"]
  | multiply => ["a", "b"]
  | divide => ["dividend", "divisor"]

/-- The solution of an operation; nothing where the operands have another number. -/
def run? : Operation → List Value → Option (Except ValueFault Solution)
  | square, [v] => some (Vedic.square v)
  | cube, [v] => some (Vedic.cube v)
  | multiply, [v, w] => some (Vedic.multiply v w)
  | divide, [v, w] => some (Vedic.divide v w)
  | _, _ => none

/-- The solution of an operation with the operands that it takes. -/
def run (o : Operation) (operands : List Value) : Except Fault Solution :=
  match o.run? operands with
  | some s => s.mapError .value
  | none => .error (.request (.wrongCount o.name o.operandNames.length operands))

end Operation

/-! ## Problems and requests -/

/-- The solution of a problem of a given type. A type that is no operation is told in the
solution. -/
def solve (type : Value) (operands : List Value) : Except Fault Solution := do
  let name ← type.toText.mapError .value
  match type, Operation.ofName? name with
  | .text _, some o => o.run operands
  | _, _ => return .failure "unknown" "Unknown Vedic problem type" [] [("problem_type", name)]

/-- An operand of a request: a finite number. -/
def checkOperand (name : String) (v : Value) : Except Fault Unit :=
  match v with
  | .number q => do
    let x ← q.toFloat.mapError .value
    if x.isFinite then return ()
    else throw (.request (.notFinite name (← q.text.mapError .value)))
  | v => .error (.request (.notNumber name v.kind))

/-- The operands that a request gives. -/
def operandsOf (o : Operation) (arguments : List (String × Value)) : Except Fault (List Value) := do
  let operands ← (requireArguments arguments o.operandNames).mapError .request
  (o.operandNames.zip operands).forM fun (name, v) => checkOperand name v
  return operands

/-- The operation that a request names. -/
def operationOf (operation : String) : Except Fault Operation :=
  match Operation.ofName? operation with
  | some o => .ok o
  | none => .error (.request (.unknownOperation operation Operation.sortedNames))

end Vedic

end Reckoner
