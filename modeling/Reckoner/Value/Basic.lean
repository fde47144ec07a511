-- The values that arguments, answers and details are made of, and the formulas among them.
import Reckoner.Value.Quantity
import Reckoner.Sorting

namespace Reckoner

/-! ## Formulas -/

/-- A function of two variables, given by a formula. -/
inductive Formula where
  | x
  | y
  | number (q : Quantity)
  | add (a b : Formula)
  | sub (a b : Formula)
  | mul (a b : Formula)
  | div (a b : Formula)
  | less (a b : Formula)
  | neg (a : Formula)
  | abs (a : Formula)
  | sqrt (a : Formula)
  | sin (a : Formula)
  | cos (a : Formula)
  | exp (a : Formula)
  | log (a : Formula)

/-! ## Values -/

/-- A value. -/
inductive Value where
  /-- The value of what is not there. -/
  | nothing
  | truth (b : Bool)
  | number (q : Quantity)
  | text (s : String)
  | list (items : List Value)
  /-- Named values, in order. -/
  | record (fields : List (String × Value))
  /-- A function. -/
  | formula (f : Formula)
  /-- An experiment, which gives its values in turn, over and over. -/
  | cycle (values : List Value)

namespace Value

instance : Inhabited Value := ⟨nothing⟩

/-- A whole number. -/
@[match_pattern]
def whole (n : Int) : Value := .number (.whole n)

/-- A double. -/
@[match_pattern]
def measure (x : Float) : Value := .number (.measure x)

instance : Coe String Value := ⟨text⟩

instance : Coe Int Value := ⟨whole⟩

instance : Coe Float Value := ⟨measure⟩

def texts (l : List String) : Value := .list (l.map .text)

def wholes (l : List Int) : Value := .list (l.map whole)

def ofText? : Option String → Value
  | some s => .text s
  | none => .nothing

/-- The name of the kind of value, as messages give it. -/
def kind : Value → String
  | nothing => "NoneType"
  | truth _ => "bool"
  | number (.whole _) => "int"
  | number (.measure _) => "float"
  | text _ => "str"
  | list _ => "list"
  | record _ => "dict"
  | formula _ | cycle _ => "function"

def isNothing : Value → Bool
  | nothing => true
  | _ => false

/-- The quantity that the value is; a truth value counts one or zero. -/
def quantity? : Value → Option Quantity
  | truth b => some (.whole (if b then 1 else 0))
  | number q => some q
  | _ => none

/-- Whether the value counts as true. What is empty, zero or nothing does not. -/
def isTrue : Value → Bool
  | nothing => false
  | truth b => b
  | number q => !q.isZero
  | text s => !s.isEmpty
  | list l => !l.isEmpty
  | record l => !l.isEmpty
  | formula _ | cycle _ => true

/-- Whether the value can be called. -/
def isFunction : Value → Bool
  | formula _ | cycle _ => true
  | _ => false

/-- The value at a name of a record. -/
def field? (name : String) (fields : List (String × Value)) : Option Value :=
  lookupEntry name fields

/-- The value at a name of a record, or nothing. -/
def field (name : String) (fields : List (String × Value)) : Value :=
  (field? name fields).getD .nothing

/-! ## Equality -/

mutual
/-- Whether two values are equal. Numbers go by their exact values, and records by their
names. -/
def equal : Value → Value → Bool
  | nothing, nothing => true
  | text s, text t => s == t
  | list l, list m => equalList l m
  | record l, record m => l.length == m.length && equalFields l m
  | a, b =>
    match a.quantity?, b.quantity? with
    | some p, some q => p.equal q
    | _, _ => false
def equalList : List Value → List Value → Bool
  | [], [] => true
  | a :: r, b :: s => equal a b && equalList r s
  | _, _ => false
def equalFields : List (String × Value) → List (String × Value) → Bool
  | [], _ => true
  | (name, a) :: r, m =>
    (match lookupEntry name m with
      | some b => equal a b
      | none => false) && equalFields r m
end

end Value

end Reckoner
