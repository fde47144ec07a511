-- Operations on values: numbers are added and multiplied, texts and lists joined and
-- repeated, and all else is a fault.
import Reckoner.Value.Basic
import Reckoner.Text.Blank
import Reckoner.Text.Digit

namespace Reckoner

open scoped CoreArithmetic

namespace Value

/-! ## Numbers -/

/-- An operation on two numbers; other kinds have a rule of their own. -/
def onNumbers (op : Quantity → Quantity → Except ValueFault Quantity)
    (other : Value → Value → Except ValueFault Value) (a b : Value) : Except ValueFault Value :=
  match a.quantity?, b.quantity? with
  | some p, some q => (op p q).map .number
  | _, _ => other a b

/-- No rule for other kinds. -/
def noRule (op : String) (a b : Value) : Except ValueFault Value :=
  .error (.operands op a.kind b.kind)

def sub : Value → Value → Except ValueFault Value := onNumbers Quantity.sub (noRule "-")

def div : Value → Value → Except ValueFault Value := onNumbers Quantity.div (noRule "/")

def wholeQuotient : Value → Value → Except ValueFault Value :=
  onNumbers Quantity.wholeQuotient (noRule "//")

def remainder : Value → Value → Except ValueFault Value :=
  onNumbers Quantity.remainder (noRule "%")

def neg (a : Value) : Except ValueFault Value :=
  match a.quantity? with
  | some q => .ok (.number q.neg)
  | none => .error (.operand "unary -" a.kind)

def abs (a : Value) : Except ValueFault Value :=
  match a.quantity? with
  | some q => .ok (.number q.abs)
  | none => .error (.operand "abs()" a.kind)

/-- The number rounded to some decimal places. -/
def roundTo (places : Nat) (a : Value) : Except ValueFault Value :=
  match a.quantity? with
  | some q => .ok (.number (q.roundTo places))
  | none => .error (.notRounded a.kind)

/-! ## Texts and lists -/

/-- Two texts or two lists, one after the other. -/
def append : Value → Value → Except ValueFault Value
  | text s, text t => .ok (.text (s ++ t))
  | list l, list m => .ok (.list (l ++ m))
  | text _, b => .error (.notAppended "str" b.kind)
  | list _, b => .error (.notAppended "list" b.kind)
  | a, b => noRule "+" a b

def add : Value → Value → Except ValueFault Value := onNumbers Quantity.add append

/-- The length that no sequence has. -/
def endlessLength : Nat := 2 ^ (63 : Nat)

/-- A sequence so many times over; a negative count leaves nothing. -/
def copies {α : Type} (l : List α) (n : Int) : Except ValueFault (List α) :=
  if l.isEmpty then .ok []
  else if endlessLength ≤ l.length * n.toNat then .error .tooLongSequence
  else .ok (List.replicate n.toNat l).flatten

/-- A text or list, repeated. -/
def repeated : Value → Value → Except ValueFault Value
  | text s, b => times (fun n => (copies s.toList n).map fun l => .text (String.ofList l)) b
  | list l, b => times (fun n => (copies l n).map .list) b
  | a, text s => times (fun n => (copies s.toList n).map fun l => .text (String.ofList l)) a
  | a, list l => times (fun n => (copies l n).map .list) a
  | a, b => noRule "*" a b
where
  /-- A whole number of repetitions. -/
  times (f : Int → Except ValueFault Value) (count : Value) : Except ValueFault Value :=
    match count.quantity? with
    | some (.whole n) => f n
    | _ => .error (.notRepeated count.kind)

def mul : Value → Value → Except ValueFault Value := onNumbers Quantity.mul repeated

/-! ## Order -/

mutual
/-- Whether one value stands before another, or is equal to it where `orEqual` holds. -/
def before (op : String) (orEqual : Bool) : Value → Value → Except ValueFault Bool
  | text s, text t => .ok (decide (s < t) || (orEqual && s == t))
  | list l, list m => beforeList op orEqual l m
  | a, b =>
    match a.quantity?, b.quantity? with
    | some p, some q => .ok (if orEqual then p.lessEqual q else p.less q)
    | _, _ => .error (.noOrder op a.kind b.kind)
/-- The order of lists is that of the first elements that differ. -/
def beforeList (op : String) (orEqual : Bool) : List Value → List Value → Except ValueFault Bool
  | [], [] => .ok orEqual
  | [], _ :: _ => .ok true
  | _ :: _, [] => .ok false
  | a :: r, b :: s => if a.equal b then beforeList op orEqual r s else before op orEqual a b
end

def less (a b : Value) : Except ValueFault Bool := before "<" false a b

def lessEqual (a b : Value) : Except ValueFault Bool := before "<=" true a b

/-- Whether the first value is at least the second. -/
def atLeast (a b : Value) : Except ValueFault Bool :=
  match a.quantity?, b.quantity? with
  | some p, some q => .ok (q.lessEqual p)
  | _, _ => .error (.noOrder ">=" a.kind b.kind)

/-! ## Conversions -/

/-- The digits of a text with single underscores between them. -/
def digitsOf? : List Char → Option (List Char)
  | [] => none
  | [c] => if isDigit c then some [c] else none
  | c :: '_' :: rest => if isDigit c then (digitsOf? rest).map (c :: ·) else none
  | c :: rest => if isDigit c then (digitsOf? rest).map (c :: ·) else none

/-- The whole number that digits stand for, of which there are not too many. -/
def wholeOfDigits (digits : List Char) : Except ValueFault Nat :=
  if maxDigits < digits.length then .error (.tooLongToRead digits.length)
  else .ok (digitsValue digits)

/-- The whole number that a text names. -/
def readWhole (s : String) : Except ValueFault Int :=
  let (negative, rest) := match stripBlank s.toList with
    | '-' :: r => (true, r)
    | '+' :: r => (false, r)
    | r => (false, r)
  match digitsOf? rest with
  | some digits => (wholeOfDigits digits).map fun n => if negative then -(n : Int) else n
  | none => .error (.notWhole s)

/-- The value as a whole number. -/
def toInt (v : Value) : Except ValueFault Int :=
  match v with
  | text s => readWhole s
  | v => match v.quantity? with
    | some q => q.toInt
    | none => .error (.neverWhole v.kind)

/-- The value as a double. -/
def toFloat (v : Value) : Except ValueFault Float :=
  match v.quantity? with
  | some q => q.toFloat
  | none => .error (.notReal v.kind)

/-- The value as a count of repetitions. -/
def toCount (v : Value) : Except ValueFault Nat :=
  match v.quantity? with
  | some (.whole n) => .ok n.toNat
  | _ => .error (.notCount v.kind)

end Value

end Reckoner
