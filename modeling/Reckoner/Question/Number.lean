-- The numbers that stand in a text: digits, maybe with a minus sign before them and a point
-- in or after them.
import Reckoner.Value.Arithmetic

namespace Reckoner

/-! ## Literals -/

/-- A number as it stands in a text. -/
structure Literal where
  /-- Whether a minus sign stands before it. -/
  negative : Bool
  /-- The digits before the point. -/
  whole : List Char
  /-- The digits after the point, where there is a point. -/
  part : Option (List Char)
deriving DecidableEq

namespace Literal

/-- The text of the literal. -/
def chars (l : Literal) : List Char :=
  (if l.negative then ['-'] else []) ++ l.whole ++
    match l.part with
    | some part => '.' :: part
    | none => []

/-- The value of a literal with a point. -/
def measuredValue (negative : Bool) (whole part : List Char) : Float :=
  let x := Double.ofDecimal (digitsValue (whole ++ part)) (-(part.length : Int))
  if negative then -x else x

/-- The value of the literal. One without a point is a whole number, and may not be too long. -/
def value (l : Literal) : Except ValueFault Value :=
  match l.part with
  | some part => .ok (.measure (measuredValue l.negative l.whole part))
  | none => (Value.wholeOfDigits l.whole).map fun n => .whole (if l.negative then -(n : Int) else n)

end Literal

/-! ## Search -/

/-- The literal that begins with digits, and the text after it. -/
def spanLiteral (negative : Bool) (s : List Char) : Literal × List Char :=
  let whole := s.takeWhile isDigit
  match s.dropWhile isDigit with
  | '.' :: rest => (⟨negative, whole, some (rest.takeWhile isDigit)⟩, rest.dropWhile isDigit)
  | rest => (⟨negative, whole, none⟩, rest)

/-- The literals of a text. Each step takes a character at least, so the length of the text
bounds their number. -/
def literalsFrom : Nat → List Char → List Literal
  | 0, _ => []
  | _, [] => []
  | fuel + 1, '-' :: c :: rest =>
    if isDigit c then
      let (l, rest) := spanLiteral true (c :: rest)
      l :: literalsFrom fuel rest
    else literalsFrom fuel (c :: rest)
  | fuel + 1, c :: rest =>
    if isDigit c then
      let (l, rest) := spanLiteral false (c :: rest)
      l :: literalsFrom fuel rest
    else literalsFrom fuel rest

/-- The literals of a text, from left to right. -/
def literals (text : String) : List Literal := literalsFrom text.length text.toList

def literalValues : List Literal → Except ValueFault (List Value)
  | [] => .ok []
  | l :: rest => do
    let v ← l.value
    return v :: (← literalValues rest)

/-- The numbers of a text, from left to right. -/
def numbersIn (text : String) : Except ValueFault (List Value) := literalValues (literals text)

end Reckoner
