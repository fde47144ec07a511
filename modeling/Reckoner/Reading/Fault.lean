-- What can be wrong with the text of an expression, and the message for it.
import Reckoner.Text.Quoted
import Reckoner.Value.Fault

namespace Reckoner

/-- The longest text that is read. -/
def maxTextLength : Nat := 500

/-- The largest size of an exponent that is a number. -/
def maxExponent : Nat := 100

/-- The most digits that a power may have. -/
def maxPowerDigits : Nat := 1000

/-- What is wrong with the text of an expression. -/
inductive ReadFault where
  /-- The text has too many characters. -/
  | tooLong (length : Nat)
  /-- No lexeme begins with the character at the position. -/
  | unsupported (c : Char) (position : Nat)
  /-- A word is neither known nor bound. -/
  | unknownName (name : String)
  /-- A bound variable is no name. -/
  | badVariable (name : String)
  /-- There is nothing but blanks. -/
  | empty
  /-- The lexemes do not make up an expression. -/
  | malformed (text : String)
  /-- What is read is not an expression of algebra. -/
  | notAlgebraic (text : String)
  /-- The exponent of a power is too large. -/
  | exponentTooLarge
  /-- A power has too many digits. -/
  | powerTooLarge
  /-- The base or exponent of a power, written out, has no finite value. -/
  | noFiniteValue (value : String)
  /-- A value in the text does not take part in arithmetic. -/
  | value (fault : ValueFault)
deriving DecidableEq

namespace ReadFault

/-- The message for the fault. -/
def message : ReadFault → String
  | tooLong _ => "Expression longer than " ++ toString maxTextLength ++ " characters"
  | unsupported c _ => "Unsupported character " ++ quoted (String.singleton c) ++ " in expression"
  | unknownName name => "Unknown name '" ++ name ++ "' in expression"
  | badVariable name => "Invalid variable name: '" ++ name ++ "'"
  | empty => "Empty expression"
  | malformed text => "Invalid mathematical expression: '" ++ text ++ "'"
  | notAlgebraic text => "Not an algebraic expression: '" ++ text ++ "'"
  | exponentTooLarge => "Exponent too large (limit " ++ toString maxExponent ++ ")"
  | powerTooLarge =>
    "Power too large to evaluate (over " ++ toString maxPowerDigits ++ " digits)"
  | noFiniteValue shown => "Expression has no finite value: " ++ shown
  | value f => f.message

end ReadFault

end Reckoner
