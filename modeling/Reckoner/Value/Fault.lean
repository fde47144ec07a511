-- Why an operation on values has no result, and the message for it.
import Reckoner.Text.Quoted
import Reckoner.Number.Text

namespace Reckoner

/-- The most decimal digits of a whole number that are written or read. -/
def maxDigits : Nat := 4300

/-- Why an operation on values has no result. Operations and kinds of values go by the
names that the messages give them. -/
inductive ValueFault where
  /-- A whole number is divided by zero. -/
  | divisionByZero
  /-- A division by zero has a measured number in it. -/
  | measuredDivisionByZero
  /-- A whole quotient by zero. -/
  | wholeQuotientByZero
  /-- A whole quotient by zero with a measured number in it. -/
  | measuredQuotientByZero
  /-- A remainder of a division by zero. -/
  | remainderByZero
  /-- A remainder of a division by zero with a measured number in it. -/
  | measuredRemainderByZero
  /-- A complex number is divided by zero. -/
  | complexDivisionByZero
  /-- A measured zero is raised to a negative power. -/
  | negativePowerOfZero
  /-- A whole number lies past the largest double. -/
  | pastDoubles
  /-- A quotient of whole numbers lies past the largest double. -/
  | quotientPastDoubles
  /-- A power of a double lies past the largest one. -/
  | powerPastDoubles
  /-- The size of a complex number lies past the largest double. -/
  | sizePastDoubles
  /-- A function has no value at the argument. -/
  | outOfDomain
  /-- The value of a function lies past the largest double. -/
  | pastRange
  /-- An infinite number has no whole part. -/
  | infiniteHasNoWhole
  /-- An undefined number has no whole part. -/
  | undefinedHasNoWhole
  /-- A whole number has too many digits to be written. -/
  | tooLongToWrite
  /-- A text has too many digits to be read as a whole number. -/
  | tooLongToRead (digits : Nat)
  /-- A text is no whole number. -/
  | notWhole (text : String)
  /-- A value of the kind is never read as a whole number. -/
  | neverWhole (kind : String)
  /-- A value of the kind does not count. -/
  | notCount (kind : String)
  /-- The operation does not take the two kinds. -/
  | operands (op left right : String)
  /-- The operation does not take the kind. -/
  | operand (op kind : String)
  /-- The two kinds have no order. -/
  | noOrder (op left right : String)
  /-- Only a value of the same kind can be appended. -/
  | notAppended (kind other : String)
  /-- A sequence is repeated a whole number of times only. -/
  | notRepeated (kind : String)
  /-- A sequence gets too long. -/
  | tooLongSequence
  /-- A value of the kind has no decimal places. -/
  | noPlaces (kind : String)
  /-- A value of the kind is no real number. -/
  | notReal (kind : String)
  /-- A value of the kind is not rounded. -/
  | notRounded (kind : String)
  /-- A value of the kind is not called. -/
  | notCalled (kind : String)
  /-- A value of the kind has no entries. -/
  | noEntries (kind : String)
  /-- The entry at the index is no pair. -/
  | notPair (index : Nat)
  /-- The entry at the index has a length other than two. -/
  | wrongLength (index length : Nat)
  /-- A value of the kind is no key. -/
  | notKey (kind : String)
  /-- A value of the kind has no part of the name. -/
  | noPart (kind name : String)
  /-- No name of a value is of the kind. -/
  | notName (kind : String)
  /-- There is no entry of the name. -/
  | unknownEntry (name : String)
  /-- A whole number is too large to be tried in a scan. -/
  | notScanned
  /-- The value is no expression. -/
  | noExpression (text : String)
  /-- The text stands for no expression. -/
  | unreadable (text : String)
  /-- The steps toward a point do not end. -/
  | endless
deriving DecidableEq

namespace ValueFault

/-- The name of the kind of fault. -/
def kind : ValueFault → String
  | divisionByZero | measuredDivisionByZero | wholeQuotientByZero | measuredQuotientByZero
  | remainderByZero | measuredRemainderByZero | complexDivisionByZero | negativePowerOfZero =>
    "ZeroDivisionError"
  | pastDoubles | quotientPastDoubles | powerPastDoubles | sizePastDoubles | pastRange | infiniteHasNoWhole
  | tooLongSequence => "OverflowError"
  | outOfDomain | undefinedHasNoWhole | tooLongToWrite | tooLongToRead _ | notWhole _
  | wrongLength _ _ => "ValueError"
  | noPlaces kind => if kind = "str" then "ValueError" else "TypeError"
  | noPart _ _ => "AttributeError"
  | unknownEntry _ => "KeyError"
  | noExpression _ | unreadable _ => "SympifyError"
  | endless => "RuntimeError"
  | _ => "TypeError"

/-- The text of a text in quotes, cut short. -/
def shortQuoted (s : String) : String := String.ofList ((quoted s).toList.take 200)

/-- The message for the fault. -/
def message : ValueFault → String
  | divisionByZero => "division by zero"
  | measuredDivisionByZero => "float division by zero"
  | wholeQuotientByZero => "integer division or modulo by zero"
  | measuredQuotientByZero => "float floor division by zero"
  | remainderByZero => "integer modulo by zero"
  | measuredRemainderByZero => "float modulo"
  | complexDivisionByZero => "complex division by zero"
  | negativePowerOfZero => "0.0 cannot be raised to a negative power"
  | pastDoubles => "int too large to convert to float"
  | quotientPastDoubles => "integer division result too large for a float"
  | powerPastDoubles => "(34, 'Numerical result out of range')"
  | sizePastDoubles => "absolute value too large"
  | outOfDomain => "math domain error"
  | pastRange => "math range error"
  | infiniteHasNoWhole => "cannot convert float infinity to integer"
  | undefinedHasNoWhole => "cannot convert float NaN to integer"
  | tooLongToWrite =>
    "Exceeds the limit (" ++ natText maxDigits ++ " digits) for integer string conversion; " ++
      "use sys.set_int_max_str_digits() to increase the limit"
  | tooLongToRead n =>
    "Exceeds the limit (" ++ natText maxDigits ++ " digits) for integer string conversion: " ++
      "value has " ++ natText n ++ " digits; " ++
      "use sys.set_int_max_str_digits() to increase the limit"
  | notWhole s => "invalid literal for int() with base 10: " ++ shortQuoted s
  | neverWhole k =>
    "int() argument must be a string, a bytes-like object or a real number, not '" ++ k ++ "'"
  | notCount k => "'" ++ k ++ "' object cannot be interpreted as an integer"
  | operands op a b => "unsupported operand type(s) for " ++ op ++ ": '" ++ a ++ "' and '" ++ b ++ "'"
  | operand op k => "bad operand type for " ++ op ++ ": '" ++ k ++ "'"
  | noOrder op a b =>
    "'" ++ op ++ "' not supported between instances of '" ++ a ++ "' and '" ++ b ++ "'"
  | notAppended k other =>
    "can only concatenate " ++ k ++ " (not \"" ++ other ++ "\") to " ++ k
  | notRepeated k => "can't multiply sequence by non-int of type '" ++ k ++ "'"
  | tooLongSequence => "cannot fit 'int' into an index-sized integer"
  | noPlaces k =>
    if k = "str" then "Unknown format code 'f' for object of type 'str'"
    else "unsupported format string passed to " ++ k ++ ".__format__"
  | notReal k => "must be real number, not " ++ k
  | notRounded k => "type " ++ k ++ " doesn't define __round__ method"
  | notCalled k => "'" ++ k ++ "' object is not callable"
  | noEntries k => "'" ++ k ++ "' object is not iterable"
  | notPair i => "cannot convert dictionary update sequence element #" ++ natText i ++ " to a sequence"
  | wrongLength i n =>
    "dictionary update sequence element #" ++ natText i ++ " has length " ++ natText n ++
      "; 2 is required"
  | notKey k => "unhashable type: '" ++ k ++ "'"
  | noPart k name => "'" ++ k ++ "' object has no attribute '" ++ name ++ "'"
  | notName k => "name should be a string, not <class '" ++ k ++ "'>"
  | unknownEntry name => quoted name
  | notScanned =>
    "ufunc 'isfinite' not supported for the input types, and the inputs could not be safely " ++
      "coerced to any supported types according to the casting rule ''safe''"
  | noExpression s => "SympifyError: " ++ s
  | unreadable s =>
    "Sympify of expression 'could not parse " ++ quoted s ++ "' failed, because of exception " ++
      "being raised:\nSyntaxError: invalid syntax (<string>, line 1)"
  | endless => "the steps do not end"

end ValueFault

end Reckoner
