-- The first reading of a text: it is cut into lexemes from left to right, and the names in
-- it are checked and gathered. Only letters, digits, blanks and signs of arithmetic pass.
import Reckoner.Reading.Fault
import Reckoner.Algebra.Expr

namespace Reckoner

/-! ## Characters -/

def isAsciiDigit (c : Char) : Bool := '0' ≤ c && c ≤ '9'

def isAsciiLetter (c : Char) : Bool := ('a' ≤ c && c ≤ 'z') || ('A' ≤ c && c ≤ 'Z')

/-- A character that may continue a name. -/
def isNameChar (c : Char) : Bool := isAsciiLetter c || isAsciiDigit c

/-- The signs that are a lexeme by themselves. -/
def isSign (c : Char) : Bool := ['+', '-', '*', '/', '^', '(', ')'].contains c

/-- Whether the text is a name: a letter, and then letters and digits. -/
def isName : List Char → Bool
  | [] => false
  | c :: rest => isAsciiLetter c && rest.all isNameChar

/-! ## Lexemes -/

inductive LexemeKind where
  | blank | number | sign | name
deriving DecidableEq

/-- A lexeme: its kind and its characters. -/
structure Lexeme where
  kind : LexemeKind
  chars : List Char
deriving DecidableEq

/-- The digits that begin a text, with a point and digits after them if a point follows. -/
def numberFrom (digits rest : List Char) : Lexeme × List Char :=
  match rest with
  | '.' :: more =>
    (⟨.number, digits ++ '.' :: more.takeWhile isAsciiDigit⟩, more.dropWhile isAsciiDigit)
  | rest => (⟨.number, digits⟩, rest)

/-- The lexeme that begins a text, and the rest of the text. -/
def nextLexeme? : List Char → Option (Lexeme × List Char)
  | [] => none
  | c :: rest =>
    if isBlank c then some (⟨.blank, c :: rest.takeWhile isBlank⟩, rest.dropWhile isBlank)
    else if isAsciiDigit c then
      some (numberFrom (c :: rest.takeWhile isAsciiDigit) (rest.dropWhile isAsciiDigit))
    else if isAsciiLetter c then
      some (⟨.name, c :: rest.takeWhile isNameChar⟩, rest.dropWhile isNameChar)
    else if c = '.' then
      match rest with
      | d :: more =>
        if isAsciiDigit d then
          some (⟨.number, '.' :: d :: more.takeWhile isAsciiDigit⟩, more.dropWhile isAsciiDigit)
        else none
      | [] => none
    else if c = '*' && rest.head? = some '*' then some (⟨.sign, ['*', '*']⟩, rest.drop 1)
    else if isSign c then some (⟨.sign, [c]⟩, rest)
    else none

/-! ## Names -/

/-- The names of functions. -/
def functionNames : List String := ["sin", "cos", "tan", "exp", "log", "ln", "sqrt"]

/-- The names of constants. -/
def constantNames : List String := ["pi"]

/-- A name with a meaning of its own. -/
def isKnownName (name : String) : Bool := functionNames.contains name || constantNames.contains name

/-- The name that a lexeme adds to the symbols of the text. A word of several letters must
be bound. -/
def symbolOf (bound : List String) (lexeme : Lexeme) : Except ReadFault (List String) :=
  let name := String.ofList lexeme.chars
  if lexeme.kind ≠ .name || isKnownName name then .ok []
  else if bound.contains name || lexeme.chars.length = 1 then .ok [name]
  else .error (.unknownName name)

/-- Scans a text from a position. The text gets shorter with each lexeme, so its length
bounds their number. -/
def scanFrom (bound : List String) :
    Nat → Nat → List Char → Except ReadFault (List String)
  | _, _, [] => .ok []
  | 0, _, _ => .ok []
  | fuel + 1, position, c :: rest =>
    match nextLexeme? (c :: rest) with
    | none => .error (.unsupported c position)
    | some (lexeme, more) => do
      let names ← symbolOf bound lexeme
      let others ← scanFrom bound fuel (position + lexeme.chars.length) more
      return names ++ others

/-- The names of the symbols in a text, in order, or the first fault in it. -/
def symbolNames (text : String) (bound : List String) : Except ReadFault (List String) :=
  let chars := text.toList
  if maxTextLength < chars.length then .error (.tooLong chars.length)
  else (scanFrom bound chars.length 0 chars).map sortNames

end Reckoner
