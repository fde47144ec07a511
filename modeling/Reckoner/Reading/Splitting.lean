-- Words that are more than names, even where they are bound: some are read as no name at all,
-- and some have the next name read letter by letter.
import Reckoner.Reading.Token

namespace Reckoner

/-! ## Reserved words -/

/-- The words that no expression is made of. -/
def reservedWords : List String :=
  ["and", "as", "assert", "async", "await", "break", "class", "continue", "def", "del", "elif",
    "else", "except", "finally", "for", "from", "global", "if", "import", "in", "is", "lambda",
    "nonlocal", "not", "or", "pass", "raise", "return", "try", "while", "with", "yield"]

/-- The truth value that a word stands for. -/
def truthOf? : String → Option Bool
  | "True" => some true
  | "False" => some false
  | _ => none

/-! ## Letters -/

/-- The words that have the next name read letter by letter. -/
def splittingWords : List String := ["Symbol", "Function"]

/-- The names of Greek letters, which stay whole. -/
def greekNames : List String :=
  ["alpha", "beta", "gamma", "delta", "epsilon", "zeta", "eta", "theta", "iota", "kappa", "lamda",
    "mu", "nu", "xi", "omicron", "pi", "rho", "sigma", "tau", "upsilon", "phi", "chi", "psi",
    "omega", "digamma", "stigma", "koppa", "sampi", "heta", "san", "sho"]

/-- The letters that are read of a name: all but the first and the last. -/
def innerLetters (name : String) : List Char := (name.toList.drop 1).dropLast

/-- Whether so many letters are read one by one. -/
def isSplit (letters : List Char) : Bool :=
  1 < letters.length && !greekNames.contains (String.ofList (letters.map Char.toLower))

/-- The tokens of letters that are read one by one. Digits that follow each other make up a
number, which `digits` holds. A letter without a meaning is a symbol, unless its maker is
bound itself. -/
def letterTokens (symbols : List String) : List Char → List Char → Option (List Token)
  | [], digits => some (if digits.isEmpty then [] else numberTokens digits.reverse)
  | c :: rest, digits =>
    if isAsciiDigit c then letterTokens symbols rest (c :: digits)
    else
      let name := String.singleton c
      let before := if digits.isEmpty then [] else numberTokens digits.reverse
      let isKnown := symbols.contains name || name = "E" || name = "I"
      if isKnown || !(symbols.contains "Symbol" || ["N", "O", "Q", "S"].contains name) then
        (letterTokens symbols rest []).map (before ++ .name name :: ·)
      else none

/-- Where the splitting of names stands. -/
structure SplitState where
  /-- Whether the next name is read letter by letter. -/
  split : Bool
  /-- Whether the next token is left out. -/
  skip : Bool

/-- Splits the names that follow a splitting word; `before` holds what was read, last first.
The letters take the place of the two tokens before the name and of the one behind it. -/
def splitNames (symbols : List String) :
    List Token → List Token → SplitState → Option (List Token)
  | [], before, _ => some before.reverse
  | t :: rest, before, state =>
    if state.skip then splitNames symbols rest before { state with skip := false }
    else
      match t with
      | .name s =>
        if splittingWords.contains s then splitNames symbols rest (t :: before) ⟨true, false⟩
        else if state.split && isSplit (innerLetters s) then
          match before with
          | _ :: _ :: before => do
            let letters ← letterTokens symbols (innerLetters s) []
            splitNames symbols rest (letters.reverse ++ before) ⟨false, true⟩
          | _ => none
        else splitNames symbols rest (t :: before) ⟨false, false⟩
      | t => splitNames symbols rest (t :: before) state

end Reckoner
