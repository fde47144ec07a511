-- Patterns of text: parts that have to follow one another. A letter stands for itself in
-- either case. A pattern occurs in a text where its parts follow one another somewhere.
import Reckoner.Text.Case
import Reckoner.Text.Digit
import Reckoner.Text.Word

namespace Reckoner

/-! ## Kinds of characters -/

/-- Whether a character is taken for a letter of the Latin alphabet without marks. Four
letters that have one of them as their other case are among these. -/
def isPlainLetter (c : Char) : Bool :=
  ('a' ≤ c && c ≤ 'z') || ('A' ≤ c && c ≤ 'Z') || [0x130, 0x131, 0x17f, 0x212a].contains c.toNat

/-- A kind of characters. -/
inductive CharKind where
  /-- All but the end of a line. -/
  | any
  | blank
  | digit
  | letter
  /-- Blanks and the marks that end a sentence. -/
  | closer
deriving DecidableEq

/-- Whether a character is of a kind. -/
def CharKind.has : CharKind → Char → Bool
  | any, c => c != '\n'
  | blank, c => isBlank c
  | digit, c => isDigit c
  | letter, c => isPlainLetter c
  | closer, c => isBlank c || c == '?' || c == '.' || c == '!'

/-! ## Patterns -/

/-- A part of a pattern. -/
inductive PatternPart where
  /-- The letter, in either case. -/
  | letter (c : Char)
  /-- One character of the kind. -/
  | one (kind : CharKind)
  /-- Any number of characters of the kind. -/
  | many (kind : CharKind)
  /-- A place where a word begins or ends. -/
  | edge
  /-- A place that does not follow a character of the kind. -/
  | notAfter (kind : CharKind)
  /-- A place that does not precede a character of the kind. -/
  | notBefore (kind : CharKind)
  /-- The end of the text, or of its last line. -/
  | finish
deriving DecidableEq

/-- Parts that have to follow one another. -/
abbrev Pattern := List PatternPart

/-- The pattern of a word. -/
def letters (s : String) : Pattern := s.toList.map .letter

/-- Whether a word begins or ends between two places. -/
def isEdge (prev next : Option Char) : Bool := prev.any isWordChar != next.any isWordChar

/-- Whether something holds after some characters of a kind. -/
def holdsAfter (kind : CharKind) (next : Option Char → List Char → Bool) :
    Option Char → List Char → Bool
  | prev, [] => next prev []
  | prev, c :: rest => next prev (c :: rest) || (kind.has c && holdsAfter kind next (some c) rest)

namespace Pattern

/-- Whether the pattern matches at a place, which is given by the character before it and the
text after it. -/
def matchesAt : Pattern → Option Char → List Char → Bool
  | [], _, _ => true
  | .letter a :: parts, _, s =>
    match s with
    | c :: rest => sameLetter a c && matchesAt parts (some c) rest
    | [] => false
  | .one kind :: parts, _, s =>
    match s with
    | c :: rest => kind.has c && matchesAt parts (some c) rest
    | [] => false
  | .many kind :: parts, prev, s => holdsAfter kind (matchesAt parts) prev s
  | .edge :: parts, prev, s => isEdge prev s.head? && matchesAt parts prev s
  | .notAfter kind :: parts, prev, s => !prev.any kind.has && matchesAt parts prev s
  | .notBefore kind :: parts, prev, s => !s.head?.any kind.has && matchesAt parts prev s
  | .finish :: parts, prev, s => (s.isEmpty || s == ['\n']) && matchesAt parts prev s

/-- The text before and after the first place at which the pattern matches. -/
def splitAt? (p : Pattern) (prev : Option Char) (s : List Char) :
    Option (List Char × List Char) :=
  if p.matchesAt prev s then some ([], s)
  else
    match s with
    | [] => none
    | c :: rest => (splitAt? p (some c) rest).map fun (before, after) => (c :: before, after)

/-- Whether the pattern matches somewhere. -/
def occursFrom (p : Pattern) (prev : Option Char) (s : List Char) : Bool :=
  p.matchesAt prev s ||
    match s with
    | [] => false
    | c :: rest => occursFrom p (some c) rest

/-- Whether the pattern occurs in a text. -/
def occursIn (p : Pattern) (s : String) : Bool := p.occursFrom none s.toList

end Pattern

/-- Whether one of the patterns occurs in a text. -/
def anyOccurs (patterns : List Pattern) (s : String) : Bool := patterns.any fun p => p.occursIn s

end Reckoner
