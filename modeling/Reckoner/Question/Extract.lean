-- The expression or equation that a question in words is about.
import Reckoner.Text.Pattern

namespace Reckoner

/-! ## Lexemes -/

/-- The names of functions that may stand in an expression. -/
def knownFunctions : List String := ["sin", "cos", "tan", "exp", "log", "ln", "sqrt"]

/-- Whether a character by itself is a lexeme. -/
def isExpressionChar (c : Char) : Bool :=
  isDigit c || ['+', '-', '*', '/', '^', '(', ')', '.', ' '].contains c

/-- The text after a word at its beginning, in either case. -/
def dropWord? : List Char → List Char → Option (List Char)
  | [], s => some s
  | _, [] => none
  | a :: word, c :: rest => if sameLetter a c then dropWord? word rest else none

/-- The texts after a lexeme, in the order in which the lexemes are tried: a function, the
variable, a single character. -/
def afterLexeme (name : List Char) (s : List Char) : List (List Char) :=
  (knownFunctions.map String.toList ++ [name]).filterMap (fun word => dropWord? word s) ++
    match s with
    | c :: rest => if isExpressionChar c then [rest] else []
    | [] => []

/-- The text after a run of at least `least` lexemes. A lexeme is taken as long as there is
one; where a run gets too short or ends in the wrong place, the next choice is tried. A
lexeme may be empty, so no two are taken at one place once the run is long enough. -/
def afterRun (name : List Char) (ends : List Char → Bool) :
    Nat → Nat → Option Nat → List Char → Option (List Char)
  | 0, _, _, _ => none
  | fuel + 1, least, last, s =>
    match least with
    | least + 1 => (afterLexeme name s).findSome? (afterRun name ends fuel least last)
    | 0 =>
      let longer :=
        if last = some s.length then none
        else (afterLexeme name s).findSome? (afterRun name ends fuel 0 (some s.length))
      match longer with
      | some rest => some rest
      | none => if ends s then some s else none

/-- The text after a run, with steps enough for it. -/
def afterFullRun (name : List Char) (least : Nat) (ends : List Char → Bool) (s : List Char) :
    Option (List Char) :=
  afterRun name ends (2 * s.length + least + 2) least none s

/-- What is left out at the end of a text, given that end. -/
def before (s rest : List Char) : List Char := s.take (s.length - rest.length)

/-! ## Expressions -/

/-- The text after the words that lead to an expression. -/
def afterLead? (s : List Char) : Option (List Char) :=
  (dropWord? ['o', 'f', ' '] s).orElse fun _ => dropWord? [':', ' '] s

/-- The runs of lexemes after words that lead to them, where `fuel` bounds the steps. -/
def leadRuns (name : List Char) : Nat → List Char → List (List Char)
  | 0, _ => []
  | _, [] => []
  | fuel + 1, c :: rest =>
    match (afterLead? (c :: rest)).bind fun s =>
        (afterFullRun name 1 (fun _ => true) s).map fun more => (before s more, more) with
    | some (run, more) => run :: leadRuns name fuel more
    | none => leadRuns name fuel rest

/-- The first run of three lexemes at least that is not blank. After an empty run the next
one at that place may not be empty. -/
def firstRun? (name : List Char) : Nat → Bool → List Char → Option (List Char)
  | 0, _, _ => none
  | fuel + 1, mustAdvance, s =>
    match afterFullRun name 3 (fun rest => !mustAdvance || rest.length != s.length) s with
    | some rest =>
      let run := stripBlank (before s rest)
      if run.isEmpty then firstRun? name fuel (rest.length == s.length) rest else some run
    | none =>
      match s with
      | [] => none
      | _ :: rest => firstRun? name fuel false rest

/-- The expression that a question is about: the last run after words that lead to it, or
else the first long run, or else the whole question. -/
def extractExpression (question name : String) : String :=
  let s := question.toList
  let runs := ((leadRuns name.toList s.length s).map stripBlank).filter fun run => !run.isEmpty
  match runs.getLast? with
  | some run => String.ofList run
  | none =>
    match firstRun? name.toList (3 * s.length + 3) false s with
    | some run => String.ofList run
    | none => question

/-! ## Equations -/

/-- The text after the first "solve" that stands by itself, unless nothing is there. -/
def afterSolve (s : List Char) : List Char :=
  match Pattern.splitAt? (.edge :: letters "solve" ++ [.edge]) none s with
  | some (_, rest) => if (stripBlank (rest.drop 5)).isEmpty then s else rest.drop 5
  | none => s

/-- The text after a word of two letters at least with blanks after it. A comma or colon may
stand between. -/
def afterLeadingWord? (s : List Char) : Option (List Char) :=
  let rest := s.dropWhile isPlainLetter
  let afterMark := match rest with
    | c :: more => if c = ':' || c = ',' then more else c :: more
    | [] => []
  if (s.takeWhile isPlainLetter).length < 2 then none
  else if rest.head?.any isWordChar then none
  else if !afterMark.head?.any isBlank then none
  else some (dropBlank afterMark)

/-- The text after the leading words, where `fuel` bounds their number. -/
def dropLeadingWords : Nat → List Char → List Char
  | 0, s => s
  | fuel + 1, s =>
    match afterLeadingWord? s with
    | some rest => dropLeadingWords fuel rest
    | none => s

/-- The text without the words that begin it. Without such a word it keeps its blanks. -/
def withoutLeadingWords (s : List Char) : List Char :=
  match afterLeadingWord? (dropBlank s) with
  | some rest => dropLeadingWords rest.length rest
  | none => s

/-- The text without a label of one letter at its beginning. -/
def withoutLabel (s : List Char) : List Char :=
  match dropBlank s with
  | c :: rest =>
    match dropBlank rest with
    | mark :: more =>
      if isPlainLetter c && (mark = ':' || mark = ',') then dropBlank more else s
    | [] => s
  | [] => s

/-- The text without the marks that end a sentence. -/
def dropMarks (s : List Char) : List Char :=
  (s.reverse.dropWhile fun c => c = '?' || c = '.' || c = '!').reverse

/-- A variable to solve for, at the end of a text. -/
def forVariable : Pattern :=
  [.one .blank, .many .blank] ++ letters "for" ++
    [.one .blank, .many .blank, .one .letter, .many .blank, .finish]

/-- The text without a variable to solve for at its end. -/
def withoutForVariable (s : List Char) : List Char :=
  match forVariable.splitAt? none s with
  | some (front, _) => front
  | none => s

/-- The equation that a question is about. -/
def equationText (question : String) : String :=
  let s := withoutLabel (withoutLeadingWords (afterSolve question.toList))
  String.ofList (stripBlank (withoutForVariable (dropMarks (stripBlank s))))

end Reckoner
