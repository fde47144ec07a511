-- The second reading of a text: it is cut into tokens of arithmetic. Here a number may have
-- an exponent with a sign, a base other than ten, or a letter for the imaginary unit.
import Reckoner.Reading.Names

namespace Reckoner

/-! ## Tokens -/

inductive Operator where
  | plus | minus | times | over | wholeOver | power | caret | opening | closing
deriving DecidableEq

/-- A token. A number stands as a call: the name of its kind, and its literal in brackets. -/
inductive Token where
  | name (s : String)
  | literal (s : String)
  | op (o : Operator)
  /-- The end of a line. -/
  | newline
  /-- The end of the text. -/
  | finish
deriving DecidableEq

/-! ## Numbers -/

def isHexDigit (c : Char) : Bool :=
  isAsciiDigit c || ('a' ≤ c && c ≤ 'f') || ('A' ≤ c && c ≤ 'F')

/-- The digits that begin a text, and the rest. -/
def spanDigits (s : List Char) : List Char × List Char :=
  (s.takeWhile isAsciiDigit, s.dropWhile isAsciiDigit)

/-- An exponent at the beginning of a text. -/
def spanExponent (s : List Char) : List Char × List Char :=
  match s with
  | e :: rest =>
    if e = 'e' || e = 'E' then
      let (sign, rest) := match rest with
        | '+' :: more => (['+'], more)
        | '-' :: more => (['-'], more)
        | more => ([], more)
      let (digits, more) := spanDigits rest
      if digits.isEmpty then ([], s) else (e :: sign ++ digits, more)
    else ([], s)
  | [] => ([], s)

/-- A number with a point or an exponent at the beginning of a text. -/
def spanDecimal? (s : List Char) : Option (List Char × List Char) :=
  let (whole, rest) := spanDigits s
  match rest with
  | '.' :: more =>
    let (part, more) := spanDigits more
    if whole.isEmpty && part.isEmpty then none
    else
      let (exponent, more) := spanExponent more
      some (whole ++ '.' :: part ++ exponent, more)
  | rest =>
    let (exponent, more) := spanExponent rest
    if whole.isEmpty || exponent.isEmpty then none else some (whole ++ exponent, more)

/-- A whole number in another base than ten at the beginning of a text. -/
def spanBased? (s : List Char) : Option (List Char × List Char) :=
  match s with
  | '0' :: mark :: rest =>
    let digits := fun (ok : Char → Bool) =>
      let body := rest.takeWhile ok
      if body.isEmpty then none else some ('0' :: mark :: body, rest.dropWhile ok)
    if mark = 'x' || mark = 'X' then digits isHexDigit
    else if mark = 'b' || mark = 'B' then digits fun c => c = '0' || c = '1'
    else if mark = 'o' || mark = 'O' then digits fun c => '0' ≤ c && c ≤ '7'
    else none
  | _ => none

/-- A whole number in base ten at the beginning of a text. One that begins with zero goes
no further than its zeros. -/
def spanWhole (s : List Char) : List Char × List Char :=
  match s with
  | '0' :: _ => (s.takeWhile (· == '0'), s.dropWhile (· == '0'))
  | s => spanDigits s

def isImaginaryMark (c : Char) : Bool := c = 'j' || c = 'J'

/-- A number at the beginning of a text. -/
def spanNumber (s : List Char) : List Char × List Char :=
  let marked := fun (found : Option (List Char × List Char)) => match found with
    | some (number, c :: rest) => if isImaginaryMark c then some (number ++ [c], rest) else none
    | _ => none
  let digits := spanDigits s
  let whole := if digits.1.isEmpty then none else some digits
  ((marked whole).orElse fun _ => (marked (spanDecimal? s)).orElse fun _ =>
    (spanDecimal? s).orElse fun _ => spanBased? s).getD (spanWhole s)

/-- The call that stands for a number. -/
def numberTokens (number : List Char) : List Token :=
  let marked := number.getLast?.any isImaginaryMark
  let body := if marked then number.dropLast else number
  let based := match body with
    | '0' :: c :: _ => c = 'x' || c = 'X'
    | _ => false
  let isDecimal := body.contains '.' || ((body.contains 'e' || body.contains 'E') && !based)
  [.name (if isDecimal then "Float" else "Integer"), .op .opening,
    .literal (String.ofList body), .op .closing] ++
    if marked then [.op .times, .name "I"] else []

/-! ## The text -/

/-- The tokens of a text. Each takes one character at least, so the length of the text
bounds their number. Blanks other than spaces, tabs and ends of lines have no token. -/
def tokensFrom : Nat → List Char → Option (List Token)
  | _, [] => some [.finish, .finish]
  | 0, _ => none
  | fuel + 1, c :: rest =>
    let sign := fun (o : Operator) (rest : List Char) =>
      (tokensFrom fuel rest).map (Token.op o :: ·)
    if c = ' ' || c = '\t' || c = '\x0c' then tokensFrom fuel rest
    else if c = '\n' || c = '\x0d' then (tokensFrom fuel rest).map (Token.newline :: ·)
    else if isAsciiDigit c || c = '.' then
      let (number, more) := spanNumber (c :: rest)
      if number.isEmpty then none
      else (tokensFrom fuel more).map (numberTokens number ++ ·)
    else if isAsciiLetter c then
      (tokensFrom fuel (rest.dropWhile isNameChar)).map
        (Token.name (String.ofList (c :: rest.takeWhile isNameChar)) :: ·)
    else
      match c, rest with
      | '*', '*' :: more => sign .power more
      | '/', '/' :: more => sign .wholeOver more
      | '*', _ => sign .times rest
      | '/', _ => sign .over rest
      | '+', _ => sign .plus rest
      | '-', _ => sign .minus rest
      | '^', _ => sign .caret rest
      | '(', _ => sign .opening rest
      | ')', _ => sign .closing rest
      | _, _ => none

/-- The tokens with a power sign for each caret. -/
def caretsAsPowers (l : List Token) : List Token :=
  l.map fun t => if t = .op .caret then .op .power else t

/-- The tokens of a text without the blanks around it. -/
def tokensOf (text : String) : Option (List Token) :=
  let chars := stripBlank text.toList
  tokensFrom chars.length chars

end Reckoner
