-- The texts of values. A text by itself stands as it is; inside a list or record it stands
-- in quotes.
import Reckoner.Value.Basic

namespace Reckoner

namespace Value

def joinTexts (separator : String) : List String → String
  | [] => ""
  | [s] => s
  | s :: r => s ++ separator ++ joinTexts separator r

mutual
/-- The value as it stands inside another one. -/
def shown : Value → Except ValueFault String
  | nothing => .ok "None"
  | truth b => .ok (if b then "True" else "False")
  | number q => q.text
  | text s => .ok (quoted s)
  | list l => do return "[" ++ joinTexts ", " (← shownList l) ++ "]"
  | record l => do return "\x7b" ++ joinTexts ", " (← shownFields l) ++ "\x7d"
  | formula _ | cycle _ => .ok "<function>"
def shownList : List Value → Except ValueFault (List String)
  | [] => .ok []
  | a :: r => do
    let s ← shown a
    return s :: (← shownList r)
def shownFields : List (String × Value) → Except ValueFault (List String)
  | [] => .ok []
  | (name, a) :: r => do
    let s ← shown a
    return (quoted name ++ ": " ++ s) :: (← shownFields r)
end

/-- The text of a value by itself. -/
def toText : Value → Except ValueFault String
  | text s => .ok s
  | v => v.shown

/-- A line of text made up of the texts of values. -/
def line (parts : List Value) : Except ValueFault String := do
  return String.join (← parts.mapM toText)

/-- The value to a number of decimal places. -/
def fixed (places : Nat) (v : Value) : Except ValueFault String :=
  match v.quantity? with
  | some q => q.fixed places
  | none => .error (.noPlaces v.kind)

end Value

/-- The text of a list of names. -/
def namesText (l : List String) : String := "[" ++ Value.joinTexts ", " (l.map quoted) ++ "]"

end Reckoner
