-- The pieces of a text between separators.

namespace Reckoner

/-- The pieces between the separators; there is always a first one. -/
def splitChars (separator : Char) : List Char → List (List Char)
  | [] => [[]]
  | c :: rest =>
    if c = separator then [] :: splitChars separator rest
    else
      match splitChars separator rest with
      | [] => [[c]]
      | piece :: pieces => (c :: piece) :: pieces

/-- The pieces of a text. -/
def splitText (separator : Char) (s : String) : List String :=
  (splitChars separator s.toList).map String.ofList

end Reckoner
