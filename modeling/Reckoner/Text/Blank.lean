-- Blank characters, and texts without the blanks around them.

namespace Reckoner

/-! ## Ranges of characters -/

/-- Whether a code point lies in one of the ranges. -/
def inRanges (ranges : List (Nat × Nat)) (c : Char) : Bool :=
  ranges.any fun (lo, hi) => lo ≤ c.toNat && c.toNat ≤ hi

/-! ## Blanks -/

/-- The code points of the characters that only leave space. -/
def blankRanges : List (Nat × Nat) :=
  [(0x9, 0xd), (0x1c, 0x20), (0x85, 0x85), (0xa0, 0xa0), (0x1680, 0x1680), (0x2000, 0x200a),
    (0x2028, 0x2029), (0x202f, 0x202f), (0x205f, 0x205f), (0x3000, 0x3000)]

/-- Whether a character only leaves space. -/
def isBlank (c : Char) : Bool := inRanges blankRanges c

/-- The text without the blanks that begin it. -/
def dropBlank (s : List Char) : List Char := s.dropWhile isBlank

/-- The text without the blanks around it. -/
def stripBlank (s : List Char) : List Char := (dropBlank (dropBlank s).reverse).reverse

/-- The text without the blanks around it. -/
def stripText (s : String) : String := String.ofList (stripBlank s.toList)

/-- Every blank of the ASCII range is one here. -/
theorem isBlank_of_isWhitespace {c : Char} (h : c.isWhitespace = true) : isBlank c = true := by
  simp only [Char.isWhitespace, Bool.or_eq_true, decide_eq_true_eq] at h
  rcases h with ((h | h) | h) | h <;> subst h <;> decide

end Reckoner
