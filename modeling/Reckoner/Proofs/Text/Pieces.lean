-- The pieces of a text between separators. Of a text that was put together with the separator
-- between its parts, they are the pieces of the parts, one part after another.
import Mathlib.Data.List.Basic
import Reckoner.Text.Pieces
import Reckoner.Value.Text

namespace Reckoner

variable {separator : Char}

/-! ## Pieces of characters -/

theorem splitChars_ne_nil (s : List Char) : splitChars separator s ≠ [] := by
  cases s with
  | nil => exact List.cons_ne_nil _ _
  | cons c s =>
    rw [splitChars]
    split_ifs
    · exact List.cons_ne_nil _ _
    · split <;> exact List.cons_ne_nil _ _

theorem splitChars_of_not_mem {s : List Char} (h : separator ∉ s) :
    splitChars separator s = [s] := by
  induction s with
  | nil => rfl
  | cons c s ih =>
    rw [List.mem_cons, not_or] at h
    rw [splitChars, if_neg (Ne.symm h.1), ih h.2]

/-- A separator ends a piece, whatever stands on both sides of it. -/
theorem splitChars_around (s t : List Char) :
    splitChars separator (s ++ separator :: t) =
      splitChars separator s ++ splitChars separator t := by
  induction s with
  | nil => rw [List.nil_append, splitChars.eq_2, if_pos rfl, splitChars.eq_1, List.singleton_append]
  | cons c s ih =>
    rw [List.cons_append, splitChars, splitChars, ih]
    obtain ⟨piece, pieces, first⟩ := List.exists_cons_of_ne_nil (@splitChars_ne_nil separator s)
    rw [first]
    split_ifs <;> rfl

theorem splitChars_append {s : List Char} (t : List Char) (h : separator ∉ s) :
    splitChars separator (s ++ separator :: t) = s :: splitChars separator t := by
  rw [splitChars_around, splitChars_of_not_mem h, List.singleton_append]

/-! ## Pieces of texts -/

theorem splitText_of_not_mem {s : String} (h : separator ∉ s.toList) :
    splitText separator s = [s] := by
  rw [splitText, splitChars_of_not_mem h, List.map_singleton, String.ofList_toList]

theorem splitText_around (s t : String) :
    splitText separator (s ++ String.singleton separator ++ t) =
      splitText separator s ++ splitText separator t := by
  have chars : (s ++ String.singleton separator ++ t).toList =
      s.toList ++ separator :: t.toList := by
    simp
  rw [splitText, chars, splitChars_around, List.map_append, splitText, splitText]

/-- Parts that are joined by the separator are taken apart again, each into its own pieces. -/
theorem splitText_joinTexts {parts : List String} (h : parts ≠ []) :
    splitText separator (Value.joinTexts (String.singleton separator) parts) =
      parts.flatMap (splitText separator) := by
  induction parts with
  | nil => exact absurd rfl h
  | cons s rest ih =>
    cases rest with
    | nil => rw [Value.joinTexts, List.flatMap_cons, List.flatMap_nil, List.append_nil]
    | cons t rest =>
      rw [List.flatMap_cons, Value.joinTexts, splitText_around, ih (List.cons_ne_nil t rest)]
      exact List.cons_ne_nil t rest

end Reckoner
