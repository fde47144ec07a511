-- Sorting a list by insertion. Elements that are alike keep their order.

namespace Reckoner

/-- Puts an element before the first one that it may stand before. -/
def insertBy {α : Type} (before : α → α → Bool) (x : α) : List α → List α
  | [] => [x]
  | y :: r => if before x y then x :: y :: r else y :: insertBy before x r

/-- The list in order. -/
def sortBy {α : Type} (before : α → α → Bool) (l : List α) : List α :=
  l.foldr (insertBy before) []

theorem insertBy_perm {α : Type} (before : α → α → Bool) (x : α) (l : List α) :
    (insertBy before x l).Perm (x :: l) := by
  induction l with
  | nil => exact .refl _
  | cons y r ih =>
    unfold insertBy
    split
    · exact .refl _
    · exact (ih.cons y).trans (.swap x y r)

/-- Sorting keeps every element. -/
theorem sortBy_perm {α : Type} (before : α → α → Bool) (l : List α) :
    (sortBy before l).Perm l := by
  induction l with
  | nil => exact .refl _
  | cons x r ih => exact (insertBy_perm before x _).trans (ih.cons x)

/-- Adds a value to the entry of a key, or a new entry at the end. -/
def addEntry {α β : Type} [DecidableEq α] (merge : β → β → β) (key : α) (value : β) :
    List (α × β) → List (α × β)
  | [] => [(key, value)]
  | (k, v) :: r => if k = key then (k, merge v value) :: r else (k, v) :: addEntry merge key value r

/-- The value at a key. -/
def lookupEntry {α β : Type} [DecidableEq α] (key : α) : List (α × β) → Option β
  | [] => none
  | (k, v) :: r => if k = key then some v else lookupEntry key r

end Reckoner
