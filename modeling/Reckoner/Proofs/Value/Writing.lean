-- Which values can be written. A whole number of too many digits stops the text that it stands
-- in, and nothing else does.
import Mathlib.Data.Nat.Digits.Lemmas
import Reckoner.Value.Text

namespace Reckoner

/-! ## Digits -/

/-- The number of decimal digits of a whole number. A sign is no digit, and zero has none. -/
def digitCount (n : Int) : Nat := (Nat.digits 10 n.natAbs).length

/-- A whole number has few enough digits to be written. -/
def Writable (n : Int) : Prop := digitCount n ≤ maxDigits

instance (n : Int) : Decidable (Writable n) := inferInstanceAs (Decidable (_ ≤ _))

theorem writable_iff (n : Int) : Writable n ↔ n.natAbs < 10 ^ maxDigits :=
  Nat.digits_length_le_iff (by decide) _

theorem Writable.of_le {m n : Int} (h : Writable n) (hmn : m.natAbs ≤ n.natAbs) : Writable m := by
  rw [writable_iff] at h ⊢
  omega

/-- Between zero and a number that can be written, all numbers can. -/
theorem Writable.of_between {m n : Int} (h : Writable n) (hm : 0 ≤ m) (hmn : m ≤ n) : Writable m :=
  h.of_le (by omega)

/-- A number of ten digits can be written. -/
theorem writable_of_small {n : Int} (h : n.natAbs < 10 ^ 10) : Writable n := by
  rw [writable_iff]
  exact lt_of_lt_of_le h (Nat.pow_le_pow_right (by decide) (by decide))

theorem wholeText_of_writable {n : Int} (h : Writable n) :
    Quantity.wholeText n = .ok (intText n) := by
  rw [writable_iff] at h
  simp [Quantity.wholeText, h]

theorem wholeText_of_not_writable {n : Int} (h : ¬ Writable n) :
    Quantity.wholeText n = .error .tooLongToWrite := by
  rw [writable_iff] at h
  simp [Quantity.wholeText, h]

/-! ## Outcomes -/

@[simp]
theorem ok_bind {ε α β : Type} (a : α) (next : α → Except ε β) : (Except.ok a >>= next) = next a :=
  rfl

/-- A computation that succeeds has a first step that succeeds. -/
theorem ok_of_bind {ε α β : Type} {m : Except ε α} {next : α → Except ε β} {b : β}
    (h : (m >>= next) = .ok b) : ∃ a, m = .ok a ∧ next a = .ok b := by
  cases m with
  | ok a => exact ⟨a, rfl, h⟩
  | error f => cases h

@[simp]
theorem error_bind {ε α β : Type} (e : ε) (next : α → Except ε β) :
    (Except.error e >>= next) = Except.error e := rfl

/-- Either all of the numbers can be written and there is an outcome of which something holds, or
one of them has too many digits and that is the fault. -/
def WrittenWhen {α : Type} (outcome : Except ValueFault α) (numbers : List Int) (holds : α → Prop) :
    Prop :=
  (∀ n ∈ numbers, Writable n) ∧ (∃ s, outcome = .ok s ∧ holds s) ∨
    (∃ n ∈ numbers, ¬ Writable n) ∧ outcome = .error .tooLongToWrite

namespace WrittenWhen

variable {α β : Type} {outcome : Except ValueFault α} {l m : List Int} {P : α → Prop}
  {Q : β → Prop}

theorem ok {s : α} (h : P s) : WrittenWhen (.ok s) [] P := Or.inl ⟨by simp, s, rfl, h⟩

/-- Of two computations in a row, the numbers are those of both. -/
theorem bind {next : α → Except ValueFault β} (h : WrittenWhen outcome l P)
    (k : ∀ s, P s → WrittenWhen (next s) m Q) : WrittenWhen (outcome.bind next) (l ++ m) Q := by
  rcases h with ⟨hl, s, rfl, hs⟩ | ⟨⟨n, hn, hw⟩, rfl⟩
  · rcases k s hs with ⟨hm, t, ht⟩ | ⟨⟨n, hn, hw⟩, ht⟩
    · exact Or.inl ⟨List.forall_mem_append.2 ⟨hl, hm⟩, t, ht⟩
    · exact Or.inr ⟨⟨n, List.mem_append_right l hn, hw⟩, ht⟩
  · exact Or.inr ⟨⟨n, List.mem_append_left m hn, hw⟩, rfl⟩

theorem map (f : α → β) (h : WrittenWhen outcome l P) (k : ∀ s, P s → Q (f s)) :
    WrittenWhen (outcome.map f) l Q := by
  rcases h with ⟨hl, s, rfl, hs⟩ | ⟨hl, rfl⟩
  · exact Or.inl ⟨hl, f s, rfl, k s hs⟩
  · exact Or.inr ⟨hl, rfl⟩

theorem imp {R : α → Prop} (h : WrittenWhen outcome l P) (k : ∀ s, P s → R s) :
    WrittenWhen outcome l R := by
  rcases h with ⟨hl, s, hs, hp⟩ | h
  · exact Or.inl ⟨hl, s, hs, k s hp⟩
  · exact Or.inr h

/-- Only the question whether all numbers can be written matters. -/
theorem congr (h : WrittenWhen outcome l P)
    (k : (∀ n ∈ l, Writable n) ↔ ∀ n ∈ m, Writable n) : WrittenWhen outcome m P := by
  rcases h with ⟨hl, hs⟩ | ⟨⟨n, hn, hw⟩, hs⟩
  · exact Or.inl ⟨k.1 hl, hs⟩
  · refine Or.inr ⟨?_, hs⟩
    by_contra! hm
    exact hw (k.2 hm n hn)

end WrittenWhen

theorem wholeText_written (n : Int) :
    WrittenWhen (Quantity.wholeText n) [n] (fun s => s = intText n) := by
  by_cases h : Writable n
  · exact Or.inl ⟨by simpa using h, _, wholeText_of_writable h, rfl⟩
  · exact Or.inr ⟨⟨n, by simp, h⟩, wholeText_of_not_writable h⟩

/-! ## Values -/

namespace Value

mutual
/-- The whole numbers that stand in a value, from left to right. -/
def wholeNumbers : Value → List Int
  | number (.whole n) => [n]
  | list l => wholeNumbersOf l
  | record l => wholeNumbersUnder l
  | _ => []
def wholeNumbersOf : List Value → List Int
  | [] => []
  | a :: r => wholeNumbers a ++ wholeNumbersOf r
def wholeNumbersUnder : List (String × Value) → List Int
  | [] => []
  | (_, a) :: r => wholeNumbers a ++ wholeNumbersUnder r
end

mutual
theorem shown_written : ∀ v : Value, WrittenWhen v.shown v.wholeNumbers fun _ => True
  | number (.whole n) => by
    rw [shown, wholeNumbers]
    exact (wholeText_written n).imp fun _ _ => trivial
  | list l => by
    rw [shown, wholeNumbers]
    exact (shownList_written l).map _ fun _ _ => trivial
  | record l => by
    rw [shown, wholeNumbers]
    exact (shownFields_written l).map _ fun _ _ => trivial
  | nothing | truth _ | number (.measure _) | text _ | formula _ | cycle _ => .ok trivial
theorem shownList_written :
    ∀ l : List Value, WrittenWhen (shownList l) (wholeNumbersOf l) fun _ => True
  | [] => .ok trivial
  | a :: r => by
    rw [shownList, wholeNumbersOf]
    exact (shown_written a).bind fun _ _ => (shownList_written r).map _ fun _ _ => trivial
theorem shownFields_written :
    ∀ l : List (String × Value), WrittenWhen (shownFields l) (wholeNumbersUnder l) fun _ => True
  | [] => .ok trivial
  | (_, a) :: r => by
    rw [shownFields, wholeNumbersUnder]
    exact (shown_written a).bind fun _ _ => (shownFields_written r).map _ fun _ _ => trivial
end

/-- The text of a value by itself has the numbers of the value. -/
theorem toText_written (v : Value) : WrittenWhen v.toText v.wholeNumbers fun _ => True := by
  cases v with
  | text s => exact .ok trivial
  | _ => exact shown_written _

/-- A value has a text when all its numbers can be written. -/
theorem exists_toText_iff {v : Value} :
    (∃ text, v.toText = .ok text) ↔ ∀ n ∈ v.wholeNumbers, Writable n := by
  rcases v.toText_written with ⟨all, text, ht, -⟩ | ⟨⟨n, hn, no⟩, ht⟩
  · exact iff_of_true ⟨text, ht⟩ all
  · refine iff_of_false ?_ fun all => no (all n hn)
    rintro ⟨text, h⟩
    rw [ht] at h
    cases h

/-- A line has the numbers of all its parts. -/
theorem line_written (parts : List Value) :
    WrittenWhen (line parts) (parts.flatMap wholeNumbers) fun _ => True := by
  have texts : WrittenWhen (parts.mapM toText) (parts.flatMap wholeNumbers) fun _ => True := by
    induction parts with
    | nil => exact .ok trivial
    | cons v rest ih =>
      rw [List.mapM_cons, List.flatMap_cons]
      exact (toText_written v).bind fun _ _ => ih.map _ fun _ _ => trivial
  exact texts.map _ fun _ _ => trivial

theorem exists_line_of_writable {parts : List Value}
    (h : ∀ n ∈ parts.flatMap wholeNumbers, Writable n) : ∃ s, line parts = .ok s := by
  rcases line_written parts with ⟨-, s, hs, -⟩ | ⟨⟨n, hn, no⟩, -⟩
  · exact ⟨s, hs⟩
  · exact absurd (h n hn) no

end Value

end Reckoner
