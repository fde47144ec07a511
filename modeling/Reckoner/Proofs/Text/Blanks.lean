-- Texts and the blanks around them: where a longest part of a text stops, and what a text keeps when
-- the blanks around it are left out.
import Mathlib
import Reckoner.Text.Blank

namespace Reckoner

/-! ## Longest parts -/

theorem takeWhile_of_head {p : Char → Bool} {s : List Char} (h : ∀ c ∈ s.head?, p c = false) :
    s.takeWhile p = [] := by
  cases s with
  | nil => rfl
  | cons c rest => exact List.takeWhile_cons_of_neg (by simpa using h c rfl)

theorem head_dropWhile {p : Char → Bool} (s : List Char) :
    ∀ c ∈ (s.dropWhile p).head?, p c = false := by
  intro c hc
  have := List.head?_dropWhile_not p s
  rw [Option.mem_def.1 hc] at this
  simpa using this

/-! ## Blanks around a text -/

theorem stripBlank_inside (s : List Char) : stripBlank s <:+: s := by
  have tail : ∀ l : List Char, dropBlank l <:+ l := fun l => List.dropWhile_suffix _
  have front : stripBlank s <+: dropBlank s := by
    rw [stripBlank, ← List.reverse_suffix, List.reverse_reverse]
    exact tail _
  exact front.isInfix.trans (tail s).isInfix

theorem stripBlank_split (s : List Char) :
    ∃ front back, s = front ++ (stripBlank s ++ back) ∧ (∀ c ∈ front, isBlank c) ∧
      ∀ c ∈ back, isBlank c := by
  refine ⟨s.takeWhile isBlank, ((dropBlank s).reverse.takeWhile isBlank).reverse, ?_, ?_, ?_⟩
  · have back := List.takeWhile_append_dropWhile (p := isBlank) (l := (dropBlank s).reverse)
    rw [stripBlank, dropBlank, ← List.reverse_append, back, List.reverse_reverse, dropBlank,
      List.takeWhile_append_dropWhile]
  · exact fun c => List.mem_takeWhile_imp
  · exact fun c hc => List.mem_takeWhile_imp (List.mem_reverse.1 hc)

/-- What is no blank is not left out. -/
theorem mem_stripBlank {s : List Char} {c : Char} (h : c ∈ s) (hc : isBlank c = false) :
    c ∈ stripBlank s := by
  obtain ⟨front, back, split, hf, hb⟩ := stripBlank_split s
  rw [split] at h
  rcases List.mem_append.1 h with h | h
  · rw [hf c h] at hc
    cases hc
  · rcases List.mem_append.1 h with h | h
    · exact h
    · rw [hb c h] at hc
      cases hc

theorem stripBlank_around {front s back : List Char} (hf : ∀ c ∈ front, isBlank c)
    (hb : ∀ c ∈ back, isBlank c) (hne : s ≠ []) (first : ∀ c ∈ s.head?, isBlank c = false)
    (last : ∀ c ∈ s.getLast?, isBlank c = false) : stripBlank (front ++ (s ++ back)) = s := by
  have drop : ∀ {l t : List Char}, (∀ c ∈ l, isBlank c) → t ≠ [] →
      (∀ c ∈ t.head?, isBlank c = false) → dropBlank (l ++ t) = t := by
    intro l t hl ht head
    obtain ⟨c, rest, rfl⟩ := List.exists_cons_of_ne_nil ht
    have stop := head c rfl
    rw [dropBlank, List.dropWhile_append_of_pos hl, List.dropWhile_cons_of_neg (by simp [stop])]
  have starts : ∀ c ∈ (s ++ back).head?, isBlank c = false := by
    obtain ⟨c, rest, rfl⟩ := List.exists_cons_of_ne_nil hne
    exact first
  rw [stripBlank, drop hf (by simp [hne]) starts, List.reverse_append,
    drop (by simpa using hb) (by simpa using hne) (by simpa using last), List.reverse_reverse]

/-- More blanks around a text are left out as well. -/
theorem stripBlank_append {front s back : List Char} (hf : ∀ c ∈ front, isBlank c)
    (hb : ∀ c ∈ back, isBlank c) : stripBlank (front ++ s ++ back) = stripBlank s := by
  have drop : ∀ {l t : List Char}, (∀ c ∈ l, isBlank c) → dropBlank (l ++ t) = dropBlank t := fun hl =>
    List.dropWhile_append_of_pos hl
  have reversed : ∀ c ∈ back.reverse, isBlank c := by simpa using hb
  rw [stripBlank, stripBlank, List.append_assoc, drop hf]
  rcases List.eq_nil_or_concat (dropBlank s) with none | ⟨_, _, some⟩
  · have all : ∀ c ∈ s ++ back, isBlank c :=
      List.forall_mem_append.2 ⟨List.dropWhile_eq_nil_iff.1 none, hb⟩
    rw [none, show dropBlank (s ++ back) = [] from List.dropWhile_eq_nil_iff.2 all]
  · have behind : dropBlank (s ++ back) = dropBlank s ++ back := by
      rw [dropBlank] at some ⊢
      rw [List.dropWhile_append, if_neg (by simp only [some]; simp), dropBlank]
    rw [behind, List.reverse_append, drop reversed]

/-- Without blanks around it a text keeps all its characters. -/
theorem stripBlank_eq_self {s : List Char} (hne : s ≠ []) (first : ∀ c ∈ s.head?, isBlank c = false)
    (last : ∀ c ∈ s.getLast?, isBlank c = false) : stripBlank s = s := by
  have no : ∀ c ∈ ([] : List Char), isBlank c := List.forall_mem_nil _
  simpa using stripBlank_around no no hne first last

/-- A text without blanks around it. -/
def Trimmed (s : List Char) : Prop :=
  (∀ c ∈ s.head?, isBlank c = false) ∧ ∀ c ∈ s.getLast?, isBlank c = false

theorem trimmed_stripBlank (s : List Char) : Trimmed (stripBlank s) := by
  constructor
  · have front : stripBlank s <+: dropBlank s := by
      rw [stripBlank, ← List.reverse_suffix, List.reverse_reverse]
      exact List.dropWhile_suffix _
    obtain ⟨back, split⟩ := front
    intro c hc
    refine head_dropWhile s c ?_
    rw [← dropBlank, ← split, List.head?_append, Option.mem_def.1 hc]
    rfl
  · rw [stripBlank, List.getLast?_reverse]
    exact head_dropWhile _

/-- A text that keeps all its characters has no blanks around it. -/
theorem ends_of_stripBlank_eq {s : List Char} (h : stripBlank s = s) :
    (∀ c ∈ s.head?, isBlank c = false) ∧ ∀ c ∈ s.getLast?, isBlank c = false := by
  have trimmed := trimmed_stripBlank s
  rwa [h] at trimmed

end Reckoner
