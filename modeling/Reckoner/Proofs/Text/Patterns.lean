-- What a pattern sees. No pattern sees in which case a letter of the ASCII range is written, a
-- pattern that begins and ends with letters does not see the blanks around a text, and the pattern
-- of a word occurs in exactly the texts that mention the word.
import Mathlib.Data.List.Forall2
import Reckoner.Proofs.Text.Letters
import Reckoner.Question.Domain
import Reckoner.Text.Pattern

namespace Reckoner

/-! ## Characters that are alike -/

/-- No part of a pattern tells the characters apart. -/
structure Alike (c d : Char) : Prop where
  letter : ∀ a, sameLetter a c = sameLetter a d
  kind : ∀ k : CharKind, k.has c = k.has d
  word : isWordChar c = isWordChar d

namespace Alike

variable {c d : Char}

/-- Only the end of a line is alike to itself. -/
theorem line (h : Alike c d) : (c == '\n') = (d == '\n') := by
  simpa [CharKind.has, bne] using h.kind .any

/-- A letter of the ASCII range is alike in both cases. -/
theorem toLower (c : Char) : Alike c c.toLower := by
  by_cases h : isAsciiLetter c
  · have table : alphabet.all (fun c => isWordChar c == isWordChar c.toLower &&
        [CharKind.any, .blank, .digit, .letter, .closer].all fun k =>
          k.has c == k.has c.toLower) = true := rfl
    have entry := of_alphabet table h
    simp only [Bool.and_eq_true, beq_iff_eq, List.all_eq_true] at entry
    obtain ⟨word, kinds⟩ := entry
    exact ⟨fun a => by simp only [sameLetter, smallOf_toLower], fun k => kinds k (by cases k <;> simp),
      word⟩
  · rw [toLower_eq_self h]
    exact ⟨fun _ => rfl, fun _ => rfl, rfl⟩

end Alike

/-! ## Texts that are alike -/

section Alike

variable {s s' : List Char} {prev prev' : Option Char}

theorem Alike.any_eq {p : Char → Bool} (h : Option.Rel Alike prev prev')
    (hp : ∀ {c d}, Alike c d → p c = p d) : prev.any p = prev'.any p := by
  cases h with
  | none => rfl
  | some h => exact hp h

theorem Alike.head? (h : List.Forall₂ Alike s s') : Option.Rel Alike s.head? s'.head? := by
  cases h with
  | nil => exact .none
  | cons h _ => exact .some h

namespace Pattern

theorem holdsAfter_alike {k : CharKind} {next next' : Option Char → List Char → Bool}
    (hn : ∀ {prev prev' s s'}, Option.Rel Alike prev prev' → List.Forall₂ Alike s s' →
      next prev s = next' prev' s')
    (before : Option.Rel Alike prev prev') (h : List.Forall₂ Alike s s') :
    holdsAfter k next prev s = holdsAfter k next' prev' s' := by
  induction h generalizing prev prev' with
  | nil => exact hn before .nil
  | cons same more ih =>
    rw [holdsAfter, holdsAfter, hn before (.cons same more), same.kind k, ih (.some same)]

/-- A pattern matches alike at alike places. -/
theorem matchesAt_alike {p : Pattern} (before : Option.Rel Alike prev prev')
    (h : List.Forall₂ Alike s s') : matchesAt p prev s = matchesAt p prev' s' := by
  induction p generalizing prev prev' s s' with
  | nil => rfl
  | cons part p ih =>
    have rest := ih before h
    cases part with
    | letter a =>
      cases h with
      | nil => rfl
      | cons same more => rw [matchesAt, matchesAt, same.letter a, ih (.some same) more]
    | one k =>
      cases h with
      | nil => rfl
      | cons same more => rw [matchesAt, matchesAt, same.kind k, ih (.some same) more]
    | many k => exact holdsAfter_alike ih before h
    | edge =>
      rw [matchesAt, matchesAt, rest, isEdge, isEdge, Alike.any_eq before Alike.word,
        Alike.any_eq (Alike.head? h) Alike.word]
    | notAfter k => rw [matchesAt, matchesAt, rest, Alike.any_eq before fun same => same.kind k]
    | notBefore k =>
      rw [matchesAt, matchesAt, rest, Alike.any_eq (Alike.head? h) fun same => same.kind k]
    | finish =>
      have last : (s.isEmpty || s == ['\n']) = (s'.isEmpty || s' == ['\n']) := by
        cases h with
        | nil => rfl
        | cons same more =>
          cases more with
          | nil => simpa using same.line
          | cons _ _ => simp
      rw [matchesAt, matchesAt, rest, last]

/-- A pattern occurs in both or neither of two texts that are alike. -/
theorem occursFrom_alike {p : Pattern} (before : Option.Rel Alike prev prev')
    (h : List.Forall₂ Alike s s') : occursFrom p prev s = occursFrom p prev' s' := by
  induction h generalizing prev prev' with
  | nil => rw [occursFrom, occursFrom, matchesAt_alike before .nil]
  | cons same more ih =>
    rw [occursFrom, occursFrom, matchesAt_alike before (.cons same more), ih (.some same)]

theorem occursFrom_toLower (p : Pattern) (s : List Char) :
    occursFrom p none (s.map Char.toLower) = occursFrom p none s := by
  refine (occursFrom_alike .none ?_).symm
  exact List.forall₂_map_right_iff.2 (List.forall₂_same.2 fun c _ => Alike.toLower c)

end Pattern

end Alike

/-! ## Blanks around a text -/

namespace Pattern

/-- A letter of the alphabet is among the parts. -/
def hasLetter (p : Pattern) : Bool :=
  p.any fun part => match part with
    | .letter a => isAsciiLetter a
    | _ => false

/-- The pattern begins with a letter of the alphabet, maybe at the edge of a word. -/
def beginsWithLetter : Pattern → Bool
  | .letter a :: _ => isAsciiLetter a
  | .edge :: .letter a :: _ => isAsciiLetter a
  | _ => false

/-- All that the pattern takes stands before or at a letter of the alphabet. -/
def endsWithLetter : Pattern → Bool
  | [] => true
  | .letter a :: p => isAsciiLetter a && endsWithLetter p
  | .edge :: p => endsWithLetter p
  | .one _ :: p | .many _ :: p => hasLetter p && endsWithLetter p
  | .notAfter _ :: _ | .notBefore _ :: _ | .finish :: _ => false

/-- The pattern of a phrase, with a letter at each end. -/
def isPhrase (p : Pattern) : Bool := p.beginsWithLetter && p.hasLetter && p.endsWithLetter

variable {p : Pattern} {prev prev' : Option Char} {front back s : List Char}

/-- Among blanks there is no letter to match. -/
theorem matchesAt_blank (hp : p.hasLetter) (hb : ∀ c ∈ back, isBlank c) :
    matchesAt p prev back = false := by
  induction p generalizing prev back with
  | nil => cases hp
  | cons part p ih =>
    rw [hasLetter, List.any_cons, Bool.or_eq_true] at hp
    cases part with
    | letter a =>
      cases back with
      | nil => rfl
      | cons c back =>
        obtain ⟨blank, blanks⟩ := List.forall_mem_cons.1 hb
        rcases hp with ascii | hp
        · rw [matchesAt, not_sameLetter_of_isBlank ascii blank, Bool.false_and]
        · rw [matchesAt, ih hp blanks, Bool.and_false]
    | one k =>
      cases back with
      | nil => rfl
      | cons c back =>
        rw [matchesAt, ih (hp.resolve_left (by simp)) (List.forall_mem_cons.1 hb).2, Bool.and_false]
    | many k =>
      rw [matchesAt]
      induction back generalizing prev with
      | nil => exact ih (hp.resolve_left (by simp)) hb
      | cons c back more =>
        rw [holdsAfter, ih (hp.resolve_left (by simp)) hb, more (List.forall_mem_cons.1 hb).2,
          Bool.and_false, Bool.false_or]
    | edge | notAfter | notBefore | finish =>
      rw [matchesAt, ih (hp.resolve_left (by simp)) hb, Bool.and_false]

theorem isEdge_append_blank (hb : ∀ c ∈ back, isBlank c) :
    isEdge prev (s ++ back).head? = isEdge prev s.head? := by
  cases s with
  | cons c s => rfl
  | nil =>
    cases back with
    | nil => rfl
    | cons c back =>
      simp [isEdge, not_isWordChar_of_isBlank (List.forall_mem_cons.1 hb).1]

/-- Blanks behind a text change no match that ends with a letter. -/
theorem matchesAt_append_blank (hp : p.endsWithLetter) (hb : ∀ c ∈ back, isBlank c) :
    matchesAt p prev (s ++ back) = matchesAt p prev s := by
  induction p generalizing prev s with
  | nil => rfl
  | cons part p ih =>
    cases part with
    | letter a =>
      rw [endsWithLetter, Bool.and_eq_true] at hp
      cases s with
      | cons c s => rw [List.cons_append, matchesAt, matchesAt, ih hp.2]
      | nil =>
        refine (matchesAt_blank ?_ hb).trans rfl
        simp [hasLetter, hp.1]
    | one k =>
      rw [endsWithLetter, Bool.and_eq_true] at hp
      cases s with
      | cons c s => rw [List.cons_append, matchesAt, matchesAt, ih hp.2]
      | nil =>
        refine (matchesAt_blank ?_ hb).trans rfl
        simpa [hasLetter] using hp.1
    | many k =>
      rw [endsWithLetter, Bool.and_eq_true] at hp
      induction s generalizing prev with
      | cons c s more =>
        have after : holdsAfter k (matchesAt p) (some c) (s ++ back) =
            holdsAfter k (matchesAt p) (some c) s := more
        rw [matchesAt, matchesAt, List.cons_append, holdsAfter, holdsAfter, after,
          ← List.cons_append, ih hp.2]
      | nil =>
        have some : hasLetter (.many k :: p) := by simpa [hasLetter] using hp.1
        rw [List.nil_append, matchesAt_blank some hb, matchesAt_blank some (List.forall_mem_nil _)]
    | edge => rw [matchesAt, matchesAt, isEdge_append_blank hb, ih hp]
    | notAfter | notBefore | finish => cases hp

/-- A pattern that begins with a letter sees of what stands before it only whether that belongs to a
word. -/
theorem matchesAt_of_word_eq (hp : p.beginsWithLetter)
    (same : prev.any isWordChar = prev'.any isWordChar) :
    matchesAt p prev s = matchesAt p prev' s := by
  unfold beginsWithLetter at hp
  split at hp
  · cases s <;> rfl
  · cases s <;> simp only [matchesAt, isEdge, same]
  · cases hp

/-- A pattern that begins with a letter does not match at a blank. -/
theorem not_matchesAt_cons_blank {c : Char} (hp : p.beginsWithLetter) (hc : isBlank c) :
    matchesAt p prev (c :: s) = false := by
  unfold beginsWithLetter at hp
  split at hp
  all_goals first
    | cases hp
    | simp only [matchesAt, not_sameLetter_of_isBlank hp hc, Bool.false_and, Bool.and_false]

theorem occursFrom_append_blank (hp : p.isPhrase) (hb : ∀ c ∈ back, isBlank c) :
    occursFrom p prev (s ++ back) = occursFrom p prev s := by
  simp only [isPhrase, Bool.and_eq_true] at hp
  obtain ⟨⟨-, some⟩, ends⟩ := hp
  induction s generalizing prev with
  | cons c s ih =>
    rw [occursFrom, ← matchesAt_append_blank ends hb, ← ih]
    rfl
  | nil =>
    rw [List.nil_append, occursFrom, matchesAt_blank some (List.forall_mem_nil _), Bool.or_false]
    induction back generalizing prev with
    | nil => rw [occursFrom, matchesAt_blank some hb, Bool.or_false]
    | cons c back more =>
      rw [occursFrom, matchesAt_blank some hb, more (List.forall_mem_cons.1 hb).2, Bool.or_false]

theorem occursFrom_of_word_eq (hp : p.beginsWithLetter)
    (same : prev.any isWordChar = prev'.any isWordChar) :
    occursFrom p prev s = occursFrom p prev' s := by
  cases s <;> rw [occursFrom, occursFrom, matchesAt_of_word_eq hp same]

theorem occursFrom_blank_append (hp : p.isPhrase) (hf : ∀ c ∈ front, isBlank c) :
    occursFrom p none (front ++ s) = occursFrom p none s := by
  have begins : p.beginsWithLetter := by
    simp only [isPhrase, Bool.and_eq_true] at hp
    exact hp.1.1
  induction front with
  | nil => rfl
  | cons c front ih =>
    obtain ⟨blank, blanks⟩ := List.forall_mem_cons.1 hf
    rw [List.cons_append, occursFrom, not_matchesAt_cons_blank begins blank, Bool.false_or, ← ih blanks]
    exact occursFrom_of_word_eq begins (by simp [not_isWordChar_of_isBlank blank])

/-- A phrase occurs in a text whatever blanks are around it. -/
theorem occursFrom_around (hp : p.isPhrase) (hf : ∀ c ∈ front, isBlank c)
    (hb : ∀ c ∈ back, isBlank c) : occursFrom p none (front ++ s ++ back) = occursFrom p none s := by
  rw [occursFrom_append_blank hp hb, occursFrom_blank_append hp hf]

end Pattern

/-! ## Words in a text -/

/-- Some part of the text has the letters of one of the words, in either case. -/
def Mentions (text : String) (words : List String) : Prop :=
  ∃ word ∈ words, ∃ part, part <:+: text.toList ∧
    List.Forall₂ (fun a c => sameLetter a c = true) word.toList part

namespace Pattern

variable {w s : List Char} {prev : Option Char}

/-- The pattern of letters matches where the text begins with them. -/
theorem matchesAt_letters_iff : matchesAt (w.map .letter) prev s = true ↔
    ∃ part, part <+: s ∧ List.Forall₂ (fun a c => sameLetter a c = true) w part := by
  induction w generalizing prev s with
  | nil => simp [matchesAt]
  | cons a w ih =>
    cases s with
    | nil => simp [matchesAt]
    | cons c rest =>
      simp only [List.map_cons, matchesAt, Bool.and_eq_true, ih, List.forall₂_cons_left_iff]
      constructor
      · rintro ⟨same, part, front, alike⟩
        exact ⟨c :: part, List.cons_prefix_cons.2 ⟨rfl, front⟩, c, part, same, alike, rfl⟩
      · rintro ⟨_, front, _, part, same, alike, rfl⟩
        obtain ⟨rfl, rest_front⟩ := List.cons_prefix_cons.1 front
        exact ⟨same, part, rest_front, alike⟩

theorem occursFrom_letters_iff : occursFrom (w.map .letter) prev s = true ↔
    ∃ part, part <:+: s ∧ List.Forall₂ (fun a c => sameLetter a c = true) w part := by
  induction s generalizing prev with
  | nil => simp [occursFrom, matchesAt_letters_iff]
  | cons c rest ih =>
    simp only [occursFrom, Bool.or_eq_true, matchesAt_letters_iff, ih, List.infix_cons_iff,
      or_and_right, exists_or]

end Pattern

theorem anyOccurs_anyWord_iff {text : String} {words : List String} :
    anyOccurs (anyWord words) text = true ↔ Mentions text words := by
  simp only [anyOccurs, anyWord, List.any_map, List.any_eq_true, Function.comp_apply, Mentions]
  exact exists_congr fun _ => and_congr_right fun _ => Pattern.occursFrom_letters_iff

end Reckoner
