-- Equations in questions. What a question says around an equation is left out, but a name with a
-- meaning of its own that is set apart by a blank is left out with it.
import Mathlib
import Reckoner.Proofs.Reading.PlainNumbers
import Reckoner.Proofs.Text.Letters
import Reckoner.Proofs.Text.Patterns
import Reckoner.Question.Extract

namespace Reckoner

/-! ## Places in a text -/

namespace Pattern

variable {p : Pattern} {s w : List Char}

theorem splitAt?_eq_none (h : ∀ t, t <:+ s → ∀ prev, p.matchesAt prev t = false)
    (prev : Option Char) : p.splitAt? prev s = none := by
  induction s generalizing prev with
  | nil => simp [splitAt?, h]
  | cons c s ih =>
    unfold splitAt?
    simp [h _ List.suffix_rfl, ih fun t ht => h t (ht.trans (List.suffix_cons c s))]

/-- A text is cut where a pattern matches, unless it matches before. -/
theorem splitAt?_append (h : ∀ t, t ≠ [] → t <:+ s → ∀ prev, p.matchesAt prev (t ++ w) = false)
    (hw : ∀ prev, p.matchesAt prev w = true) (prev : Option Char) :
    p.splitAt? prev (s ++ w) = some (s, w) := by
  induction s generalizing prev with
  | nil =>
    unfold splitAt?
    simp [hw]
  | cons c s ih =>
    have here := h _ (List.cons_ne_nil c s) List.suffix_rfl prev
    rw [List.cons_append] at here ⊢
    unfold splitAt?
    simp [here, ih fun t ne ht => h t ne (ht.trans (List.suffix_cons c s))]

/-- Letters that match are there, whatever follows them. -/
theorem exists_of_matchesAt_letters {q : Pattern} {prev : Option Char}
    (h : matchesAt (w.map .letter ++ q) prev s = true) :
    ∃ part rest, s = part ++ rest ∧ List.Forall₂ (fun a c => sameLetter a c = true) w part := by
  induction w generalizing prev s with
  | nil => exact ⟨[], s, rfl, .nil⟩
  | cons a w ih =>
    cases s with
    | nil => cases h
    | cons c s =>
      simp only [List.map_cons, List.cons_append, matchesAt, Bool.and_eq_true] at h
      obtain ⟨part, rest, rfl, same⟩ := ih h.2
      exact ⟨c :: part, rest, rfl, .cons h.1 same⟩

end Pattern

theorem exists_of_holdsAfter {kind : CharKind} {next : Option Char → List Char → Bool}
    {prev : Option Char} {s : List Char} (h : holdsAfter kind next prev s = true) :
    ∃ run rest prev', s = run ++ rest ∧ (∀ c ∈ run, kind.has c) ∧ next prev' rest = true := by
  induction s generalizing prev with
  | nil => exact ⟨[], [], prev, rfl, by simp, h⟩
  | cons c s ih =>
    simp only [holdsAfter, Bool.or_eq_true, Bool.and_eq_true] at h
    rcases h with here | ⟨hc, later⟩
    · exact ⟨[], c :: s, prev, rfl, by simp, here⟩
    · obtain ⟨run, rest, prev', rfl, all, holds⟩ := ih later
      exact ⟨c :: run, rest, prev', rfl, List.forall_mem_cons.2 ⟨hc, all⟩, holds⟩

/-- Where the end of a text names a variable, it begins with blanks and the letters of a word. -/
theorem exists_of_forVariable {prev : Option Char} {s : List Char}
    (h : forVariable.matchesAt prev s = true) :
    ∃ blanks part rest, s = blanks ++ (part ++ rest) ∧ (∀ c ∈ blanks, isBlank c) ∧
      List.Forall₂ (fun a c => sameLetter a c = true) "for".toList part := by
  cases s with
  | nil => cases h
  | cons c s =>
    have h : (isBlank c && holdsAfter .blank (Pattern.matchesAt ("for".toList.map .letter ++
      [.one .blank, .many .blank, .one .letter, .many .blank, .finish])) (some c) s) = true := h
    rw [Bool.and_eq_true] at h
    obtain ⟨run, rest, prev', rfl, blank, holds⟩ := exists_of_holdsAfter h.2
    obtain ⟨part, rest, rfl, same⟩ := Pattern.exists_of_matchesAt_letters holds
    exact ⟨c :: run, part, rest, rfl, List.forall_mem_cons.2 ⟨h.1, blank⟩, same⟩

/-! ## Characters -/

/-- The characters that an equation is written with, but for letters. -/
def plainMarks : List Char :=
  blankRanges.flatMap (fun (lo, hi) => charsBetween lo hi) ++ charsBetween 48 57 ++
    ['+', '-', '*', '/', '^', '(', ')', '.', '=']

/-- The characters that an equation is written with. -/
def IsEquationChar (c : Char) : Prop :=
  isBlank c ∨ isNameChar c ∨ isSign c ∨ c = '.' ∨ c = '='

theorem IsEquationChar.mem_plainMarks {c : Char} (h : IsEquationChar c) (hl : ¬ isAsciiLetter c) :
    c ∈ plainMarks := by
  simp only [plainMarks, List.mem_append]
  rcases h with h | h | h | rfl | rfl
  · simp only [isBlank, inRanges, List.any_eq_true, Bool.and_eq_true, decide_eq_true_eq] at h
    obtain ⟨⟨lo, hi⟩, hr, hl, hh⟩ := h
    exact Or.inl (Or.inl (List.mem_flatMap.2 ⟨(lo, hi), hr, mem_charsBetween hl hh⟩))
  · simp only [isNameChar, hl, isAsciiDigit, Bool.false_or, Bool.and_eq_true,
      decide_eq_true_eq] at h
    exact Or.inl (Or.inr (mem_charsBetween h.1 h.2))
  · simp only [isSign, List.contains_eq_mem, decide_eq_true_eq] at h
    refine Or.inr (List.mem_append_left ['.', '='] h)
  · decide
  · decide

/-- Of the characters of an equation, only letters are the same as a letter. -/
theorem IsEquationChar.letter_of_same {a c : Char} (h : IsEquationChar c) (ha : isAsciiLetter a)
    (same : sameLetter a c) : isAsciiLetter c := by
  by_contra hl
  refine absurd same (Bool.eq_false_iff.1 ?_)
  rcases h with h | h | h | rfl | rfl
  · exact not_sameLetter_of_isBlank ha h
  · have digit : isAsciiDigit c := by simpa [isNameChar, hl] using h
    exact not_sameLetter_of_mark ha (Or.inl (by have := toNat_of_isAsciiDigit digit; omega))
  · simp only [isSign, List.contains_eq_mem, decide_eq_true_eq] at h
    have signs : ['+', '-', '*', '/', '^', '(', ')'].all (fun c =>
        decide (c.toNat < 65 ∨ c = '^')) = true := by decide
    exact not_sameLetter_of_mark ha (of_decide_eq_true (List.all_eq_true.1 signs c h))
  · exact not_sameLetter_of_mark ha (by decide)
  · exact not_sameLetter_of_mark ha (by decide)

theorem IsEquationChar.plainLetter {c : Char} (h : IsEquationChar c) :
    isPlainLetter c = isAsciiLetter c := by
  have table : plainMarks.all (fun c => !isPlainLetter c) = true := rfl
  by_cases hl : isAsciiLetter c
  · rw [hl]
    simp only [isAsciiLetter, Bool.or_eq_true] at hl
    simp only [isPlainLetter, Bool.or_eq_true]
    exact Or.inl hl
  · rw [Bool.eq_false_iff.2 hl]
    simpa using List.all_eq_true.1 table c (h.mem_plainMarks hl)

theorem IsEquationChar.ne_mark {c : Char} (h : IsEquationChar c) :
    c ≠ ':' ∧ c ≠ ',' ∧ c ≠ '?' ∧ c ≠ '!' := by
  by_cases hl : isAsciiLetter c
  · refine ⟨?_, ?_, ?_, ?_⟩ <;> rintro rfl <;> exact absurd hl (by decide)
  · have := h.mem_plainMarks hl
    refine ⟨?_, ?_, ?_, ?_⟩ <;> rintro rfl <;> exact absurd this (by decide)

/-! ## Sides -/

/-- What begins a text without a character begins it before that character. -/
theorem prefix_of_not_mem {t a b : List Char} {c : Char} (h : t <+: a ++ c :: b) (hc : c ∉ t) :
    t <+: a := by
  rcases le_or_gt t.length a.length with short | long
  · exact List.prefix_of_prefix_length_le h (List.prefix_append _ _) short
  · have front : a ++ [c] <+: t :=
      List.prefix_of_prefix_length_le ⟨b, by simp⟩ h (by simpa using long)
    exact absurd (front.subset (by simp)) hc

/-- What stands in a text without a character stands before or behind that character. -/
theorem infix_of_not_mem {t a b : List Char} {c : Char} (h : t <:+: a ++ c :: b) (hc : c ∉ t) :
    t <:+: a ∨ t <:+: b := by
  obtain ⟨u, v, split⟩ := h
  rw [List.append_assoc] at split
  rcases List.append_eq_append_iff.1 split with ⟨m, rfl, here⟩ | ⟨m, rfl, here⟩
  · exact Or.inl ((prefix_of_not_mem ⟨v, here⟩ hc).isInfix.trans (List.suffix_append u m).isInfix)
  · cases m with
    | nil => exact Or.inl ((prefix_of_not_mem (a := []) ⟨v, here.symm⟩ hc).isInfix.trans
        (List.nil_infix))
    | cons d m =>
      obtain ⟨rfl, rfl⟩ := List.cons.inj here
      exact Or.inr ⟨m, v, by simp⟩

/-- A text that is cut into pieces, each name of which has a meaning of its own or is a letter. -/
def IsSide (s : List Char) : Prop :=
  ∃ pieces, Cuts s pieces [] ∧ ∀ p ∈ pieces, p.form = .name →
    p.text ∈ functionNames ++ constantNames ∨ p.chars.length = 1

/-- While only letters are bound, a text that passes is a side. -/
theorem isSide_of_symbolNames {text : String} {bound names : List String}
    (single : ∀ b ∈ bound, b.length ≤ 1) (h : symbolNames text bound = .ok names) :
    IsSide text.toList := by
  obtain ⟨pieces, passes, -⟩ := passes_of_symbolNames h
  refine ⟨pieces, passes.cuts, fun p hp name => ?_⟩
  rcases passes.allowed p hp name with function | constant | hbound | one
  · exact Or.inl (List.mem_append_left _ function)
  · exact Or.inl (List.mem_append_right _ constant)
  · have short := single _ hbound
    have positive := List.length_pos_iff.2 (passes.cuts.fits p hp).ne_nil
    rw [Piece.text, String.length_ofList] at short
    exact Or.inr (by omega)
  · exact Or.inr one

/-- A name with a meaning of its own has letters only, and two of them at least. -/
theorem known_letters {name : String} (h : name ∈ functionNames ++ constantNames) :
    (∀ c ∈ name.toList, isAsciiLetter c) ∧ 2 ≤ name.toList.length := by
  have table : (functionNames ++ constantNames).all (fun name =>
      name.toList.all isAsciiLetter && decide (2 ≤ name.toList.length)) = true := rfl
  simpa only [Bool.and_eq_true, decide_eq_true_eq, List.all_eq_true]
    using List.all_eq_true.1 table name h

namespace IsSide

variable {s : List Char}

theorem chars (h : IsSide s) : ∀ c ∈ s, IsEquationChar c := by
  obtain ⟨pieces, cuts, -⟩ := h
  intro c hc
  rw [cuts.split, List.append_nil] at hc
  obtain ⟨p, hp, hc⟩ := List.mem_flatMap.1 hc
  rcases (cuts.fits p hp).chars c hc with h | h | h | h
  · exact Or.inl h
  · exact Or.inr (Or.inl h)
  · exact Or.inr (Or.inr (Or.inl h))
  · exact Or.inr (Or.inr (Or.inr (Or.inl h.1)))

/-- No other word is written in a side. -/
theorem no_word (h : IsSide s) {word part : List Char} (hw : 2 ≤ word.length)
    (unknown : (functionNames ++ constantNames).all (fun name =>
      !Pattern.occursFrom (word.map .letter) none name.toList) = true)
    (letters : ∀ c ∈ part, isAsciiLetter c)
    (same : List.Forall₂ (fun a c => sameLetter a c = true) word part) : ¬ part <:+: s := by
  intro inside
  obtain ⟨pieces, cuts, named⟩ := h
  have long : 2 ≤ part.length := same.length_eq ▸ hw
  obtain ⟨p, hp, name, within⟩ := cuts.letters_inside rfl
    (List.length_pos_iff.1 (by omega)) letters inside
  rcases named p hp name with known | one
  · have occurs := (@Pattern.occursFrom_letters_iff _ _ none).2 ⟨part, within, same⟩
    have absent := List.all_eq_true.1 unknown _ known
    rw [Piece.text, String.toList_ofList, occurs] at absent
    cases absent
  · have := within.length_le
    omega

/-- Without the blanks that begin it, a side is one. -/
theorem without_blanks (h : IsSide s) : IsSide (dropBlank s) := by
  obtain ⟨pieces, cuts, named⟩ := h
  cases cuts with
  | stop s => exact ⟨[], .stop [], by simp⟩
  | @piece p rest last more leads cuts =>
    by_cases form : p.form = .blanks
    · have fits : PieceForm.blanks.Fits p.chars := form ▸ leads.fits
      have ends : ∀ c ∈ rest.head?, isBlank c = false := by
        intro c hc
        rw [Bool.eq_false_iff]
        intro blank
        obtain ⟨more, rfl⟩ : ∃ more, rest = c :: more := List.head?_eq_some_iff.1 hc
        have longer := leads.longest (p.chars ++ [c]) ⟨more, by simp⟩ (by
          rw [form]
          exact ⟨by simp, by simpa [or_imp, forall_and] using ⟨fits.2, blank⟩⟩)
        simp at longer
      have same : dropBlank (p.chars ++ rest) = rest := by
        unfold dropBlank
        rw [List.dropWhile_append_of_pos fits.2]
        cases rest with
        | nil => rfl
        | cons c more => exact List.dropWhile_cons_of_neg (by simpa using ends c rfl)
      rw [same]
      exact ⟨more, cuts, fun q hq => named q (List.mem_cons_of_mem _ hq)⟩
    · obtain ⟨c, chars, hc⟩ := List.exists_cons_of_ne_nil leads.fits.ne_nil
      have start : ¬ isBlank c := by
        intro blank
        refine leads.first .blanks ?_ [c] (by simp [hc]) ⟨by simp, by simpa using blank⟩
        cases hf : p.form <;> simp_all [PieceForm.before]
      have same : dropBlank (p.chars ++ rest) = p.chars ++ rest := by
        rw [hc]
        exact List.dropWhile_cons_of_neg start
      rw [same]
      exact ⟨p :: more, .piece leads cuts, named⟩

/-- The letters that begin a side are a name with a meaning of its own, or there is at most one. -/
theorem front (h : IsSide s) : (s.takeWhile isAsciiLetter).length < 2 ∨
    String.ofList (s.takeWhile isAsciiLetter) ∈ functionNames ++ constantNames ∧
      IsSide (s.dropWhile isAsciiLetter) := by
  obtain ⟨pieces, cuts, named⟩ := h
  cases cuts with
  | stop s => exact Or.inl (by simp)
  | @piece p rest last more leads cuts =>
    by_cases name : p.form = .name
    · have letters : ∀ c ∈ p.chars, isAsciiLetter c := by
        rcases named p List.mem_cons_self name with known | one
        · have := (known_letters known).1
          rwa [Piece.text, String.toList_ofList] at this
        · obtain ⟨c, more, hc, -, text⟩ : PieceForm.name.Fits p.chars := name ▸ leads.fits
          rw [text] at one ⊢
          obtain rfl : more = [] := List.length_eq_zero_iff.1 (by simpa using one)
          simpa using hc
      have stops : ∀ c ∈ rest.head?, isAsciiLetter c = false := by
        intro c hc
        obtain ⟨more, rfl⟩ : ∃ more, rest = c :: more := List.head?_eq_some_iff.1 hc
        have := leads.no_letter name
        simp only [isNameChar, Bool.or_eq_true, not_or] at this
        exact Bool.eq_false_iff.2 this.1
      have taken : (p.chars ++ rest).takeWhile isAsciiLetter = p.chars := by
        rw [List.takeWhile_append_of_pos letters, takeWhile_of_head stops, List.append_nil]
      have left : (p.chars ++ rest).dropWhile isAsciiLetter = rest := by
        have := List.takeWhile_append_dropWhile (p := isAsciiLetter) (l := p.chars ++ rest)
        rw [taken] at this
        exact List.append_cancel_left this
      rw [taken, left]
      rcases named p List.mem_cons_self name with known | one
      · exact Or.inr ⟨known, more, cuts, fun q hq => named q (List.mem_cons_of_mem _ hq)⟩
      · exact Or.inl (by omega)
    · obtain ⟨c, chars, hc⟩ := List.exists_cons_of_ne_nil leads.fits.ne_nil
      have start : ¬ isAsciiLetter c := fun letter =>
        name (leads.fits.eq_name (by simp [hc]) letter)
      rw [hc, List.cons_append, List.takeWhile_cons_of_neg start]
      exact Or.inl (by simp)

end IsSide

/-! ## Leading words -/

/-- A name with a meaning of its own, and blanks behind it. -/
def IsSpacedName (w : List Char) : Prop :=
  ∃ name ∈ functionNames ++ constantNames, ∃ blanks : List Char, blanks ≠ [] ∧
    (∀ c ∈ blanks, isBlank c) ∧ w = name.toList ++ blanks

theorem IsSpacedName.ne_nil {w : List Char} (h : IsSpacedName w) : w ≠ [] := by
  obtain ⟨name, -, blanks, ne, -, rfl⟩ := h
  simp [ne]

/-- A spaced name is made up of letters and of blanks, so no equals sign is in it. -/
theorem IsSpacedName.prefix_side {w s r : List Char} (h : IsSpacedName w)
    (hw : w <+: s ++ '=' :: r) : w <+: s := by
  refine prefix_of_not_mem hw fun sign => ?_
  obtain ⟨name, known, blanks, -, blank, rfl⟩ := h
  rcases List.mem_append.1 sign with sign | sign
  · exact absurd ((known_letters known).1 _ sign) (by decide)
  · exact absurd (blank _ sign) (by decide)

/-- The spaced names that begin a text, up to the first place where there is none, and what is
kept of the text without them. -/
structure LeadingNames (s : List Char) (words : List (List Char)) (kept : List Char) : Prop where
  split : s = words.flatten ++ kept
  spaced : ∀ w ∈ words, IsSpacedName w
  stop : ∀ w, IsSpacedName w → ¬ w <+: kept

theorem LeadingNames.none {s : List Char} (h : ∀ w, IsSpacedName w → ¬ w <+: s) :
    LeadingNames s [] s := ⟨rfl, by simp, h⟩

theorem LeadingNames.cons {w s kept : List Char} {words : List (List Char)} (hw : IsSpacedName w)
    (h : LeadingNames s words kept) : LeadingNames (w ++ s) (w :: words) kept :=
  ⟨by rw [h.split, List.flatten_cons, List.append_assoc], List.forall_mem_cons.2 ⟨hw, h.spaced⟩,
    h.stop⟩

theorem LeadingNames.before_sign {s kept : List Char} {words : List (List Char)}
    (h : LeadingNames s words kept) (r : List Char) :
    LeadingNames (s ++ '=' :: r) words (kept ++ '=' :: r) :=
  ⟨by rw [h.split, List.append_assoc], h.spaced,
    fun w hw front => h.stop w hw (hw.prefix_side front)⟩

/-- Nothing is dropped exactly where no spaced name begins the text. -/
theorem LeadingNames.eq_iff {s kept : List Char} {words : List (List Char)}
    (h : LeadingNames s words kept) : kept = s ↔ ∀ w, IsSpacedName w → ¬ w <+: s := by
  constructor
  · rintro rfl
    exact h.stop
  · intro none
    have split := h.split
    cases words with
    | nil => exact split.symm
    | cons w words =>
      refine absurd ?_ (none w (h.spaced w List.mem_cons_self))
      rw [split, List.flatten_cons, List.append_assoc]
      exact List.prefix_append _ _

/-- Where a text begins with a spaced name, that name is all the letters that begin it. -/
theorem IsSpacedName.takeWhile {w s : List Char} (h : IsSpacedName w) (hw : w <+: s) :
    String.ofList (s.takeWhile isAsciiLetter) ∈ functionNames ++ constantNames ∧
      ∃ c ∈ (s.dropWhile isAsciiLetter).head?, isBlank c := by
  obtain ⟨name, known, blanks, ne, blank, rfl⟩ := h
  obtain ⟨rest, rfl⟩ := hw
  obtain ⟨b, blanks, rfl⟩ := List.exists_cons_of_ne_nil ne
  have stop : ¬ isAsciiLetter b := fun letter =>
    not_isBlank_of_isAsciiLetter letter (blank b List.mem_cons_self)
  have letters := (known_letters known).1
  constructor
  · rw [List.append_assoc, List.takeWhile_append_of_pos letters, List.cons_append,
      List.takeWhile_cons_of_neg stop, List.append_nil, String.ofList_toList]
    exact known
  · rw [List.append_assoc, List.dropWhile_append_of_pos letters, List.cons_append,
      List.dropWhile_cons_of_neg stop]
    exact ⟨b, rfl, blank b List.mem_cons_self⟩

/-- The letters that begin an equation, and what is behind them. -/
theorem IsSide.plainLetters {s : List Char} (h : IsSide s) (r : List Char) :
    (s ++ '=' :: r).takeWhile isPlainLetter = s.takeWhile isAsciiLetter ∧
      (s ++ '=' :: r).dropWhile isPlainLetter = s.dropWhile isAsciiLetter ++ '=' :: r := by
  have chars := h.chars
  clear h
  induction s with
  | nil => exact ⟨rfl, rfl⟩
  | cons c s ih =>
    obtain ⟨hc, hs⟩ := List.forall_mem_cons.1 chars
    obtain ⟨taken, left⟩ := ih hs
    rw [List.cons_append]
    simp only [List.takeWhile_cons, List.dropWhile_cons, hc.plainLetter, taken, left]
    split <;> simp

theorem dropBlank_before_sign (s r : List Char) :
    dropBlank (s ++ '=' :: r) = dropBlank s ++ '=' :: r := by
  have sign : ('=' :: r).dropWhile isBlank = '=' :: r := List.dropWhile_cons_of_neg (by decide)
  unfold dropBlank
  rw [List.dropWhile_append, sign]
  split_ifs with empty
  · rw [List.isEmpty_iff.1 empty, List.nil_append]
  · rfl

theorem afterLeadingWord?_eq {s rest : List Char} {c : Char}
    (h : s.dropWhile isPlainLetter = c :: rest) (colon : c ≠ ':') (comma : c ≠ ',') :
    afterLeadingWord? s =
      if (s.takeWhile isPlainLetter).length < 2 then none
      else if isWordChar c then none
      else if !isBlank c then none
      else some (dropBlank (c :: rest)) := by
  simp [afterLeadingWord?, h, colon, comma]

/-- At the beginning of an equation, only a name with a meaning of its own and a blank behind it is
taken for a leading word. -/
theorem IsSide.leading_word {s : List Char} (h : IsSide s) :
    (∃ w rest, IsSpacedName w ∧ s = w ++ rest ∧ IsSide rest ∧
      (∀ c ∈ rest.head?, isBlank c = false) ∧
      ∀ r, afterLeadingWord? (s ++ '=' :: r) = some (rest ++ '=' :: r)) ∨
    (∀ w, IsSpacedName w → ¬ w <+: s) ∧ ∀ r, afterLeadingWord? (s ++ '=' :: r) = none := by
  rcases h.front with short | ⟨known, side⟩
  · refine Or.inr ⟨fun w hw front => ?_, fun r => ?_⟩
    · have long := (known_letters (hw.takeWhile front).1).2
      rw [String.toList_ofList] at long
      omega
    · unfold afterLeadingWord?
      rw [(h.plainLetters r).1, if_pos short]
  have long := (known_letters known).2
  rw [String.toList_ofList] at long
  by_cases spaced : ∃ c ∈ (s.dropWhile isAsciiLetter).head?, isBlank c
  · left
    obtain ⟨c, hc, blank⟩ := spaced
    obtain ⟨more, left⟩ : ∃ more, s.dropWhile isAsciiLetter = c :: more :=
      List.head?_eq_some_iff.1 hc
    rw [left] at side
    refine ⟨s.takeWhile isAsciiLetter ++ (c :: more).takeWhile isBlank, dropBlank (c :: more),
      ⟨_, known, (c :: more).takeWhile isBlank, ?_, fun d => List.mem_takeWhile_imp, ?_⟩, ?_,
      side.without_blanks, head_dropWhile _, fun r => ?_⟩
    · rw [List.takeWhile_cons_of_pos blank]
      exact List.cons_ne_nil _ _
    · rw [String.toList_ofList]
    · rw [List.append_assoc, dropBlank, List.takeWhile_append_dropWhile, ← left,
        List.takeWhile_append_dropWhile]
    · have after := (h.plainLetters r).2
      rw [left] at after
      have mark := (side.chars c List.mem_cons_self).ne_mark
      rw [afterLeadingWord?_eq after mark.1 mark.2.1, (h.plainLetters r).1, if_neg (by omega),
        if_neg (by simp [not_isWordChar_of_isBlank blank]), if_neg (by simp [blank])]
      exact congrArg some (dropBlank_before_sign (c :: more) r)
  · refine Or.inr ⟨fun w hw front => spaced (hw.takeWhile front).2, fun r => ?_⟩
    obtain ⟨c, more, after, unspaced, char⟩ : ∃ c more,
        s.dropWhile isAsciiLetter ++ '=' :: r = c :: more ∧ isBlank c = false ∧
          IsEquationChar c := by
      cases left : s.dropWhile isAsciiLetter with
      | nil => exact ⟨'=', r, rfl, by decide, by simp [IsEquationChar]⟩
      | cons c more =>
        rw [left] at spaced side
        exact ⟨c, _, rfl, by simpa using spaced, side.chars c List.mem_cons_self⟩
    have mark := char.ne_mark
    rw [afterLeadingWord?_eq ((h.plainLetters r).2.trans after) mark.1 mark.2.1]
    simp [unspaced]

/-- The leading words of an equation are its spaced names. -/
theorem IsSide.leading_words {s : List Char} (h : IsSide s)
    (begins : ∀ c ∈ s.head?, isBlank c = false) :
    ∃ words kept, LeadingNames s words kept ∧ (∀ c ∈ kept.head?, isBlank c = false) ∧
      ∀ r fuel, s.length ≤ fuel → dropLeadingWords fuel (s ++ '=' :: r) = kept ++ '=' :: r := by
  induction hn : s.length using Nat.strong_induction_on generalizing s with
  | _ n ih =>
    subst hn
    rcases h.leading_word with ⟨w, rest, spaced, rfl, side, start, next⟩ | ⟨none, last⟩
    · have positive := List.length_pos_iff.2 spaced.ne_nil
      obtain ⟨words, kept, names, head, run⟩ :=
        ih rest.length (by rw [List.length_append]; omega) side start rfl
      refine ⟨w :: words, kept, names.cons spaced, head, fun r fuel long => ?_⟩
      rw [List.length_append] at long
      obtain ⟨fuel, rfl⟩ : ∃ k, fuel = k + 1 := ⟨fuel - 1, by omega⟩
      rw [dropLeadingWords, next r]
      exact run r fuel (by omega)
    · refine ⟨[], s, .none none, begins, fun r fuel _ => ?_⟩
      cases fuel with
      | zero => rfl
      | succ fuel => rw [dropLeadingWords, last r]

/-- Blanks before the equation make no difference to its leading words. -/
theorem IsSide.withoutLeadingWords {s : List Char} (h : IsSide s)
    (begins : ∀ c ∈ s.head?, isBlank c = false) :
    ∃ words kept, LeadingNames s words kept ∧ (∀ c ∈ kept.head?, isBlank c = false) ∧
      ∀ r front, (∀ c ∈ front, isBlank c) → ∃ before : List Char, (∀ c ∈ before, isBlank c) ∧
        Reckoner.withoutLeadingWords (front ++ (s ++ '=' :: r)) = before ++ (kept ++ '=' :: r) := by
  have dropped : ∀ r front, (∀ c ∈ front, isBlank c) →
      dropBlank (front ++ (s ++ '=' :: r)) = s ++ '=' :: r := by
    intro r front blank
    unfold dropBlank
    rw [List.dropWhile_append_of_pos blank]
    cases s with
    | nil => exact List.dropWhile_cons_of_neg (by decide)
    | cons c s => exact List.dropWhile_cons_of_neg (by simpa using begins c rfl)
  rcases h.leading_word with ⟨w, rest, spaced, rfl, side, start, next⟩ | ⟨none, last⟩
  · obtain ⟨words, kept, names, head, run⟩ := side.leading_words start
    refine ⟨w :: words, kept, names.cons spaced, head, fun r front blank => ⟨[], by simp, ?_⟩⟩
    unfold Reckoner.withoutLeadingWords
    rw [dropped r front blank, next r]
    exact run r _ (by simp)
  · refine ⟨[], s, .none none, begins, fun r front blank => ⟨front, blank, ?_⟩⟩
    unfold Reckoner.withoutLeadingWords
    rw [dropped r front blank, last r]

/-! ## Equations -/

/-- The text of an equation by itself: it is written without words, and nothing around it is left
out at the end of a question. -/
structure IsEquation (s : List Char) : Prop where
  chars : ∀ c ∈ s, IsEquationChar c
  no_solve : ∀ part, part <:+: s →
    ¬ List.Forall₂ (fun a c => sameLetter a c = true) "solve".toList part
  no_for : ∀ part, part <:+: s →
    ¬ List.Forall₂ (fun a c => sameLetter a c = true) "for".toList part
  begins : ∃ c ∈ s.head?, isBlank c = false
  ends : ∃ c ∈ s.getLast?, isBlank c = false ∧ c ≠ '.'

theorem isEquation_of_sides {l r : List Char} (left : IsSide l) (right : IsSide r)
    (begins : ∀ c ∈ l.head?, isBlank c = false)
    (ends : ∃ c ∈ (l ++ '=' :: r).getLast?, isBlank c = false ∧ c ≠ '.') :
    IsEquation (l ++ '=' :: r) := by
  have chars : ∀ c ∈ l ++ '=' :: r, IsEquationChar c := by
    intro c hc
    rcases List.mem_append.1 hc with hc | hc
    · exact left.chars c hc
    · rcases List.mem_cons.1 hc with rfl | hc
      · simp [IsEquationChar]
      · exact right.chars c hc
  have absent : ∀ word : List Char, 2 ≤ word.length → word.all isAsciiLetter = true →
      (functionNames ++ constantNames).all (fun name =>
        !Pattern.occursFrom (word.map .letter) none name.toList) = true →
      ∀ part, part <:+: l ++ '=' :: r →
        ¬ List.Forall₂ (fun a c => sameLetter a c = true) word part := by
    intro word long among unknown part inside same
    have letters : ∀ c ∈ part, isAsciiLetter c := by
      intro c hc
      obtain ⟨a, ha, alike⟩ := exists_of_forall₂ same.flip c hc
      exact (chars c (inside.subset hc)).letter_of_same (List.all_eq_true.1 among a ha) alike
    have sign : '=' ∉ part := fun h => absurd (letters _ h) (by decide)
    rcases infix_of_not_mem inside sign with h | h
    · exact left.no_word long unknown letters same h
    · exact right.no_word long unknown letters same h
  refine ⟨chars, absent _ (by decide) (by rfl) (by rfl),
    absent _ (by decide) (by rfl) (by rfl), ?_, ends⟩
  cases l with
  | nil => exact ⟨'=', rfl, by decide⟩
  | cons c l => exact ⟨c, rfl, begins c rfl⟩

theorem dropMarks_eq_self {s : List Char} (h : ∃ c ∈ s.getLast?, c ≠ '?' ∧ c ≠ '.' ∧ c ≠ '!') :
    dropMarks s = s := by
  obtain ⟨c, hc, marks⟩ := h
  unfold dropMarks
  rw [List.getLast?_eq_head?_reverse] at hc
  obtain ⟨rest, hr⟩ := List.head?_eq_some_iff.1 hc
  rw [hr, List.dropWhile_cons_of_neg (by simpa [and_assoc] using marks), ← hr, List.reverse_reverse]

theorem withoutLabel_eq_self {s : List Char} (h : ∀ c ∈ s, c ≠ ':' ∧ c ≠ ',') :
    withoutLabel s = s := by
  have inside : ∀ {t : List Char}, dropBlank t ⊆ t := fun {t} => (List.dropWhile_suffix _).subset
  unfold withoutLabel
  cases first : dropBlank s with
  | nil => rfl
  | cons c rest =>
    dsimp only
    cases second : dropBlank rest with
    | nil => rfl
    | cons mark more =>
      have mem : mark ∈ s := by
        refine inside (first ▸ List.mem_cons_of_mem c (inside ?_))
        rw [second]
        exact List.mem_cons_self
      simp [h mark mem]

namespace IsEquation

variable {s : List Char}

/-- The first "solve" that stands by itself is not in the equation. -/
theorem afterSolve (h : IsEquation s) : afterSolve s = s := by
  unfold Reckoner.afterSolve
  rw [Pattern.splitAt?_eq_none]
  intro t ht prev
  rw [Bool.eq_false_iff]
  intro found
  have found : (isEdge prev t.head? && Pattern.matchesAt ("solve".toList.map .letter ++ [.edge])
    prev t) = true := found
  rw [Bool.and_eq_true] at found
  obtain ⟨part, rest, rfl, same⟩ := Pattern.exists_of_matchesAt_letters found.2
  exact h.no_solve part ((List.prefix_append part rest).isInfix.trans ht.isInfix) same

/-- No variable to solve for ends the equation. -/
theorem withoutForVariable (h : IsEquation s) : withoutForVariable s = s := by
  unfold Reckoner.withoutForVariable
  rw [Pattern.splitAt?_eq_none]
  intro t ht prev
  rw [Bool.eq_false_iff]
  intro found
  obtain ⟨blanks, part, rest, rfl, -, same⟩ := exists_of_forVariable found
  refine h.no_for part (List.IsInfix.trans ⟨blanks, rest, by simp⟩ ht.isInfix) same

/-- A variable to solve for behind the equation is left out. -/
theorem withoutForVariable_behind (h : IsEquation s) :
    Reckoner.withoutForVariable (s ++ " for x".toList) = s := by
  unfold Reckoner.withoutForVariable
  rw [Pattern.splitAt?_append]
  · intro t ne ht prev
    rw [Bool.eq_false_iff]
    intro found
    obtain ⟨blanks, part, rest, split, blank, same⟩ := exists_of_forVariable found
    have split : t ++ ' ' :: ['f', 'o', 'r', ' ', 'x'] = blanks ++ (part ++ rest) := split
    rcases List.append_eq_append_iff.1 split with ⟨m, rfl, -⟩ | ⟨m, rfl, here⟩
    · -- the blanks would reach the last character of the equation
      obtain ⟨c, hc, unspaced, -⟩ := h.ends
      have last : c ∈ t.getLast? := by
        obtain ⟨front, rfl⟩ := ht
        rwa [List.getLast?_append_of_ne_nil _ ne] at hc
      rw [blank c (List.mem_append_left m (List.mem_of_getLast? last))] at unspaced
      cases unspaced
    · have inside : part <+: m := by
        refine prefix_of_not_mem ⟨rest, here⟩ fun space => ?_
        obtain ⟨a, ha, alike⟩ := exists_of_forall₂ same.flip ' ' space
        have letters : "for".toList.all isAsciiLetter = true := rfl
        rw [not_sameLetter_of_isBlank (List.all_eq_true.1 letters a ha) (by decide)] at alike
        cases alike
      have within := inside.isInfix.trans ((List.suffix_append blanks m).trans ht).isInfix
      exact h.no_for part within same
  · intro prev
    rfl

theorem bounds (h : IsEquation s) : s ≠ [] ∧ (∀ c ∈ s.head?, isBlank c = false) ∧
    ∀ c ∈ s.getLast?, isBlank c = false := by
  obtain ⟨c, hc, first⟩ := h.begins
  obtain ⟨d, hd, last, -⟩ := h.ends
  refine ⟨?_, fun e he => ?_, fun e he => ?_⟩
  · rintro rfl
    cases hc
  · rwa [Option.mem_unique he hc]
  · rwa [Option.mem_unique he hd]

/-- What is left of an equation is one, as long as it begins with no blank. -/
theorem suffix (h : IsEquation s) {t : List Char} (ht : t <:+ s)
    (begins : ∃ c ∈ t.head?, isBlank c = false) : IsEquation t := by
  refine ⟨fun c hc => h.chars c (ht.subset hc),
    fun part inside => h.no_solve part (inside.trans ht.isInfix),
    fun part inside => h.no_for part (inside.trans ht.isInfix), begins, ?_⟩
  have ne : t ≠ [] := by
    rintro rfl
    obtain ⟨c, hc, -⟩ := begins
    cases hc
  obtain ⟨front, rfl⟩ := ht
  have ends := h.ends
  rwa [List.getLast?_append_of_ne_nil _ ne] at ends

theorem strip (h : IsEquation s) : stripBlank s = s := by
  obtain ⟨ne, head, last⟩ := h.bounds
  exact stripBlank_eq_self ne head last

theorem no_label (h : IsEquation s) : ∀ c ∈ s, c ≠ ':' ∧ c ≠ ',' := fun c hc =>
  ⟨(h.chars c hc).ne_mark.1, (h.chars c hc).ne_mark.2.1⟩

/-- An equation stays as it is at the end of a question. -/
theorem tidied (h : IsEquation s) {before : List Char} (blank : ∀ c ∈ before, isBlank c) :
    stripBlank (Reckoner.withoutForVariable (dropMarks (stripBlank (withoutLabel (before ++ s))))) =
      s := by
  obtain ⟨ne, head, last⟩ := h.bounds
  obtain ⟨d, hd, -, point⟩ := h.ends
  have strip := stripBlank_around blank (List.forall_mem_nil _) ne head last
  rw [List.append_nil] at strip
  have marks := (h.chars d (List.mem_of_getLast? hd)).ne_mark
  rw [withoutLabel_eq_self, strip, dropMarks_eq_self ⟨d, hd, marks.2.2.1, point, marks.2.2.2⟩,
    h.withoutForVariable, h.strip]
  intro c hc
  rcases List.mem_append.1 hc with hc | hc
  · have marks := IsEquationChar.ne_mark (Or.inl (blank c hc))
    exact ⟨marks.1, marks.2.1⟩
  · exact h.no_label c hc

/-- A variable to solve for is left out behind an equation. -/
theorem tidied_variable (h : IsEquation s) {before : List Char} (blank : ∀ c ∈ before, isBlank c) :
    stripBlank (Reckoner.withoutForVariable (dropMarks (stripBlank (withoutLabel
      (before ++ (s ++ " for x?".toList)))))) = s := by
  obtain ⟨ne, head, -⟩ := h.bounds
  have strip : stripBlank (before ++ (s ++ " for x?".toList)) = s ++ " for x?".toList := by
    have around := stripBlank_around (s := s ++ " for x?".toList) blank (List.forall_mem_nil _)
      (by simp) (by rwa [List.head?_append_of_ne_nil _ ne]) (by
        rw [List.getLast?_append_of_ne_nil _ (by simp)]
        simp
        decide)
    rwa [List.append_nil] at around
  have marks : dropMarks (s ++ " for x?".toList) = s ++ " for x".toList := by
    unfold dropMarks
    rw [List.reverse_append]
    change (" for x".toList.reverse ++ s.reverse).reverse = _
    rw [List.reverse_append, List.reverse_reverse, List.reverse_reverse]
  rw [withoutLabel_eq_self, strip, marks, h.withoutForVariable_behind, h.strip]
  intro c hc
  rcases List.mem_append.1 hc with hc | hc
  · have marks := IsEquationChar.ne_mark (Or.inl (blank c hc))
    exact ⟨marks.1, marks.2.1⟩
  · rcases List.mem_append.1 hc with hc | hc
    · exact h.no_label c hc
    · have behind : " for x?".toList.all (fun c => decide (c ≠ ':' ∧ c ≠ ',')) = true := by decide
      exact of_decide_eq_true (List.all_eq_true.1 behind c hc)

end IsEquation

theorem afterSolve_solve {s : List Char} (h : stripBlank (' ' :: s) ≠ []) :
    afterSolve ("Solve ".toList ++ s) = ' ' :: s := by
  have blank : isWordChar ' ' = false := not_isWordChar_of_isBlank (by decide)
  have edges : isEdge none (some 'S') = true ∧ isEdge (some 'e') (some ' ') = true :=
    ⟨rfl, by rw [isEdge, Option.any_some, Option.any_some, blank]; rfl⟩
  have here : Pattern.splitAt? (.edge :: letters "solve" ++ [.edge]) none ("Solve ".toList ++ s) =
      some ([], "Solve ".toList ++ s) := by
    unfold Pattern.splitAt?
    refine if_pos ?_
    change (isEdge none (some 'S') && (true && (true && (true && (true && (true &&
      (isEdge (some 'e') (some ' ') && true))))))) = true
    rw [edges.1, edges.2]
    rfl
  unfold afterSolve
  rw [here]
  exact if_neg (by simpa using h)

theorem withoutLeadingWords_for (s : List Char) :
    withoutLeadingWords (' ' :: "for x: ".toList ++ s) = "x: ".toList ++ s := by
  have word : afterLeadingWord? ("for x: ".toList ++ s) = some ("x: ".toList ++ s) := by
    have next : ("for x: ".toList ++ s).dropWhile isPlainLetter = ' ' :: ("x: ".toList ++ s) := rfl
    refine (afterLeadingWord?_eq next (by decide) (by decide)).trans ?_
    rw [not_isWordChar_of_isBlank (by decide)]
    rfl
  have last : afterLeadingWord? ("x: ".toList ++ s) = none := rfl
  have start : dropBlank (' ' :: "for x: ".toList ++ s) = "for x: ".toList ++ s := rfl
  unfold withoutLeadingWords
  rw [start, word]
  change dropLeadingWords (s.length + 3) _ = _
  rw [dropLeadingWords, last]

theorem withoutLabel_variable (s : List Char) : withoutLabel ("x: ".toList ++ s) = dropBlank s :=
  rfl

theorem stripBlank_ne_nil {s : List Char} (h : '=' ∈ s) : stripBlank s ≠ [] :=
  List.ne_nil_of_mem (mem_stripBlank h (by decide))

/-- Without the words that begin it, an equation is left. -/
theorem IsEquation.without_words {l r : List Char} (h : IsEquation (l ++ '=' :: r))
    (side : IsSide l) :
    ∃ words kept, LeadingNames (l ++ '=' :: r) words (kept ++ '=' :: r) ∧
      IsEquation (kept ++ '=' :: r) ∧
      ∀ behind front, (∀ c ∈ front, isBlank c) → ∃ before : List Char, (∀ c ∈ before, isBlank c) ∧
        withoutLeadingWords (front ++ (l ++ '=' :: r ++ behind)) =
          before ++ (kept ++ '=' :: r ++ behind) := by
  have begins : ∀ c ∈ l.head?, isBlank c = false := by
    intro c hc
    refine h.bounds.2.1 c ?_
    rw [List.head?_append, hc]
    rfl
  obtain ⟨words, kept, leading, start, without⟩ := side.withoutLeadingWords begins
  refine ⟨words, kept, leading.before_sign r, h.suffix ⟨words.flatten, ?_⟩ ?_,
    fun behind => by simpa using without (r ++ behind)⟩
  · rw [leading.split, List.append_assoc]
  · cases kept with
    | nil => exact ⟨'=', rfl, by decide⟩
    | cons c kept => exact ⟨c, rfl, start c rfl⟩

/-- What is left out around an equation in a question. A name with a meaning of its own and a blank
behind it are taken for words of the question, except where a variable is named before. -/
theorem an_equation_in_a_question_loses_the_spaced_names_before_it {l r : String}
    {bound names others : List String} (single : ∀ b ∈ bound, b.length ≤ 1)
    (left : symbolNames l bound = .ok names) (right : symbolNames r bound = .ok others)
    (trimmed : stripText (l ++ "=" ++ r) = l ++ "=" ++ r)
    (point : (l ++ "=" ++ r).toList.getLast? ≠ some '.') :
    let e := l ++ "=" ++ r
    equationText ("Solve for x: " ++ e) = e ∧
    ∃ words kept, LeadingNames e.toList words kept ∧
      equationText e = String.ofList kept ∧
      equationText ("Solve " ++ e) = String.ofList kept ∧
      equationText ("Solve " ++ e ++ " for x?") = String.ofList kept ∧
      (String.ofList kept = e ↔ ∀ w, IsSpacedName w → ¬ w <+: e.toList) := by
  intro e
  have chars : e.toList = l.toList ++ '=' :: r.toList := by simp [e]
  have side := isSide_of_symbolNames single left
  have strip : stripBlank (l.toList ++ '=' :: r.toList) = l.toList ++ '=' :: r.toList := by
    have same := congrArg String.toList trimmed
    rwa [stripText, String.toList_ofList, chars] at same
  have equation : IsEquation (l.toList ++ '=' :: r.toList) := by
    obtain ⟨head, last⟩ := ends_of_stripBlank_eq strip
    obtain ⟨d, hd⟩ := Option.ne_none_iff_exists'.1
      (mt List.getLast?_eq_none_iff.1 (show l.toList ++ '=' :: r.toList ≠ [] by simp))
    refine isEquation_of_sides side (isSide_of_symbolNames single right) (fun c hc => head c ?_)
      ⟨d, hd, last d hd, fun h => point (chars ▸ h ▸ hd)⟩
    rw [List.head?_append, hc]
    rfl
  obtain ⟨words, kept, leading, keeps, without⟩ := equation.without_words side
  rw [← chars] at leading equation
  refine ⟨?_, words, _, leading, ?_, ?_, ?_, ?_⟩
  · have tidy := equation.tidied (List.forall_mem_nil _)
    rw [List.nil_append, withoutLabel_eq_self equation.no_label] at tidy
    have first : dropBlank e.toList = e.toList := by
      obtain ⟨c, hc, unspaced⟩ := equation.begins
      obtain ⟨more, hm⟩ := List.head?_eq_some_iff.1 hc
      rw [hm]
      exact List.dropWhile_cons_of_neg (by simp [unspaced])
    unfold equationText
    dsimp only
    rw [show "Solve for x: " = "Solve " ++ "for x: " from rfl, String.append_assoc,
      String.toList_append, afterSolve_solve (stripBlank_ne_nil (by simp [e])),
      String.toList_append, ← List.cons_append, withoutLeadingWords_for, withoutLabel_variable,
      first, tidy, String.ofList_toList]
  · obtain ⟨before, blank, rest⟩ := without [] [] (by simp)
    rw [List.nil_append, List.append_nil, List.append_nil, ← chars] at rest
    unfold equationText
    dsimp only
    rw [equation.afterSolve, rest, keeps.tidied blank]
  · obtain ⟨before, blank, rest⟩ := without [] [' '] (by simp; decide)
    rw [List.append_nil, List.append_nil, ← chars] at rest
    unfold equationText
    dsimp only
    rw [String.toList_append, afterSolve_solve (stripBlank_ne_nil (by simp [e])),
      ← List.singleton_append, rest, keeps.tidied blank]
  · obtain ⟨before, blank, rest⟩ := without " for x?".toList [' '] (by simp; decide)
    rw [← chars] at rest
    unfold equationText
    dsimp only
    rw [String.append_assoc, String.toList_append, String.toList_append,
      afterSolve_solve (stripBlank_ne_nil (by simp [e])), ← List.singleton_append, rest,
      keeps.tidied_variable blank]
  · rw [← leading.eq_iff, ← String.toList_inj, String.toList_ofList]

/-- The sine of an equation stays where its bracket stands right behind it. -/
theorem the_equation_of_a_sine_is_found :
    equationText "Solve for x: sin(x) - y = 0.5" = "sin(x) - y = 0.5" ∧
      equationText "sin(x) - y = 0.5" = "sin(x) - y = 0.5" ∧
      equationText "Solve sin(x) - y = 0.5" = "sin(x) - y = 0.5" ∧
      equationText "Solve sin(x) - y = 0.5 for x?" = "sin(x) - y = 0.5" := by
  have left : symbolNames "sin(x) - y " [] = .ok ["x", "y"] := by decide +kernel
  have right : symbolNames " 0.5" [] = .ok [] := by decide +kernel
  obtain ⟨labelled, words, kept, -, plain, asked, named, whole⟩ :=
    an_equation_in_a_question_loses_the_spaced_names_before_it (List.forall_mem_nil _) left right
      (by decide +kernel) (by decide +kernel)
  have all : String.ofList kept = "sin(x) - y = 0.5" := by
    refine whole.2 fun w hw front => ?_
    obtain ⟨c, hc, blank⟩ := (hw.takeWhile front).2
    obtain rfl : '(' = c := Option.some.inj hc
    exact absurd blank (by decide)
  exact ⟨labelled, plain.trans all, asked.trans all, named.trans all⟩

/-- Of an equation that begins with a sine and a blank, the sine is taken for a word. -/
theorem the_sine_before_a_blank_is_lost :
    symbolNames "sin (x) " [] = .ok ["x"] ∧ symbolNames " 0" [] = .ok [] ∧
      stripText "sin (x) = 0" = "sin (x) = 0" ∧
      equationText "sin (x) = 0" = "(x) = 0" ∧
      equationText "Solve sin (x) = 0" = "(x) = 0" ∧
      equationText "Solve sin (x) = 0 for x?" = "(x) = 0" := by
  decide +kernel

end Reckoner
