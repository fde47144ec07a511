-- When two characters are the same letter. Among the letters of the Latin alphabet these are a
-- capital and its small letter; a character without a case is no such letter.
import Mathlib
import Reckoner.Reading.Names
import Reckoner.Text.Case
import Reckoner.Text.Digit
import Reckoner.Text.Word

namespace Reckoner

/-! ## Letters of the alphabet -/

/-- The characters of a range of code points. -/
def charsBetween (lo hi : Nat) : List Char := (List.range' lo (hi + 1 - lo)).map Char.ofNat

theorem mem_charsBetween {lo hi : Nat} {c : Char} (hl : lo ≤ c.toNat) (hh : c.toNat ≤ hi) :
    c ∈ charsBetween lo hi :=
  List.mem_map.2 ⟨c.toNat, List.mem_range'_1.2 ⟨hl, by omega⟩, Char.ofNat_toNat c⟩

/-- The letters of the Latin alphabet, capital and small. -/
def alphabet : List Char := charsBetween 65 90 ++ charsBetween 97 122

theorem mem_alphabet {c : Char} (h : isAsciiLetter c) : c ∈ alphabet := by
  simp only [isAsciiLetter, Bool.or_eq_true, Bool.and_eq_true, decide_eq_true_eq] at h
  rcases h with ⟨hl, hh⟩ | ⟨hl, hh⟩
  · exact List.mem_append_right _ (mem_charsBetween hl hh)
  · exact List.mem_append_left _ (mem_charsBetween hl hh)

/-- What a table of the alphabet shows of all its letters. -/
theorem of_alphabet {p : Char → Bool} (h : alphabet.all p = true) {c : Char}
    (hc : isAsciiLetter c) : p c = true := List.all_eq_true.1 h c (mem_alphabet hc)

theorem smallOf_letter {c : Char} (h : isAsciiLetter c) : smallOf c = c.toLower := by
  have table : alphabet.all (fun c => smallOf c == c.toLower) = true := rfl
  simpa using of_alphabet table h

/-- Only a letter of the alphabet has another small letter in the ASCII range. -/
theorem toLower_eq_self {c : Char} (h : ¬ isAsciiLetter c) : c.toLower = c := by
  refine Char.toLower_eq_of_not_isUpper fun upper => h ?_
  simp only [Char.isUpper, decide_eq_true_eq] at upper
  simp only [isAsciiLetter, Bool.or_eq_true, Bool.and_eq_true, decide_eq_true_eq]
  exact .inr upper

theorem isAsciiLetter_toLower {c : Char} (h : isAsciiLetter c) : isAsciiLetter c.toLower := by
  have table : alphabet.all (fun c => isAsciiLetter c.toLower) = true := rfl
  exact of_alphabet table h

theorem smallOf_toLower (c : Char) : smallOf c.toLower = smallOf c := by
  by_cases h : isAsciiLetter c
  · rw [smallOf_letter (isAsciiLetter_toLower h), smallOf_letter h, Char.toLower_toLower_eq_toLower]
  · rw [toLower_eq_self h]

theorem toNat_of_isAsciiLetter {c : Char} (h : isAsciiLetter c) :
    65 ≤ c.toNat ∧ c.toNat ≤ 122 := by
  simp only [isAsciiLetter, Bool.or_eq_true, Bool.and_eq_true, decide_eq_true_eq, Char.le_def,
    UInt32.le_iff_toNat_le] at h
  change 65 ≤ c.val.toNat ∧ c.val.toNat ≤ 122
  have : 'a'.val.toNat = 97 := rfl
  have : 'z'.val.toNat = 122 := rfl
  have : 'A'.val.toNat = 65 := rfl
  have : 'Z'.val.toNat = 90 := rfl
  omega

theorem not_isBlank_of_isAsciiLetter {c : Char} (h : isAsciiLetter c) : ¬ isBlank c := by
  have bounds := toNat_of_isAsciiLetter h
  simp [isBlank, inRanges, blankRanges]
  omega

/-- Two letters of the alphabet are the same when their small letters are. -/
theorem sameLetter_iff {a c : Char} (ha : isAsciiLetter a) (hc : isAsciiLetter c) :
    sameLetter a c = true ↔ a.toLower = c.toLower := by
  -- of letters that are alike, one at most belongs to the alphabet
  have apart : alikeLetters.all (fun l => l.all fun m => l.all fun n =>
      decide (m = n) || decide (122 < m) || decide (122 < n)) = true := rfl
  unfold sameLetter
  dsimp only
  rw [smallOf_letter ha, smallOf_letter hc]
  simp only [Bool.or_eq_true, beq_iff_eq, List.any_eq_true, Bool.and_eq_true,
    List.contains_eq_mem, decide_eq_true_eq]
  refine ⟨?_, Or.inl⟩
  rintro (same | ⟨l, hl, hm, hn⟩)
  · exact same
  · have := List.all_eq_true.1 (List.all_eq_true.1 (List.all_eq_true.1 apart l hl) _ hm) _ hn
    simp only [Bool.or_eq_true, decide_eq_true_eq] at this
    have first := (toNat_of_isAsciiLetter (isAsciiLetter_toLower ha)).2
    have second := (toNat_of_isAsciiLetter (isAsciiLetter_toLower hc)).2
    exact Char.toNat_inj.1 (by omega)

/-! ## Characters without a case -/

/-- The code points of the range have no case, are like no other ones and are no letters of the
alphabet. -/
def isCaseless (lo hi : Nat) : Bool :=
  smallRuns.all (fun r => decide (hi < r.1) || decide (r.2.1 < lo)) &&
    alikeLetters.all (fun l => l.all fun n => decide (n < lo) || decide (hi < n)) &&
    (decide (hi < 0x130) || decide (0x130 < lo)) && (decide (hi < 65) || decide (122 < lo) ||
      (decide (90 < lo) && decide (hi < 97)))

/-- A character without a case is its own small letter. -/
theorem smallOf_of_caseless {lo hi : Nat} (h : isCaseless lo hi = true) {c : Char}
    (hl : lo ≤ c.toNat) (hh : c.toNat ≤ hi) : smallOf c = c := by
  simp only [isCaseless, Bool.and_eq_true, List.all_eq_true, Bool.or_eq_true,
    decide_eq_true_eq] at h
  obtain ⟨⟨⟨runs, -⟩, dotted⟩, -⟩ := h
  have noRun : changeCase? smallRuns c = none := by
    unfold changeCase?
    rw [List.find?_eq_none.2, Option.map_none]
    rintro ⟨first, last, step, change⟩ hr
    have apart : hi < first ∨ last < lo := runs _ hr
    simp only [Bool.and_eq_true, decide_eq_true_eq, beq_iff_eq, not_and]
    omega
  have plain : c ≠ '\u0130' := by
    rintro rfl
    have : '\u0130'.toNat = 0x130 := rfl
    omega
  unfold smallOf
  rw [if_neg plain, noRun, Option.getD_none]

theorem not_sameLetter_of_caseless {lo hi : Nat} (h : isCaseless lo hi = true) {a c : Char}
    (ha : isAsciiLetter a) (hl : lo ≤ c.toNat) (hh : c.toNat ≤ hi) : sameLetter a c = false := by
  rw [Bool.eq_false_iff]
  intro same
  unfold sameLetter at same
  dsimp only at same
  rw [smallOf_of_caseless h hl hh, smallOf_letter ha] at same
  simp only [isCaseless, Bool.and_eq_true, List.all_eq_true, Bool.or_eq_true,
    decide_eq_true_eq] at h
  obtain ⟨⟨⟨-, alike⟩, -⟩, outside⟩ := h
  simp only [Bool.or_eq_true, beq_iff_eq, List.any_eq_true, Bool.and_eq_true,
    List.contains_eq_mem, decide_eq_true_eq] at same
  rcases same with same | ⟨l, hl', -, hn⟩
  · have table : alphabet.all (fun c => decide (65 ≤ c.toNat ∧ c.toNat ≤ 90 ∨
        97 ≤ c.toNat ∧ c.toNat ≤ 122)) = true := rfl
    have bounds := of_alphabet table (isAsciiLetter_toLower ha)
    rw [same] at bounds
    simp only [decide_eq_true_eq] at bounds
    omega
  · have := alike l hl' _ hn
    omega

/-! ## Blanks -/

/-- What a table of the blanks shows of each of them. -/
theorem of_blanks {p : Char → Bool}
    (h : blankRanges.all (fun r => (charsBetween r.1 r.2).all p) = true) {c : Char} (hc : isBlank c) :
    p c = true := by
  simp only [isBlank, inRanges, List.any_eq_true, Bool.and_eq_true, decide_eq_true_eq] at hc
  obtain ⟨r, hr, hl, hh⟩ := hc
  exact List.all_eq_true.1 (List.all_eq_true.1 h r hr) c (mem_charsBetween hl hh)

/-- Ranges that end before each run of blanks or begin behind it have no blank in them. -/
theorem not_inRanges_of_isBlank {ranges : List (Nat × Nat)}
    (apart : (ranges.all fun r => blankRanges.all fun b => b.2.blt r.1 || r.2.blt b.1) = true)
    {c : Char} (h : isBlank c) : inRanges ranges c = false := by
  simp only [isBlank, inRanges, List.any_eq_true, Bool.and_eq_true, decide_eq_true_eq] at h
  obtain ⟨b, hb, low, high⟩ := h
  refine List.any_eq_false.2 fun r hr inside => ?_
  have outside := List.all_eq_true.1 (List.all_eq_true.1 apart r hr) b hb
  simp only [Bool.or_eq_true, Nat.blt_eq, Bool.and_eq_true, decide_eq_true_eq] at outside inside
  omega

theorem not_isWordChar_of_isBlank {c : Char} (h : isBlank c) : isWordChar c = false :=
  not_inRanges_of_isBlank (by decide +kernel) h

/-- A blank is no part of a number. -/
theorem not_number_of_isBlank {c : Char} (h : isBlank c) : isDigit c = false ∧ c ≠ '.' ∧ c ≠ '-' := by
  have table : blankRanges.all (fun r => (charsBetween r.1 r.2).all fun c =>
      !isDigit c && decide (c ≠ '.' ∧ c ≠ '-')) = true := rfl
  simpa using of_blanks table h

/-- Each blank lies in a range of characters without a case. -/
theorem caseless_of_isBlank {c : Char} (hc : isBlank c) :
    ∃ lo hi, isCaseless lo hi = true ∧ lo ≤ c.toNat ∧ c.toNat ≤ hi := by
  have table : blankRanges.all (fun r => isCaseless r.1 r.2) = true := rfl
  simp only [isBlank, inRanges, List.any_eq_true, Bool.and_eq_true, decide_eq_true_eq] at hc
  obtain ⟨r, hr, hl, hh⟩ := hc
  exact ⟨r.1, r.2, List.all_eq_true.1 table r hr, hl, hh⟩

theorem smallOf_blank {c : Char} (hc : isBlank c) : smallOf c = c := by
  obtain ⟨lo, hi, caseless, hl, hh⟩ := caseless_of_isBlank hc
  exact smallOf_of_caseless caseless hl hh

theorem toNat_ofNat_eq (n : Nat) : (Char.ofNat n).toNat = n ∨ (Char.ofNat n).toNat = 0 := by
  unfold Char.ofNat
  split_ifs with h
  · exact Or.inl (by simp [Char.ofNatAux, Char.toNat])
  · exact Or.inr rfl

/-- No other character has a blank for its small letter. -/
theorem isBlank_of_isBlank_smallOf {c : Char} (h : isBlank (smallOf c)) : isBlank c := by
  have table : smallRuns.all (fun r => blankRanges.all fun b =>
      decide ((r.2.1 : Int) + r.2.2.2 < b.1) || decide ((b.2 : Int) < r.1 + r.2.2.2)) = true := by
    decide +kernel
  have positive : blankRanges.all (fun b => decide (0 < b.1)) = true := rfl
  unfold smallOf at h
  split_ifs at h with dotted
  · exact absurd h (by decide)
  unfold changeCase? at h
  cases found : smallRuns.find? _ with
  | none => rwa [found] at h
  | some r =>
    obtain ⟨lo, hi, step, change⟩ := r
    rw [found] at h
    have inside := List.find?_some found
    simp only [Bool.and_eq_true, decide_eq_true_eq] at inside
    obtain ⟨⟨low, high⟩, -⟩ := inside
    have apart := List.all_eq_true.1 table (lo, hi, step, change) (List.mem_of_find?_eq_some found)
    simp only [List.all_eq_true, Bool.or_eq_true, decide_eq_true_eq] at apart
    simp only [Option.map_some, Option.getD_some, isBlank, inRanges, List.any_eq_true,
      Bool.and_eq_true, decide_eq_true_eq] at h
    obtain ⟨b, hb, h1, h2⟩ := h
    have outside := apart b hb
    have := of_decide_eq_true (List.all_eq_true.1 positive b hb)
    rcases toNat_ofNat_eq ((c.toNat : Int) + change).toNat with same | zero <;> omega

theorem not_sameLetter_of_not_isBlank {a c : Char} (ha : ¬ isBlank a) (hc : isBlank c) :
    sameLetter a c = false := by
  obtain ⟨lo, hi, caseless, hl, hh⟩ := caseless_of_isBlank hc
  simp only [isCaseless, Bool.and_eq_true, List.all_eq_true, Bool.or_eq_true,
    decide_eq_true_eq] at caseless
  obtain ⟨⟨⟨-, alike⟩, -⟩, -⟩ := caseless
  rw [Bool.eq_false_iff]
  intro same
  unfold sameLetter at same
  simp only [smallOf_blank hc, Bool.or_eq_true, beq_iff_eq, List.any_eq_true, Bool.and_eq_true,
    List.contains_eq_mem, decide_eq_true_eq] at same
  rcases same with same | ⟨l, hl', -, hn⟩
  · exact ha (isBlank_of_isBlank_smallOf (same ▸ hc))
  · have := alike l hl' _ hn
    omega

theorem not_sameLetter_of_isBlank {a c : Char} (ha : isAsciiLetter a) (hc : isBlank c) :
    sameLetter a c = false :=
  not_sameLetter_of_not_isBlank (not_isBlank_of_isAsciiLetter ha) hc

/-! ## Digits and marks -/

theorem not_sameLetter_of_isDigit {a c : Char} (ha : isAsciiLetter a) (hc : isDigit c) :
    sameLetter a c = false := by
  have table : zeroDigits.all (fun z => isCaseless z (z + 9)) = true := by decide +kernel
  simp only [isDigit, digitValue?, Option.isSome_map, List.find?_isSome, Bool.and_eq_true,
    decide_eq_true_eq] at hc
  obtain ⟨z, hz, hl, hh⟩ := hc
  exact not_sameLetter_of_caseless (List.all_eq_true.1 table z hz) ha hl (by omega)

/-- The marks of the ASCII range are no letters. -/
theorem not_sameLetter_of_mark {a c : Char} (ha : isAsciiLetter a) (hc : c.toNat < 65 ∨ c = '^') :
    sameLetter a c = false := by
  have low : isCaseless 0 64 = true := rfl
  have between : isCaseless 91 96 = true := rfl
  rcases hc with hc | rfl
  · exact not_sameLetter_of_caseless low ha (Nat.zero_le _) (by omega)
  · exact not_sameLetter_of_caseless between ha (by decide) (by decide)

end Reckoner
