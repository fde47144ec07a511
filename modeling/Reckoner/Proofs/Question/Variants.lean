-- Ways to write one question. In the ASCII range neither the case of the letters nor the blanks around
-- a question change its classification: all of it is that of the question in small letters.
import Reckoner.Proofs.Question.Numbers
import Reckoner.Proofs.Text.Blanks
import Reckoner.Proofs.Text.Patterns

namespace Reckoner

/-- The texts have the same letters in any case, and any blanks around them. -/
inductive Restyled : String → String → Prop where
  | mk {front text back front' text' back' : String} :
    (∀ c ∈ front.toList ++ back.toList, isBlank c) → (∀ c ∈ front'.toList ++ back'.toList, isBlank c) →
    text.toList.map Char.toLower = text'.toList.map Char.toLower →
    Restyled (front ++ text ++ back) (front' ++ text' ++ back')

/-! ## Numbers -/

section Scans

variable {s : List Char} {ls : List Literal}

/-- A character that has another case is no part of a literal. -/
theorem toLower_eq_mark {c : Char} {mark : Char} (h : c.toLower = mark)
    (hm : isAsciiLetter mark = false) : c = mark := by
  by_cases letter : isAsciiLetter c
  · have := isAsciiLetter_toLower letter
    rw [h, hm] at this
    cases this
  · rwa [toLower_eq_self letter] at h

theorem isDigit_toLower (c : Char) : isDigit c.toLower = isDigit c :=
  ((Alike.toLower c).kind .digit).symm

theorem toLower_digit {c : Char} (h : isDigit c) : c.toLower = c := by
  refine toLower_eq_self fun letter => ?_
  have table : alphabet.all (fun c => !isDigit c) = true := rfl
  simpa [h] using of_alphabet table letter

theorem Literal.map_toLower_chars {l : Literal} (whole : ∀ c ∈ l.whole, isDigit c)
    (part : ∀ part ∈ l.part, ∀ c ∈ part, isDigit c) : l.chars.map Char.toLower = l.chars := by
  have minus : '-'.toLower = '-' := by decide
  have point : '.'.toLower = '.' := by decide
  have digits : ∀ {t : List Char}, (∀ c ∈ t, isDigit c) → t.map Char.toLower = t := fun ht =>
    (List.map_congr_left fun c hc => toLower_digit (ht c hc)).trans (List.map_id _)
  have sign : l.sign.map Char.toLower = l.sign := by
    unfold sign
    split_ifs <;> simp [minus]
  have fraction : l.fraction.map Char.toLower = l.fraction := by
    unfold fraction
    cases hp : l.part with
    | none => rfl
    | some t => simp only [List.map_cons, point, digits (part t hp)]
  rw [chars_eq, List.map_append, List.map_append, sign, digits whole, fraction]

theorem Scan.map_toLower (h : Scan s ls) : Scan (s.map Char.toLower) ls := by
  induction h with
  | done plain => exact .done (by simpa [isDigit_toLower] using plain)
  | @found gap rest l more hb _ ih =>
    have lowered : Begins (gap.map Char.toLower) l (rest.map Char.toLower) := { hb with
      gap_plain := by simpa [isDigit_toLower] using hb.gap_plain
      sign_taken := fun positive last => by
        obtain ⟨c, hc, hm⟩ := Option.map_eq_some_iff.1 (List.getLast?_map .. ▸ last)
        exact hb.sign_taken positive (toLower_eq_mark hm (by decide) ▸ hc)
      digits_taken := by
        intro c hc
        obtain ⟨d, hd, rfl⟩ := Option.map_eq_some_iff.1 (List.head?_map .. ▸ hc)
        rw [isDigit_toLower]
        exact hb.digits_taken d hd
      point_taken := fun whole first => by
        obtain ⟨c, hc, hm⟩ := Option.map_eq_some_iff.1 (List.head?_map .. ▸ first)
        exact hb.point_taken whole (toLower_eq_mark hm (by decide) ▸ hc) }
    rw [List.map_append, List.map_append, Literal.map_toLower_chars hb.whole_digits hb.part_digits]
    exact .found lowered ih

/-- What stands behind a text and is no part of a number changes none of its literals. -/
theorem Scan.append {back : List Char} (h : Scan s ls)
    (plain : ∀ c ∈ back, isDigit c = false ∧ c ≠ '.') : Scan (s ++ back) ls := by
  have first : ∀ {rest : List Char} {p : Char → Prop}, (∀ c ∈ rest.head?, p c) → (∀ c ∈ back, p c) →
      ∀ c ∈ (rest ++ back).head?, p c := by
    intro rest p hr hp c hc
    cases rest with
    | nil => exact hp c (List.mem_of_mem_head? hc)
    | cons d rest => exact hr c hc
  induction h with
  | done none => exact .done (List.forall_mem_append.2 ⟨none, fun c hc => (plain c hc).1⟩)
  | @found gap rest l more hb _ ih =>
    have longer : Begins gap l (rest ++ back) := { hb with
      digits_taken := first hb.digits_taken fun c hc => (plain c hc).1
      point_taken := fun whole point => first (p := (· ≠ '.'))
        (fun c hc hm => hb.point_taken whole (hm ▸ hc)) (fun c hc => (plain c hc).2) _ point rfl }
    rw [List.append_assoc]
    exact .found longer ih

end Scans

/-! ## The question in small letters -/

section Lowered

variable {front text back : String}

theorem numbersIn_lowered (hf : ∀ c ∈ front.toList, isBlank c) (hb : ∀ c ∈ back.toList, isBlank c) :
    numbersIn (front ++ text ++ back) = numbersIn (String.ofList (text.toList.map Char.toLower)) := by
  have around : Scan (front ++ text ++ back).toList (literals text) := by
    rw [String.toList_append, String.toList_append]
    refine ((literals_scan text).after_separator fun c hc => ?_).append fun c hc => ?_
    · obtain ⟨digit, -, sign⟩ := not_number_of_isBlank (hf c hc)
      exact ⟨digit, sign⟩
    · obtain ⟨digit, point, -⟩ := not_number_of_isBlank (hb c hc)
      exact ⟨digit, point⟩
  have lowered : Scan (String.ofList (text.toList.map Char.toLower)).toList (literals text) := by
    rw [String.toList_ofList]
    exact (literals_scan text).map_toLower
  rw [numbersIn, numbersIn, ← scan_text_iff.1 around, ← scan_text_iff.1 lowered]

theorem occursIn_lowered {p : Pattern} (hp : p.isPhrase) (hf : ∀ c ∈ front.toList, isBlank c)
    (hb : ∀ c ∈ back.toList, isBlank c) :
    p.occursIn (front ++ text ++ back) = p.occursIn (String.ofList (text.toList.map Char.toLower)) := by
  rw [Pattern.occursIn, Pattern.occursIn, String.toList_append, String.toList_append,
    Pattern.occursFrom_around hp hf hb, String.toList_ofList, Pattern.occursFrom_toLower]

theorem anyOccurs_lowered {rule : Rule} (hr : ∀ p ∈ rule, p.isPhrase) (hf : ∀ c ∈ front.toList, isBlank c)
    (hb : ∀ c ∈ back.toList, isBlank c) : anyOccurs rule (front ++ text ++ back) =
      anyOccurs rule (String.ofList (text.toList.map Char.toLower)) := by
  rw [anyOccurs, anyOccurs, Bool.eq_iff_iff, List.any_eq_true, List.any_eq_true]
  exact exists_congr fun p => and_congr_right fun hp => by rw [occursIn_lowered (hr p hp) hf hb]

theorem quickProblem?_lowered (hf : ∀ c ∈ front.toList, isBlank c) (hb : ∀ c ∈ back.toList, isBlank c)
    (numbers : List Value) : quickProblem? (front ++ text ++ back) numbers =
      quickProblem? (String.ofList (text.toList.map Char.toLower)) numbers := by
  have phrases : (ofPhrase "square").isPhrase ∧ (ofPhrase "cube").isPhrase ∧
      ∀ p ∈ anyWord ["multiply", "product"], p.isPhrase := by decide
  obtain ⟨square, cube, product⟩ := phrases
  have multiply : anyOccurs (anyWord ["multiply", "product"]) (front ++ text ++ back) =
      anyOccurs (anyWord ["multiply", "product"]) (String.ofList (text.toList.map Char.toLower)) :=
    anyOccurs_lowered product hf hb
  rw [quickProblem?, quickProblem?, occursIn_lowered square hf hb, occursIn_lowered cube hf hb, multiply]

/-- In the ASCII range each letter has its small letter, wherever it stands. -/
theorem smallLetters_ascii {s : List Char} {afterLetter : Bool} (h : ∀ c ∈ s, c.toNat < 128) :
    smallLetters afterLetter s = s.map smallOf := by
  induction s generalizing afterLetter with
  | nil => rfl
  | cons c s ih =>
    obtain ⟨low, rest⟩ := List.forall_mem_cons.1 h
    have dotted : c ≠ '\u0130' := by
      rintro rfl
      exact absurd low (by decide)
    have sigma : c ≠ 'Σ' := by
      rintro rfl
      exact absurd low (by decide)
    simp [smallLetters, dotted, sigma, ih rest]

theorem toLower_ascii {c : Char} (h : c.toNat < 128) : c.toLower.toNat < 128 := by
  by_cases letter : isAsciiLetter c
  · have := (toNat_of_isAsciiLetter (isAsciiLetter_toLower letter)).2
    omega
  · rwa [toLower_eq_self letter]

theorem normalized_lowered (ascii : ∀ c ∈ (front ++ text ++ back).toList, c.toNat < 128)
    (hf : ∀ c ∈ front.toList, isBlank c) (hb : ∀ c ∈ back.toList, isBlank c) :
    normalized (front ++ text ++ back) =
      normalized (String.ofList (text.toList.map Char.toLower)) := by
  have same : ∀ {t : List Char}, (∀ c ∈ t, isBlank c) → t.map smallOf = t := fun ht =>
    (List.map_congr_left fun c hc => smallOf_blank (ht c hc)).trans (List.map_id _)
  have lowered : ∀ c ∈ text.toList.map Char.toLower, c.toNat < 128 := by
    simp only [String.toList_append, List.mem_append] at ascii
    simpa using fun c hc => toLower_ascii (ascii c (.inl (.inr hc)))
  simp only [normalized, stripText, small, String.toList_ofList]
  rw [smallLetters_ascii ascii, smallLetters_ascii lowered, String.toList_append, String.toList_append,
    List.map_append, List.map_append, same hf, same hb, stripBlank_append hf hb, List.map_map]
  simp only [Function.comp_def, smallOf_toLower]

/-- A question is classified like its text in small letters, without the blanks around it. -/
theorem Classification.ofQuestion_lowered (ascii : ∀ c ∈ (front ++ text ++ back).toList, c.toNat < 128)
    (hf : ∀ c ∈ front.toList, isBlank c) (hb : ∀ c ∈ back.toList, isBlank c) :
    ofQuestion (front ++ text ++ back) = ofQuestion (String.ofList (text.toList.map Char.toLower)) := by
  unfold ofQuestion ofRanking
  rw [numbersIn_lowered hf hb, normalized_lowered ascii hf hb]
  simp only [quickProblem?_lowered hf hb]

end Lowered

/-- Two ways to write a question in the ASCII range, which differ in the case of letters and in the
blanks around them only, have one classification, or neither has any for the same reason. -/
theorem classification_ignores_case_and_blanks {question question' : String}
    (ascii : ∀ c ∈ question.toList ++ question'.toList, c.toNat < 128)
    (same : Restyled question question') :
    Classification.ofQuestion question = Classification.ofQuestion question' := by
  obtain ⟨low, low'⟩ := List.forall_mem_append.1 ascii
  cases same with
  | mk blanks blanks' letters =>
    obtain ⟨hf, hb⟩ := List.forall_mem_append.1 blanks
    obtain ⟨hf', hb'⟩ := List.forall_mem_append.1 blanks'
    rw [Classification.ofQuestion_lowered low hf hb, Classification.ofQuestion_lowered low' hf' hb',
      letters]

/-- A question to square a number, as a title with blanks around it and as a sentence. -/
theorem square_of_restyled :
    (∀ c ∈ " SQUARE OF 12?\n".toList ++ "Square of 12?".toList, c.toNat < 128) ∧
      Restyled " SQUARE OF 12?\n" "Square of 12?" ∧
      Classification.ofQuestion " SQUARE OF 12?\n" = Classification.ofQuestion "Square of 12?" := by
  have ascii : ∀ c ∈ " SQUARE OF 12?\n".toList ++ "Square of 12?".toList, c.toNat < 128 := by simp
  have same : Restyled (" " ++ "SQUARE OF 12?" ++ "\n") ("" ++ "Square of 12?" ++ "") :=
    .mk (by simp; decide) (by simp) (by simp)
  exact ⟨ascii, same, classification_ignores_case_and_blanks ascii same⟩

end Reckoner
