-- Where no number of a text goes on with letters, the tree of the text has exactly the names that
-- stand in the text: letters, with all letters and digits behind them.
import Mathlib
import Reckoner.Proofs.Reading.TextNames

namespace Reckoner

/-! ## The names of a text -/

/-- The names in a text: each letter that is not part of one begins one, and it takes all letters
and digits that follow. -/
def textNames : List Char → List String
  | [] => []
  | c :: rest =>
    if isAsciiLetter c then
      String.ofList (c :: rest.takeWhile isNameChar) :: textNames (rest.dropWhile isNameChar)
    else textNames rest
termination_by s => s.length
decreasing_by
  · exact Nat.lt_succ_of_le (List.dropWhile_suffix _).length_le
  · exact Nat.lt_succ_self _

theorem textNames_skip {s : List Char} (h : ∀ c ∈ s, ¬ isAsciiLetter c) (rest : List Char) :
    textNames (s ++ rest) = textNames rest := by
  induction s with
  | nil => rfl
  | cons c s ih =>
    obtain ⟨hc, hs⟩ := List.forall_mem_cons.1 h
    rw [List.cons_append, textNames, if_neg hc, ih hs]

theorem textNames_name {c : Char} {s rest : List Char} (hc : isAsciiLetter c)
    (hs : ∀ d ∈ s, isNameChar d) (hrest : ∀ d ∈ rest.head?, isNameChar d = false) :
    textNames (c :: s ++ rest) = String.ofList (c :: s) :: textNames rest := by
  have taken : (s ++ rest).takeWhile isNameChar = s := by
    rw [List.takeWhile_append_of_pos hs, takeWhile_of_head hrest, List.append_nil]
  have left : (s ++ rest).dropWhile isNameChar = rest := by
    have split := List.takeWhile_append_dropWhile (p := isNameChar) (l := s ++ rest)
    rw [taken] at split
    exact List.append_cancel_left split
  rw [List.cons_append, textNames, if_pos hc, taken, left]

/-- What ends no name does not matter at the end of a text. -/
theorem textNames_append (s : List Char) {rest : List Char} (h : ∀ c ∈ rest, ¬ isNameChar c) :
    textNames (s ++ rest) = textNames s := by
  induction s using textNames.induct with
  | case1 =>
    have skip := textNames_skip (s := rest)
      (fun c hc letter => h c hc (by simp [isNameChar, letter])) []
    simpa [textNames] using skip
  | case2 c s hc ih =>
    have split := List.takeWhile_append_dropWhile (p := isNameChar) (l := s)
    have ends : ∀ d ∈ (s.dropWhile isNameChar ++ rest).head?, isNameChar d = false := by
      intro d hd
      cases hdrop : s.dropWhile isNameChar with
      | nil =>
        rw [hdrop, List.nil_append] at hd
        simpa using h d (List.mem_of_mem_head? hd)
      | cons e tail =>
        rw [hdrop, List.cons_append] at hd
        exact head_dropWhile s d (by rw [hdrop]; exact hd)
    have whole : c :: s ++ rest =
        c :: s.takeWhile isNameChar ++ (s.dropWhile isNameChar ++ rest) := by
      rw [List.cons_append, List.cons_append, ← List.append_assoc, split]
    rw [whole, textNames_name hc (fun d => List.mem_takeWhile_imp) ends, ih, textNames, if_pos hc]
  | case3 c s hc ih => rw [List.cons_append, textNames, if_neg hc, ih, textNames, if_neg hc]

/-! ## The first reading -/

/-- The names among pieces. -/
def pieceNames (pieces : List Piece) : List String :=
  pieces.filterMap fun p => if p.form = .name then some p.text else none

theorem Cuts.names {s last : List Char} {pieces : List Piece} (h : Cuts s pieces last)
    (hlast : last = []) : textNames s = pieceNames pieces := by
  induction h with
  | stop s =>
    subst hlast
    rw [textNames]
    rfl
  | @piece p rest last more leads cuts ih =>
    by_cases name : p.form = .name
    · obtain ⟨c, s, hc, hs, text⟩ : PieceForm.name.Fits p.chars := name ▸ leads.fits
      have ends : ∀ d ∈ rest.head?, isNameChar d = false := by
        intro d hd
        obtain ⟨tail, rfl⟩ := List.head?_eq_some_iff.1 (Option.mem_def.1 hd)
        simpa using leads.no_letter name
      rw [text, textNames_name hc hs ends, ih hlast]
      simp [pieceNames, name, Piece.text, text]
    · have letters : ∀ c ∈ p.chars, ¬ isAsciiLetter c := fun c hc letter =>
        name (leads.fits.eq_name hc letter)
      rw [textNames_skip letters, ih hlast]
      simp [pieceNames, name]

/-- The names that the first reading finds. -/
theorem mem_names_iff {text : String} {bound names : List String} {pieces : List Piece}
    (passes : Passes text bound pieces) (h : names = sortNames (pieces.flatMap Piece.symbols))
    (s : String) :
    s ∈ names ↔ s ∈ textNames text.toList ∧ s ∉ functionNames ∧ s ∉ constantNames := by
  rw [h, mem_sortNames, mem_symbols, passes.cuts.names rfl, pieceNames]
  simp only [List.mem_filterMap, Piece.IsSymbol, Option.ite_none_right_eq_some, Option.some.injEq]
  constructor
  · rintro ⟨p, hp, ⟨name, function, constant⟩, rfl⟩
    exact ⟨⟨p, hp, name, rfl⟩, function, constant⟩
  · rintro ⟨⟨p, hp, name, rfl⟩, function, constant⟩
    exact ⟨p, hp, ⟨name, function, constant⟩, rfl⟩

/-- The names in a text that passes are allowed. -/
theorem Passes.allowed_names {text : String} {bound : List String} {pieces : List Piece}
    (h : Passes text bound pieces) {s : String} (hs : s ∈ textNames text.toList) :
    s ∈ functionNames ∨ s ∈ constantNames ∨ s ∈ bound ∨ s.length = 1 := by
  rw [h.cuts.names rfl, pieceNames] at hs
  obtain ⟨p, hp, hs⟩ := List.mem_filterMap.1 hs
  obtain ⟨name, hs⟩ := Option.ite_none_right_eq_some.1 hs
  obtain rfl := Option.some.inj hs
  simpa [Piece.text] using h.allowed p hp name

/-! ## Numbers that go on with letters -/

/-- What a number goes on with behind a digit or a point: the mark of an imaginary number, an
exponent, or behind a zero the digits of another base. -/
inductive GoesOn : Char → List Char → Prop where
  | imaginary {d c : Char} {rest : List Char} : isImaginaryMark c → GoesOn d (c :: rest)
  | exponent {d e c : Char} {rest : List Char} :
    e = 'e' ∨ e = 'E' → isAsciiDigit c → GoesOn d (e :: c :: rest)
  | signedExponent {d e sign c : Char} {rest : List Char} :
    e = 'e' ∨ e = 'E' → sign = '+' ∨ sign = '-' → isAsciiDigit c →
      GoesOn d (e :: sign :: c :: rest)
  | hexadecimal {mark c : Char} {rest : List Char} :
    mark = 'x' ∨ mark = 'X' → isHexDigit c → GoesOn '0' (mark :: c :: rest)
  | binary {mark c : Char} {rest : List Char} :
    mark = 'b' ∨ mark = 'B' → c = '0' ∨ c = '1' → GoesOn '0' (mark :: c :: rest)
  | octal {mark c : Char} {rest : List Char} :
    mark = 'o' ∨ mark = 'O' → '0' ≤ c ∧ c ≤ '7' → GoesOn '0' (mark :: c :: rest)

/-- A text ends inside of a name. -/
def EndsInName (s : List Char) : Prop :=
  ∃ front c more, s = front ++ c :: more ∧ isAsciiLetter c ∧ ∀ d ∈ more, isNameChar d

/-- No number in the text goes on with letters: what looks like it is a digit inside of a name. -/
def NumbersEnd (s : List Char) : Prop :=
  ∀ before d rest, s = before ++ d :: rest → (isAsciiDigit d ∨ d = '.') → GoesOn d rest →
    isAsciiDigit d ∧ EndsInName before

theorem GoesOn.append {d : Char} {rest : List Char} (h : GoesOn d rest) (more : List Char) :
    GoesOn d (rest ++ more) := by
  cases h with
  | imaginary hc => exact .imaginary hc
  | exponent he hc => exact .exponent he hc
  | signedExponent he hs hc => exact .signedExponent he hs hc
  | hexadecimal hm hc => exact .hexadecimal hm hc
  | binary hm hc => exact .binary hm hc
  | octal hm hc => exact .octal hm hc

theorem not_endsInName {s : List Char} (h : ∀ c ∈ s, ¬ isAsciiLetter c) : ¬ EndsInName s := by
  rintro ⟨front, c, more, rfl, hc, -⟩
  exact h c (by simp) hc

theorem NumbersEnd.front {s rest : List Char} (h : NumbersEnd (s ++ rest)) : NumbersEnd s := by
  rintro before d tail rfl hd on
  exact h before d (tail ++ rest) (by simp) hd (on.append rest)

/-- The letters that a number may go on with. -/
def numberMarks : List Char := ['j', 'J', 'e', 'E', 'x', 'X', 'b', 'B', 'o', 'O']

theorem GoesOn.mark {d : Char} {rest : List Char} (h : GoesOn d rest) :
    ∃ c ∈ rest, c ∈ numberMarks := by
  have mark : ∀ {c more}, c ∈ numberMarks → ∃ m ∈ c :: more, m ∈ numberMarks :=
    fun hc => ⟨_, List.mem_cons_self, hc⟩
  cases h with
  | imaginary hc =>
    rcases (by simpa [isImaginaryMark] using hc : _ = 'j' ∨ _ = 'J') with rfl | rfl <;>
      exact mark (by decide)
  | exponent he | signedExponent he | hexadecimal he | binary he | octal he =>
    rcases he with rfl | rfl <;> exact mark (by decide)

theorem numbersEnd_of_no_mark {s : List Char} (h : ∀ c ∈ s, c ∉ numberMarks) : NumbersEnd s := by
  rintro before d rest rfl - on
  obtain ⟨c, hc, mark⟩ := on.mark
  exact absurd mark (h c (by simp [hc]))

/-- What is cut off before the rest of a text is not part of a name that goes on in the rest. -/
theorem NumbersEnd.rest {s rest : List Char} (h : NumbersEnd (s ++ rest))
    (apart : EndsInName s → ∀ d ∈ rest.head?, isNameChar d = false) : NumbersEnd rest := by
  rintro before d tail rfl hd on
  obtain ⟨digit, front, c, more, split, hc, hmore⟩ :=
    h (s ++ before) d tail (by simp) hd on
  refine ⟨digit, ?_⟩
  rcases List.append_eq_append_iff.1 split with ⟨u, rfl, hu⟩ | ⟨u, rfl, hu⟩
  · exact ⟨u, c, more, hu, hc, hmore⟩
  · cases u with
    | nil => exact ⟨[], c, more, hu.symm, hc, hmore⟩
    | cons e u =>
      obtain ⟨rfl, rfl⟩ := List.cons.inj hu
      have inside : EndsInName (front ++ c :: u) :=
        ⟨front, c, u, rfl, hc, fun d hd => hmore d (List.mem_append_left _ hd)⟩
      cases before with
      | nil =>
        have := apart inside d rfl
        simp [isNameChar, digit] at this
      | cons e before =>
        have := apart inside e rfl
        simp [hmore e (by simp)] at this

theorem NumbersEnd.rest_of_no_letter {s rest : List Char} (h : NumbersEnd (s ++ rest))
    (letters : ∀ c ∈ s, ¬ isAsciiLetter c) : NumbersEnd rest :=
  h.rest fun inside => absurd inside (not_endsInName letters)

/-! ## Numbers of the second reading -/

/-- The characters of a number that does not go on with letters. -/
def IsPlainDigit (c : Char) : Prop := isAsciiDigit c ∨ c = '.'

theorem IsPlainDigit.not_letter {c : Char} (h : IsPlainDigit c) : ¬ isAsciiLetter c := by
  intro letter
  rcases h with h | rfl
  · exact not_isAsciiDigit_of_isAsciiLetter letter h
  · exact absurd letter (by decide)

/-- Behind a number no letters go on with it. -/
theorem NumbersEnd.stops {front rest : List Char} {d : Char} (h : NumbersEnd (front ++ d :: rest))
    (plain : ∀ c ∈ front, IsPlainDigit c) (hd : IsPlainDigit d) : ¬ GoesOn d rest := fun on =>
  not_endsInName (fun c hc => (plain c hc).not_letter) (h front d rest rfl hd on).2

theorem NumbersEnd.exists_stop {number rest : List Char} (h : NumbersEnd (number ++ rest))
    (plain : ∀ c ∈ number, IsPlainDigit c) (hne : number ≠ []) : ∃ d, ¬ GoesOn d rest := by
  obtain ⟨front, d, rfl⟩ := (List.eq_nil_or_concat' number).resolve_left hne
  rw [List.append_assoc] at h
  exact ⟨d, h.stops (fun c hc => plain c (List.mem_append_left _ hc)) (plain d (by simp))⟩

theorem exists_digit {s : List Char} (h : (spanDigits s).1 ≠ []) :
    ∃ c rest, s = c :: rest ∧ isAsciiDigit c := by
  cases s with
  | nil => exact absurd rfl h
  | cons c rest =>
    refine ⟨c, rest, rfl, ?_⟩
    by_contra hc
    exact h (List.takeWhile_cons_of_neg hc)

theorem plain_digits (s : List Char) : ∀ c ∈ (spanDigits s).1, IsPlainDigit c :=
  fun _ hc => Or.inl (List.mem_takeWhile_imp hc)

theorem spanExponent_of_not_goesOn {d : Char} {s : List Char} (h : ¬ GoesOn d s) :
    (spanExponent s).1 = [] := by
  cases s with
  | nil => rfl
  | cons e rest =>
    by_cases he : e = 'e' ∨ e = 'E'
    · -- after a sign or at once there is no digit
      have noDigits : ∀ more, (more = rest ∨ ∃ sign, (sign = '+' ∨ sign = '-') ∧
          rest = sign :: more) → (spanDigits more).1 = [] := by
        intro more hmore
        by_contra hne
        obtain ⟨c, tail, rfl, hc⟩ := exists_digit hne
        rcases hmore with rfl | ⟨sign, hsign, rfl⟩
        · exact h (.exponent he hc)
        · exact h (.signedExponent he hsign hc)
      unfold spanExponent
      dsimp only
      split_ifs with _ found
      · rfl
      · refine absurd ?_ found
        split
        · simp [noDigits _ (Or.inr ⟨'+', Or.inl rfl, rfl⟩)]
        · simp [noDigits _ (Or.inr ⟨'-', Or.inr rfl, rfl⟩)]
        · simp [noDigits _ (Or.inl rfl)]
      · rfl
    · simp [spanExponent, he]

/-- A number of the second reading, by itself. -/
def IsPlain (pair : List Char × List Char) : Prop := ∀ c ∈ pair.1, IsPlainDigit c

section Plain

variable {s : List Char}

theorem NumbersEnd.decimal (h : NumbersEnd s) : Finds IsPlain (spanDecimal? s) := by
  have whole := spanDigits_append s
  intro pair hpair
  unfold spanDecimal? at hpair
  dsimp only at hpair
  split at hpair
  · rename_i more hrest
    split_ifs at hpair
    · cases hpair
    · obtain rfl := Option.some.inj hpair
      have plain : ∀ c ∈ (spanDigits s).1 ++ '.' :: (spanDigits more).1, IsPlainDigit c := by
        simp only [List.mem_append, List.mem_cons]
        rintro c (hc | rfl | hc)
        · exact plain_digits s c hc
        · exact Or.inr rfl
        · exact plain_digits more c hc
      have split : s = (spanDigits s).1 ++ '.' :: (spanDigits more).1 ++ (spanDigits more).2 := by
        rw [List.append_assoc, List.cons_append, spanDigits_append, ← hrest, whole]
      rw [split] at h
      obtain ⟨d, hd⟩ := h.exists_stop plain (by simp)
      simpa [IsPlain, spanExponent_of_not_goesOn hd] using plain
  · split_ifs at hpair with none
    · cases hpair
    · simp only [Bool.or_eq_true, List.isEmpty_iff, not_or] at none
      rw [← whole] at h
      obtain ⟨d, hd⟩ := h.exists_stop (plain_digits s) none.1
      exact absurd (spanExponent_of_not_goesOn hd) none.2

theorem spanDecimal?_ne_nil {number rest : List Char} (h : spanDecimal? s = some (number, rest)) :
    number ≠ [] := by
  unfold spanDecimal? at h
  dsimp only at h
  split at h
  · split_ifs at h
    obtain ⟨rfl, -⟩ := Prod.mk.inj (Option.some.inj h)
    simp
  · split_ifs at h with none
    obtain ⟨rfl, -⟩ := Prod.mk.inj (Option.some.inj h)
    simp only [Bool.or_eq_true, List.isEmpty_iff, not_or] at none
    simp [none.1]

/-- No number in another base begins where numbers end. -/
theorem NumbersEnd.based (h : NumbersEnd s) : spanBased? s = none := by
  unfold spanBased?
  split
  · rename_i mark rest
    have stop : ¬ GoesOn '0' (mark :: rest) := @NumbersEnd.stops [] _ _ h (by simp)
      (Or.inl (by decide))
    have none : ∀ {ok : Char → Bool}, (∀ c tail, rest = c :: tail → ok c = true →
        GoesOn '0' (mark :: rest)) → (rest.takeWhile ok).isEmpty := by
      intro ok hok
      rw [takeWhile_of_head (s := rest) (p := ok)]
      · rfl
      · intro c hc
        obtain ⟨tail, rfl⟩ := List.head?_eq_some_iff.1 (Option.mem_def.1 hc)
        by_contra hyes
        exact stop (hok c tail rfl (by simpa using hyes))
    dsimp only
    split_ifs with hx found hb found ho found
    · rfl
    · refine absurd (none fun c tail hrest hc => ?_) found
      rw [hrest]
      exact .hexadecimal (by simpa using hx) hc
    · rfl
    · refine absurd (none fun c tail hrest hc => ?_) found
      rw [hrest]
      exact .binary (by simpa using hb) (by simpa using hc)
    · rfl
    · refine absurd (none fun c tail hrest hc => ?_) found
      rw [hrest]
      exact .octal (by simpa using ho) (by simpa using hc)
    · rfl
  · rfl

/-- Where numbers end, the second reading finds only digits and points in one. -/
theorem NumbersEnd.plain (h : NumbersEnd s) : IsPlain (spanNumber s) := by
  have decimal := h.decimal
  -- a mark behind a number would go on with it
  have unmarked : ∀ {number c rest}, number ++ c :: rest = s → number ≠ [] →
      (∀ d ∈ number, IsPlainDigit d) → isImaginaryMark c → IsPlain (number ++ [c], rest) := by
    intro number c rest split hne plain hc
    obtain ⟨d, hd⟩ := NumbersEnd.exists_stop (split ▸ h) plain hne
    exact absurd (.imaginary hc) hd
  have whole : Finds (fun pair => pair.1 ≠ [] ∧ pair.1 ++ pair.2 = s ∧ IsPlain pair)
      (if (spanDigits s).1.isEmpty then none else some (spanDigits s)) :=
    finds_whole fun hne => ⟨hne, spanDigits_append s, plain_digits s⟩
  have wholeMarked := Finds.marked (P := IsPlain) fun number c rest found hc =>
    unmarked (whole _ found).2.1 (whole _ found).1 (whole _ found).2.2 hc
  have decimalMarked := Finds.marked (P := IsPlain) fun number c rest found hc =>
    unmarked (spanDecimal?_append found) (spanDecimal?_ne_nil found) (decimal _ found) hc
  have based : Finds IsPlain (spanBased? s) := by
    rw [h.based]
    intro _ h
    cases h
  refine (wholeMarked.orElse (decimalMarked.orElse (decimal.orElse based))).getD ?_
  unfold spanWhole
  split
  · intro c hc
    obtain rfl : c = '0' := by simpa using List.mem_takeWhile_imp hc
    exact Or.inl (by decide)
  · exact plain_digits s

end Plain

/-! ## The second reading -/

theorem numberTokens_plain {number : List Char} (h : ∀ c ∈ number, IsPlainDigit c) :
    withoutKinds (namesAmong (numberTokens number)) = [] := by
  have unmarked : number.getLast?.any isImaginaryMark = false := by
    cases hlast : number.getLast? with
    | none => rfl
    | some c =>
      rw [Option.any_some, ← Bool.not_eq_true]
      intro hc
      rcases h c (List.mem_of_getLast? hlast) with digit | rfl
      · refine not_isAsciiDigit_of_isAsciiLetter ?_ digit
        rcases (by simpa [isImaginaryMark] using hc : c = 'j' ∨ c = 'J') with rfl | rfl <;> decide
      · exact absurd hc (by decide)
  unfold numberTokens
  simp only [unmarked, Bool.false_eq_true, ↓reduceIte]
  split_ifs <;> rfl

/-- The names of the second reading are those of the text. -/
theorem CutInto.plainNames {s : List Char} {tokens : List Token} (h : CutInto s tokens)
    (ends : NumbersEnd s) :
    withoutKinds (namesAmong tokens) = withoutKinds (textNames s) := by
  induction h with
  | finish =>
    rw [textNames]
    rfl
  | @blank c s l hc _ ih =>
    have letter := not_isAsciiLetter_of_blank hc
    rw [textNames, if_neg letter]
    exact ih (ends.rest_of_no_letter (s := [c]) (by simpa using letter))
  | @newline c s l hc _ ih =>
    have letter := not_isAsciiLetter_of_newline hc
    rw [textNames, if_neg letter]
    exact ih (ends.rest_of_no_letter (s := [c]) (by simpa using letter))
  | sign o _ ih =>
    rw [namesAmong_op, ih (ends.rest_of_no_letter o.chars_not_letter),
      textNames_skip o.chars_not_letter]
  | @number c s l _ _ _ ih =>
    have whole := spanNumber_append (c :: s)
    have plain := ends.plain
    have letters : ∀ d ∈ (spanNumber (c :: s)).1, ¬ isAsciiLetter d :=
      fun d hd => (plain d hd).not_letter
    rw [← whole] at ends
    rw [namesAmong_append, withoutKinds_append, numberTokens_plain plain, List.nil_append,
      ih (ends.rest_of_no_letter letters), ← textNames_skip letters, whole]
  | @name c s l letter _ ih =>
    have whole : c :: s.takeWhile isNameChar ++ s.dropWhile isNameChar = c :: s := by simp
    have after := head_dropWhile (p := isNameChar) s
    rw [← whole] at ends
    rw [← whole, textNames_name letter (fun d => List.mem_takeWhile_imp) after,
      namesAmong_name, withoutKinds_cons, ih (ends.rest fun _ => after), ← withoutKinds_cons]

theorem toNat_of_isAsciiDigit {c : Char} (h : isAsciiDigit c) : 48 ≤ c.toNat ∧ c.toNat ≤ 57 := by
  simp only [isAsciiDigit, Bool.and_eq_true, decide_eq_true_eq, Char.le_def,
    UInt32.le_iff_toNat_le] at h
  exact h

theorem isNameChar_of_isAsciiDigit {c : Char} (h : isAsciiDigit c) : isNameChar c := by
  simp [isNameChar, h]

theorem not_isNameChar_of_isBlank {c : Char} (h : isBlank c) : ¬ isNameChar c := by
  intro hc
  rcases Bool.or_eq_true_iff.1 hc with letter | digit
  · exact not_isBlank_of_isAsciiLetter letter h
  · have bounds := toNat_of_isAsciiDigit digit
    simp [isBlank, inRanges, blankRanges] at h
    omega

theorem tokensOf_textNames {text : String} {tokens : List Token} (h : tokensOf text = some tokens)
    (ends : NumbersEnd text.toList) :
    withoutKinds (namesAmong tokens) = withoutKinds (textNames text.toList) := by
  obtain ⟨front, back, split, hfront, hback⟩ := stripBlank_split text.toList
  have letters : ∀ c ∈ front, ¬ isAsciiLetter c := fun c hc letter =>
    not_isBlank_of_isAsciiLetter letter (hfront c hc)
  rw [split] at ends ⊢
  rw [textNames_skip letters,
    textNames_append _ fun c hc => not_isNameChar_of_isBlank (hback c hc)]
  exact (cutInto_of_tokensFrom h).plainNames (ends.rest_of_no_letter letters).front

/-- Without splitting words no name is split. -/
theorem splitNames_of_no_word {symbols : List String} {l before : List Token}
    (h : ∀ s ∈ namesAmong l, s ∉ splittingWords) :
    splitNames symbols l before ⟨false, false⟩ = some (before.reverse ++ l) := by
  induction l generalizing before with
  | nil => rw [splitNames, List.append_nil]
  | cons t rest ih =>
    rw [namesAmong_cons] at h
    obtain ⟨first, later⟩ := List.forall_mem_append.1 h
    have next := @ih (t :: before) later
    rw [List.reverse_cons, List.append_assoc] at next
    unfold splitNames
    cases t with
    | name s =>
      have hs : s ∉ splittingWords := first s (by simp)
      simpa [hs] using next
    | _ => exact next

/-- The tree of a text has the names of the text, each as often as it stands there. -/
theorem parseTree_textNames {symbols : List String} {text : String} {t : Tree}
    (h : parseTree symbols text = some t) (ends : NumbersEnd text.toList)
    (words : ∀ s ∈ textNames text.toList, s ∉ splittingWords) :
    (withoutKinds t.mentions).Perm (withoutKinds (textNames text.toList)) := by
  obtain ⟨tokens, letters, htokens, hletters, perm⟩ := parseTree_mentions h
  have names := tokensOf_textNames htokens ends
  have whole : splitNames symbols tokens [] ⟨false, false⟩ = some tokens := by
    refine splitNames_of_no_word fun s hs word => ?_
    -- a splitting word is not the kind of a number, so it stands in the text
    have kept : s ∈ withoutKinds (namesAmong tokens) := by
      refine List.mem_filter.2 ⟨hs, ?_⟩
      rcases (by simpa [splittingWords] using word : s = "Symbol" ∨ s = "Function") with rfl | rfl
      all_goals decide
    rw [names] at kept
    exact words s (List.mem_of_mem_filter kept) word
  obtain rfl := Option.some.inj (whole.symm.trans hletters)
  rwa [names] at perm

end Reckoner
