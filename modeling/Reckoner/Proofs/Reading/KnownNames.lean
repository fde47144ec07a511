-- Where every name of a text is known or a single letter, the second reading cuts no name in two: a
-- number may go on with a letter by itself, but the names that follow it stay as they are.
import Mathlib
import Reckoner.Proofs.Reading.PlainNumbers

namespace Reckoner

/-! ## Known names -/

/-- The names that pass where nothing is bound. -/
def IsKnown (name : String) : Prop :=
  name ∈ functionNames ∨ name ∈ constantNames ∨ name.length = 1

instance (name : String) : Decidable (IsKnown name) := inferInstanceAs (Decidable (_ ∨ _ ∨ _))

/-- All names in a text are known or single letters. -/
def KnownNames (s : List Char) : Prop := ∀ name ∈ textNames s, IsKnown name

theorem Passes.knownNames {text : String} {pieces : List Piece} (h : Passes text [] pieces) :
    KnownNames text.toList := by
  intro name hname
  rcases h.allowed_names hname with function | constant | none | single
  · exact .inl function
  · exact .inr (.inl constant)
  · cases none
  · exact .inr (.inr single)

theorem KnownNames.mono {s t : List Char} (h : KnownNames s) (ht : textNames t ⊆ textNames s) :
    KnownNames t := fun name hname => h name (ht hname)

theorem KnownNames.of_eq {s t : List Char} (h : KnownNames s) (ht : textNames t = textNames s) :
    KnownNames t := by rwa [KnownNames, ht]

theorem truthOf?_of_known {name : String} (h : IsKnown name) : truthOf? name = none := by
  by_contra truth
  rcases eq_of_truthOf? (Option.isSome_iff_ne_none.2 truth) with rfl | rfl
  · exact absurd h (by decide)
  · exact absurd h (by decide)

/-- The names in a text begin with a letter. -/
theorem exists_letter_of_mem {s : List Char} {name : String} (h : name ∈ textNames s) :
    ∃ c rest, isAsciiLetter c ∧ name = String.ofList (c :: rest) := by
  induction s using textNames.induct with
  | case1 => simp [textNames] at h
  | case2 c rest letter ih =>
    rw [textNames, if_pos letter] at h
    rcases List.mem_cons.1 h with rfl | h
    · exact ⟨c, _, letter, rfl⟩
    · exact ih h
  | case3 c rest letter ih =>
    rw [textNames, if_neg letter] at h
    exact ih h

/-- A name of several letters is one of the known ones. -/
theorem IsKnown.begins {c d : Char} {rest : List Char} (h : IsKnown (String.ofList (c :: d :: rest))) :
    ∃ name ∈ functionNames ++ constantNames, name.toList.take 2 = [c, d] := by
  refine ⟨String.ofList (c :: d :: rest), ?_, by simp⟩
  rcases h with function | constant | single
  · exact List.mem_append_left _ function
  · exact List.mem_append_right _ constant
  · simp at single

/-! ## Behind a number -/

/-- The names behind what is cut off a text are names of the text. -/
def LeavesNames (s : List Char) (pair : List Char × List Char) : Prop :=
  textNames pair.2 ⊆ textNames s

theorem textNames_subset {s t : List Char} (h : textNames t = textNames s) :
    textNames t ⊆ textNames s := by
  rw [h]
  exact List.Subset.refl _

theorem isNameChar_of_isHexDigit {c : Char} (h : isHexDigit c) : isNameChar c := by
  simp only [isHexDigit, Bool.or_eq_true, Bool.and_eq_true, decide_eq_true_eq] at h
  simp only [isNameChar, isAsciiLetter, Bool.or_eq_true, Bool.and_eq_true, decide_eq_true_eq]
  rcases h with (digit | small) | large
  · exact .inr digit
  · exact .inl (.inl ⟨small.1, small.2.trans (by decide)⟩)
  · exact .inl (.inr ⟨large.1, large.2.trans (by decide)⟩)

theorem not_letter_spanDigits (s : List Char) : ∀ c ∈ (spanDigits s).1, ¬ isAsciiLetter c :=
  fun c hc => (plain_digits s c hc).not_letter

theorem textNames_spanDigits (s : List Char) : textNames (spanDigits s).2 = textNames s := by
  conv_rhs => rw [← spanDigits_append s]
  rw [textNames_skip (not_letter_spanDigits s)]

section Behind

variable {s rest : List Char} {c : Char}

/-- No known name of several letters begins with the letter. -/
def IsLone (c : Char) : Prop :=
  isAsciiLetter c ∧ ∀ name ∈ functionNames ++ constantNames, name.toList.head? ≠ some c

instance (c : Char) : Decidable (IsLone c) := inferInstanceAs (Decidable (_ ∧ _))

theorem KnownNames.first (h : KnownNames (c :: rest)) (letter : isAsciiLetter c) :
    IsKnown (String.ofList (c :: rest.takeWhile isNameChar)) := by
  refine h _ ?_
  rw [textNames, if_pos letter]
  exact List.mem_cons_self

theorem KnownNames.alone (h : KnownNames (c :: rest)) (lone : IsLone c) :
    ∀ d ∈ rest.head?, isNameChar d = false := by
  intro d hd
  obtain ⟨tail, rfl⟩ := List.head?_eq_some_iff.1 (Option.mem_def.1 hd)
  by_contra hname
  have first := h.first lone.1
  rw [List.takeWhile_cons_of_pos (by simpa using hname)] at first
  obtain ⟨name, known, begins⟩ := first.begins
  have head := congrArg List.head? begins
  exact lone.2 name known (by simpa [List.head?_take] using head)

/-- The names behind a letter by itself. -/
theorem textNames_letter (letter : isAsciiLetter c) (alone : ∀ d ∈ rest.head?, isNameChar d = false) :
    textNames (c :: rest) = String.ofList [c] :: textNames rest :=
  textNames_name (s := []) letter (by simp) alone

theorem KnownNames.mark (h : KnownNames (c :: rest)) (mark : isImaginaryMark c) :
    textNames rest ⊆ textNames (c :: rest) := by
  have lone : IsLone c := by
    rcases (by simpa [isImaginaryMark] using mark : c = 'j' ∨ c = 'J') with rfl | rfl <;> decide
  rw [textNames_letter lone.1 (h.alone lone)]
  exact List.subset_cons_self _ _

/-- No known name has a digit behind its first letter. -/
theorem KnownNames.no_digit {d : Char} (h : KnownNames (c :: d :: rest)) (letter : isAsciiLetter c) :
    ¬ isAsciiDigit d := by
  intro digit
  have first := h.first letter
  rw [List.takeWhile_cons_of_pos (isNameChar_of_isAsciiDigit digit)] at first
  obtain ⟨name, known, begins⟩ := first.begins
  have table : (functionNames ++ constantNames).all
      (fun name => (name.toList.take 2).all fun d => !isAsciiDigit d) = true := rfl
  have letters := List.all_eq_true.1 table name known
  simp [begins, digit] at letters

theorem KnownNames.exponent (h : KnownNames s) : LeavesNames s (spanExponent s) := by
  -- an exponent with a sign is a letter by itself, and digits behind the sign
  have signed : ∀ {e sign : Char} {more : List Char}, s = e :: sign :: more → isAsciiLetter e →
      sign = '+' ∨ sign = '-' → textNames (spanDigits more).2 ⊆ textNames s := by
    rintro e sign more rfl letter hsign
    have plain : isNameChar sign = false ∧ ¬ isAsciiLetter sign := by
      rcases hsign with rfl | rfl <;> decide
    have skip := textNames_skip (List.forall_mem_singleton.2 plain.2) more
    rw [List.singleton_append] at skip
    rw [textNames_letter letter (by simpa using plain.1), skip, textNames_spanDigits]
    exact List.subset_cons_self _ _
  unfold LeavesNames spanExponent
  split
  · rename_i e rest
    dsimp only
    split_ifs with mark none
    · exact List.Subset.refl _
    · have letter : isAsciiLetter e := by
        rcases (by simpa using mark : e = 'e' ∨ e = 'E') with rfl | rfl <;> decide
      split
      · exact signed rfl letter (.inl rfl)
      · exact signed rfl letter (.inr rfl)
      · rename_i plus minus
        obtain ⟨d, more, rfl, digit⟩ := exists_digit (s := rest) (by simp_all)
        exact absurd digit (h.no_digit letter)
    · exact List.Subset.refl _
  · exact List.Subset.refl _

theorem KnownNames.decimal (h : KnownNames s) : Finds (LeavesNames s) (spanDecimal? s) := by
  have whole := textNames_spanDigits s
  intro pair hpair
  unfold spanDecimal? at hpair
  dsimp only at hpair
  split at hpair
  · rename_i more hrest
    split_ifs at hpair
    · cases hpair
    · obtain rfl := Option.some.inj hpair
      have point := textNames_skip (s := ['.']) (List.forall_mem_singleton.2 (by decide)) more
      rw [List.singleton_append, ← hrest, whole] at point
      have behind : textNames (spanDigits more).2 = textNames s := by
        rw [textNames_spanDigits, point]
      have exponent := (h.of_eq behind).exponent
      rwa [LeavesNames, behind] at exponent
  · split_ifs at hpair
    · cases hpair
    · obtain rfl := Option.some.inj hpair
      have exponent := (h.of_eq whole).exponent
      rwa [LeavesNames, whole] at exponent

/-- No number in another base stands in a text whose names are known. -/
theorem KnownNames.based (h : KnownNames s) : spanBased? s = none := by
  unfold spanBased?
  split
  · rename_i mark rest
    have known : KnownNames (mark :: rest) := by
      exact h.of_eq
        (textNames_skip (s := ['0']) (List.forall_mem_singleton.2 (by decide)) (mark :: rest)).symm
    -- the letter for the base stands by itself, so there are no digits behind it
    have none : ∀ {ok : Char → Bool}, IsLone mark → (∀ d, ok d = true → isNameChar d = true) →
        (rest.takeWhile ok).isEmpty := by
      intro ok lone names
      rw [takeWhile_of_head fun d hd => ?_]
      · rfl
      · by_contra hok
        have := known.alone lone d hd
        rw [names d (by simpa using hok)] at this
        cases this
    dsimp only
    split_ifs with hx found hb found ho found
    · rfl
    · refine absurd (none ?_ fun d hd => isNameChar_of_isHexDigit hd) found
      rcases (by simpa using hx : mark = 'x' ∨ mark = 'X') with rfl | rfl <;> decide
    · rfl
    · refine absurd (none ?_ fun d hd => ?_) found
      · rcases (by simpa using hb : mark = 'b' ∨ mark = 'B') with rfl | rfl <;> decide
      · rcases (by simpa using hd : d = '0' ∨ d = '1') with rfl | rfl <;> decide
    · rfl
    · refine absurd (none ?_ fun d hd => ?_) found
      · rcases (by simpa using ho : mark = 'o' ∨ mark = 'O') with rfl | rfl <;> decide
      · have digit : '0' ≤ d ∧ d ≤ '7' := by simpa using hd
        exact isNameChar_of_isAsciiDigit (by simpa [isAsciiDigit] using
          ⟨digit.1, digit.2.trans (by decide)⟩)
    · rfl
  · rfl

theorem KnownNames.number (h : KnownNames s) : LeavesNames s (spanNumber s) := by
  have moved : ∀ {number c rest}, LeavesNames s (number, c :: rest) → isImaginaryMark c →
      LeavesNames s (number ++ [c], rest) := by
    intro number c rest leaves hc
    exact List.Subset.trans ((h.mono leaves).mark hc) leaves
  have whole : Finds (LeavesNames s)
      (if (spanDigits s).1.isEmpty then none else some (spanDigits s)) :=
    finds_whole fun _ => textNames_subset (textNames_spanDigits s)
  have wholeMarked := Finds.marked fun number c rest found hc => moved (whole _ found) hc
  have decimalMarked := Finds.marked fun number c rest found hc => moved (h.decimal _ found) hc
  have based : Finds (LeavesNames s) (spanBased? s) := by
    rw [h.based]
    intro _ no
    cases no
  refine (wholeMarked.orElse (decimalMarked.orElse (h.decimal.orElse based))).getD ?_
  unfold spanWhole
  split
  · rename_i rest
    have zeros : ∀ c ∈ ('0' :: rest).takeWhile (· == '0'), ¬ isAsciiLetter c := by
      intro c hc
      obtain rfl : c = '0' := by simpa using List.mem_takeWhile_imp hc
      decide
    have skip := textNames_skip zeros (('0' :: rest).dropWhile (· == '0'))
    rw [List.takeWhile_append_dropWhile] at skip
    exact textNames_subset skip.symm
  · exact textNames_subset (textNames_spanDigits s)

end Behind

/-! ## The names of tokens -/

/-- The names that stand for numbers. -/
def numberNames : List String := ["Integer", "Float", "I"]

theorem numberTokens_numberNames (number : List Char) :
    ∀ name ∈ namesAmong (numberTokens number), name ∈ numberNames := by
  intro name hname
  unfold numberTokens at hname
  dsimp only at hname
  split_ifs at hname <;> simp at hname <;> rcases hname with rfl | rfl <;> simp [numberNames]

/-- Where the names of a text are known, the name of a token stands for a number or is one of them. -/
theorem CutInto.known {s : List Char} {tokens : List Token} (h : CutInto s tokens)
    (known : KnownNames s) :
    ∀ name ∈ namesAmong tokens, name ∈ numberNames ∨ name ∈ textNames s := by
  induction h with
  | finish => simp
  | @blank c s l hc _ ih =>
    have same : textNames (c :: s) = textNames s := by
      rw [textNames, if_neg (not_isAsciiLetter_of_blank hc)]
    rw [same]
    exact ih (known.of_eq same.symm)
  | @newline c s l hc _ ih =>
    have same : textNames (c :: s) = textNames s := by
      rw [textNames, if_neg (not_isAsciiLetter_of_newline hc)]
    rw [same]
    exact ih (known.of_eq same.symm)
  | @sign o s l _ ih =>
    have same := textNames_skip o.chars_not_letter s
    rw [same]
    exact ih (known.of_eq same.symm)
  | number _ _ _ ih =>
    rw [namesAmong_append]
    exact List.forall_mem_append.2 ⟨fun name hname => .inl (numberTokens_numberNames _ name hname),
      fun name hname => (ih (known.mono known.number) name hname).imp_right
        fun stands => known.number stands⟩
  | @name c s l letter _ ih =>
    have names : textNames (c :: s) = String.ofList (c :: s.takeWhile isNameChar) ::
        textNames (s.dropWhile isNameChar) := by rw [textNames, if_pos letter]
    have later : textNames (s.dropWhile isNameChar) ⊆ textNames (c :: s) :=
      names ▸ List.subset_cons_self _ _
    rw [namesAmong_name]
    refine List.forall_mem_cons.2 ⟨.inr (names ▸ List.mem_cons_self), fun name hname => ?_⟩
    exact (ih (known.mono later) name hname).imp_right fun stands => later stands

theorem tokensOf_known {text : String} {tokens : List Token} (h : tokensOf text = some tokens)
    (known : KnownNames text.toList) :
    ∀ name ∈ namesAmong tokens, name ∈ numberNames ∨ name ∈ textNames text.toList := by
  obtain ⟨front, back, split, hfront, hback⟩ := stripBlank_split text.toList
  have inside : textNames (stripBlank text.toList) = textNames text.toList := by
    conv_rhs => rw [split]
    rw [textNames_skip fun c hc letter => not_isBlank_of_isAsciiLetter letter (hfront c hc),
      textNames_append _ fun c hc => not_isNameChar_of_isBlank (hback c hc)]
  intro name hname
  have := (cutInto_of_tokensFrom h).known (known.of_eq inside) name hname
  rwa [inside] at this

/-! ## The end of the tokens -/

/-- Tokens of one line: no end of a line or of the text is among them. -/
def OnOneLine (l : List Token) : Prop := .newline ∉ l ∧ .finish ∉ l

theorem OnOneLine.append {l m : List Token} (hl : OnOneLine l) (hm : OnOneLine m) :
    OnOneLine (l ++ m) :=
  ⟨by simp [hl.1, hm.1], by simp [hl.2, hm.2]⟩

theorem onOneLine_numberTokens (number : List Char) : OnOneLine (numberTokens number) := by
  unfold numberTokens
  dsimp only
  split_ifs <;> simp [OnOneLine]

/-- A text of one line has the tokens of one line, and then the end of the text. -/
theorem CutInto.oneLine {s : List Char} {tokens : List Token} (h : CutInto s tokens)
    (line : ∀ c ∈ s, c ≠ '\n' ∧ c ≠ '\x0d') :
    ∃ body, tokens = body ++ [.finish, .finish] ∧ OnOneLine body := by
  induction h with
  | finish => exact ⟨[], rfl, by simp [OnOneLine]⟩
  | blank _ _ ih => exact ih (List.forall_mem_cons.1 line).2
  | newline hc _ _ =>
    obtain ⟨newline, feed⟩ := line _ List.mem_cons_self
    exact absurd hc (by simp [newline, feed])
  | sign o _ ih =>
    obtain ⟨body, rfl, inside⟩ := ih (List.forall_mem_append.1 line).2
    exact ⟨.op o :: body, rfl, by simpa [OnOneLine] using inside⟩
  | @number c s _ _ _ _ ih =>
    have after : (spanNumber (c :: s)).2 <:+ c :: s := ⟨_, spanNumber_append _⟩
    obtain ⟨body, rfl, inside⟩ := ih fun c hc => line c (after.subset hc)
    exact ⟨_, (List.append_assoc _ _ _).symm, (onOneLine_numberTokens _).append inside⟩
  | @name c s _ _ _ ih =>
    have after : s.dropWhile isNameChar <:+ s := List.dropWhile_suffix _
    obtain ⟨body, rfl, inside⟩ := ih fun c hc => line c (List.mem_cons_of_mem _ (after.subset hc))
    exact ⟨.name _ :: body, rfl, by simpa [OnOneLine] using inside⟩

end Reckoner
