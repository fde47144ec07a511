-- Where the names in the tree of a text come from. A name of several letters stands in the text,
-- inside of a name that passed the first reading. So no truth value gets into a tree unless a
-- bound name has one in it, and without one no text fails but with a fault of reading.
import Mathlib
import Reckoner.Proofs.Reading.Grammar
import Reckoner.Proofs.Reading.Read
import Reckoner.Proofs.Reading.TokenNames
import Reckoner.Proofs.Text.Letters

namespace Reckoner

/-! ## Numbers are cut off a text -/

section Spans

variable {s number rest : List Char}

theorem spanDigits_append (s : List Char) : (spanDigits s).1 ++ (spanDigits s).2 = s :=
  List.takeWhile_append_dropWhile

theorem spanExponent_append (s : List Char) : (spanExponent s).1 ++ (spanExponent s).2 = s := by
  unfold spanExponent
  split
  · rename_i e rest
    dsimp only
    split_ifs
    · rfl
    · split
      · simp [spanDigits_append]
      · simp [spanDigits_append]
      · simp [spanDigits_append]
    · rfl
  · rfl

theorem spanDecimal?_append (h : spanDecimal? s = some (number, rest)) : number ++ rest = s := by
  have whole := spanDigits_append s
  unfold spanDecimal? at h
  dsimp only at h
  split at h
  · rename_i more hrest
    split_ifs at h
    obtain ⟨rfl, rfl⟩ := Prod.mk.inj (Option.some.inj h)
    rw [hrest] at whole
    rw [List.append_assoc, spanExponent_append, List.append_assoc, List.cons_append,
      spanDigits_append, whole]
  · split_ifs at h
    obtain ⟨rfl, rfl⟩ := Prod.mk.inj (Option.some.inj h)
    rw [List.append_assoc, spanExponent_append, whole]

theorem spanBased?_append (h : spanBased? s = some (number, rest)) : number ++ rest = s := by
  unfold spanBased? at h
  split at h
  · dsimp only at h
    split_ifs at h
    all_goals
      obtain ⟨rfl, rfl⟩ := Prod.mk.inj (Option.some.inj h)
      simp
  · cases h

theorem spanWhole_append (s : List Char) : (spanWhole s).1 ++ (spanWhole s).2 = s := by
  unfold spanWhole
  split
  · exact List.takeWhile_append_dropWhile
  · exact spanDigits_append _

/-- What is found at the beginning of a text, if anything is, has a property together with the
rest. -/
def Finds (P : List Char × List Char → Prop) (found : Option (List Char × List Char)) : Prop :=
  ∀ pair ∈ found, P pair

theorem Finds.orElse {P : List Char × List Char → Prop}
    {first second : Option (List Char × List Char)} (h : Finds P first) (h' : Finds P second) :
    Finds P (first.orElse fun _ => second) := by
  cases first with
  | none => exact h'
  | some pair => exact h

theorem Finds.getD {P : List Char × List Char → Prop} {found : Option (List Char × List Char)}
    {other : List Char × List Char} (h : Finds P found) (h' : P other) : P (found.getD other) := by
  cases found with
  | none => exact h'
  | some pair => exact h pair rfl

theorem Finds.marked {P : List Char × List Char → Prop} {found : Option (List Char × List Char)} :
    (∀ number c rest, found = some (number, c :: rest) → isImaginaryMark c →
      P (number ++ [c], rest)) →
    Finds P (match found with
      | some (number, c :: rest) => if isImaginaryMark c then some (number ++ [c], rest) else none
      | _ => none) := by
  intro mark pair hpair
  split at hpair
  · split_ifs at hpair with hc
    · obtain rfl := Option.some.inj hpair
      exact mark _ _ _ rfl hc
    · cases hpair
  · cases hpair

theorem finds_whole {P : List Char × List Char → Prop}
    (h : (spanDigits s).1 ≠ [] → P (spanDigits s)) :
    Finds P (if (spanDigits s).1.isEmpty then none else some (spanDigits s)) := by
  intro pair hpair
  split_ifs at hpair with empty
  · cases hpair
  · obtain rfl := Option.some.inj hpair
    exact h (by simpa using empty)

/-- A number and what follows it make up the text. -/
theorem spanNumber_append (s : List Char) : (spanNumber s).1 ++ (spanNumber s).2 = s := by
  let Splits (pair : List Char × List Char) : Prop := pair.1 ++ pair.2 = s
  have whole : Finds Splits (if (spanDigits s).1.isEmpty then none else some (spanDigits s)) :=
    finds_whole fun _ => spanDigits_append s
  have decimal : Finds Splits (spanDecimal? s) := fun _ h => spanDecimal?_append h
  have based : Finds Splits (spanBased? s) := fun _ h => spanBased?_append h
  -- the mark of an imaginary number moves from the rest to the number
  have moved : ∀ {number c rest}, Splits (number, c :: rest) → Splits (number ++ [c], rest) := by
    intro number c rest h
    exact (List.append_assoc _ _ _).trans h
  have wholeMarked := Finds.marked fun number c rest h _ => moved (whole _ h)
  have decimalMarked := Finds.marked fun number c rest h _ => moved (decimal _ h)
  exact (wholeMarked.orElse (decimalMarked.orElse (decimal.orElse based))).getD
    (spanWhole_append s)

end Spans

/-! ## Tokens -/

/-- The characters of a sign. -/
def Operator.chars : Operator → List Char
  | .plus => ['+']
  | .minus => ['-']
  | .times => ['*']
  | .over => ['/']
  | .wholeOver => ['/', '/']
  | .power => ['*', '*']
  | .caret => ['^']
  | .opening => ['(']
  | .closing => [')']

theorem Operator.chars_not_letter (o : Operator) : ∀ c ∈ o.chars, ¬ isAsciiLetter c := by
  cases o <;> simp [Operator.chars, isAsciiLetter]

theorem not_isAsciiLetter_of_blank {c : Char} (h : c = ' ' ∨ c = '\t' ∨ c = '\x0c') :
    ¬ isAsciiLetter c := by
  rcases h with rfl | rfl | rfl <;> decide

theorem not_isAsciiLetter_of_newline {c : Char} (h : c = '\n' ∨ c = '\x0d') :
    ¬ isAsciiLetter c := by
  rcases h with rfl | rfl <;> decide

/-- The tokens that a text is cut into, one after another. -/
inductive CutInto : List Char → List Token → Prop where
  | finish : CutInto [] [.finish, .finish]
  | blank {c : Char} {s : List Char} {l : List Token} (hc : c = ' ' ∨ c = '\t' ∨ c = '\x0c')
      (h : CutInto s l) : CutInto (c :: s) l
  | newline {c : Char} {s : List Char} {l : List Token} (hc : c = '\n' ∨ c = '\x0d')
      (h : CutInto s l) : CutInto (c :: s) (.newline :: l)
  | number {c : Char} {s : List Char} {l : List Token} (hc : isAsciiDigit c ∨ c = '.')
      (some : (spanNumber (c :: s)).1 ≠ []) (h : CutInto (spanNumber (c :: s)).2 l) :
      CutInto (c :: s) (numberTokens (spanNumber (c :: s)).1 ++ l)
  | name {c : Char} {s : List Char} {l : List Token} (hc : isAsciiLetter c)
      (h : CutInto (s.dropWhile isNameChar) l) :
      CutInto (c :: s) (.name (String.ofList (c :: s.takeWhile isNameChar)) :: l)
  | sign (o : Operator) {s : List Char} {l : List Token} (h : CutInto s l) :
      CutInto (o.chars ++ s) (.op o :: l)

theorem cutInto_of_tokensFrom {fuel : Nat} {s : List Char} {tokens : List Token}
    (h : tokensFrom fuel s = some tokens) : CutInto s tokens := by
  induction fuel generalizing s tokens with
  | zero =>
    cases s with
    | nil =>
      obtain rfl := Option.some.inj h
      exact .finish
    | cons c rest => cases h
  | succ fuel ih =>
    have sign : ∀ (o : Operator) {more : List Char} {l : List Token},
        (tokensFrom fuel more).map (Token.op o :: ·) = some l → CutInto (o.chars ++ more) l := by
      intro o more l hl
      obtain ⟨rest, hrest, rfl⟩ := Option.map_eq_some_iff.1 hl
      exact .sign o (ih hrest)
    cases s with
    | nil =>
      obtain rfl := Option.some.inj h
      exact .finish
    | cons c rest =>
      unfold tokensFrom at h
      dsimp only at h
      split_ifs at h with hblank hline hnumber hempty hletter
      · exact .blank (by simpa [or_assoc] using hblank) (ih h)
      · obtain ⟨last, hlast, rfl⟩ := Option.map_eq_some_iff.1 h
        exact .newline (by simpa using hline) (ih hlast)
      · obtain ⟨last, hlast, rfl⟩ := Option.map_eq_some_iff.1 h
        exact .number (by simpa using hnumber) (by simpa using hempty) (ih hlast)
      · obtain ⟨last, hlast, rfl⟩ := Option.map_eq_some_iff.1 h
        exact .name hletter (ih hlast)
      · split at h
        · exact sign .power h
        · exact sign .wholeOver h
        · exact sign .times h
        · exact sign .over h
        · exact sign .plus h
        · exact sign .minus h
        · exact sign .caret h
        · exact sign .opening h
        · exact sign .closing h
        · cases h

/-! ## Names of tokens -/

/-- A name that no text has to have: the kind of a number, or a single letter. -/
def IsPutIn (name : String) : Prop := name.length = 1 ∨ name = "Integer" ∨ name = "Float"

/-- Letters and digits that stand in a text. -/
def StandsIn (name : String) (s : List Char) : Prop :=
  (∀ c ∈ name.toList, isNameChar c) ∧ name.toList <:+: s

theorem StandsIn.mono {name : String} {s t : List Char} (h : StandsIn name s) (hs : s <:+: t) :
    StandsIn name t := ⟨h.1, h.2.trans hs⟩

theorem numberTokens_names (number : List Char) :
    ∀ name ∈ namesAmong (numberTokens number), IsPutIn name := by
  intro name hname
  unfold numberTokens at hname
  dsimp only at hname
  have unit : "I".length = 1 := by decide
  split_ifs at hname <;> simp at hname <;> rcases hname with rfl | rfl <;> simp [IsPutIn, unit]

/-- The name of a token is put in, or it stands in the text. -/
theorem CutInto.names {s : List Char} {tokens : List Token} (h : CutInto s tokens) :
    ∀ name ∈ namesAmong tokens, IsPutIn name ∨ StandsIn name s := by
  induction h with
  | finish => simp
  | blank _ _ ih | newline _ _ ih =>
    exact fun name hname => (ih name hname).imp_right
      fun stands => stands.mono (List.suffix_cons _ _).isInfix
  | sign o _ ih =>
    exact fun name hname => (ih name hname).imp_right
      fun stands => stands.mono (List.suffix_append _ _).isInfix
  | @number c s _ _ _ _ ih =>
    have after : (spanNumber (c :: s)).2 <:+ c :: s := ⟨_, spanNumber_append _⟩
    rw [namesAmong_append]
    exact List.forall_mem_append.2 ⟨fun name hname => .inl (numberTokens_names _ name hname),
      fun name hname => (ih name hname).imp_right fun stands => stands.mono after.isInfix⟩
  | @name c s _ letter _ ih =>
    have word : c :: s.takeWhile isNameChar <+: c :: s := by
      simpa using List.takeWhile_prefix isNameChar
    have after : s.dropWhile isNameChar <:+ c :: s :=
      (List.dropWhile_suffix _).trans (List.suffix_cons c s)
    have letters : ∀ d ∈ c :: s.takeWhile isNameChar, isNameChar d :=
      List.forall_mem_cons.2 ⟨by simp [isNameChar, letter], fun d => List.mem_takeWhile_imp⟩
    rw [namesAmong_name]
    refine List.forall_mem_cons.2 ⟨.inr ⟨by simpa using letters, by simpa using word.isInfix⟩, ?_⟩
    exact fun name hname => (ih name hname).imp_right fun stands => stands.mono after.isInfix

/-! ## Names read letter by letter -/

theorem letterTokens_names {symbols : List String} {letters digits : List Char}
    {tokens : List Token} (h : letterTokens symbols letters digits = some tokens) :
    ∀ name ∈ namesAmong tokens, IsPutIn name := by
  have number : ∀ l : List Char, ∀ name ∈ namesAmong (if l.isEmpty then [] else numberTokens l.reverse),
      IsPutIn name := by
    intro l
    split_ifs
    · simp
    · exact numberTokens_names _
  induction letters generalizing digits tokens with
  | nil =>
    obtain rfl := Option.some.inj h
    exact number digits
  | cons c rest ih =>
    by_cases hdigit : isAsciiDigit c
    · rw [letterTokens, if_pos hdigit] at h
      exact ih h
    · rw [letterTokens, if_neg hdigit] at h
      obtain ⟨-, h⟩ := Option.ite_none_right_eq_some.1 h
      obtain ⟨others, hothers, rfl⟩ := Option.map_eq_some_iff.1 h
      intro name hname
      rw [namesAmong_append, namesAmong_name, List.mem_append, List.mem_cons] at hname
      rcases hname with hname | rfl | hname
      · exact number digits name hname
      · exact Or.inl (by simp)
      · exact ih hothers name hname

theorem splitNames_names {symbols : List String} {l before tokens : List Token}
    {state : SplitState} (h : splitNames symbols l before state = some tokens) :
    ∀ name ∈ namesAmong tokens,
      IsPutIn name ∨ name ∈ namesAmong l ∨ name ∈ namesAmong before := by
  induction l generalizing before state with
  | nil =>
    obtain rfl := Option.some.inj h
    intro name hname
    refine Or.inr (Or.inr ?_)
    rwa [namesAmong, List.filterMap_reverse, List.mem_reverse] at hname
  | cons t rest ih =>
    have next : ∀ {state' : SplitState}, splitNames symbols rest (t :: before) state' = some tokens →
        ∀ name ∈ namesAmong tokens,
          IsPutIn name ∨ name ∈ namesAmong (t :: rest) ∨ name ∈ namesAmong before := by
      intro state' h name hname
      rw [namesAmong_cons, List.mem_append]
      rcases ih h name hname with put | found | found
      · exact Or.inl put
      · exact Or.inr (Or.inl (Or.inr found))
      · rw [namesAmong_cons, List.mem_append] at found
        exact Or.inr (found.imp_left Or.inl)
    unfold splitNames at h
    split_ifs at h with hskip
    · intro name hname
      rw [namesAmong_cons, List.mem_append]
      exact (ih h name hname).imp_right (Or.imp_left Or.inr)
    · split at h
      · rename_i s
        split_ifs at h
        · exact next h
        · split at h
          · rename_i a b before
            obtain ⟨letters, hletters, h⟩ := Option.bind_eq_some_iff.1 h
            intro name hname
            rcases ih h name hname with put | found | found
            · exact Or.inl put
            · exact Or.inr (Or.inl (List.mem_cons_of_mem _ found))
            · rw [namesAmong_append, List.mem_append] at found
              rcases found with found | found
              · rw [namesAmong, List.filterMap_reverse, List.mem_reverse] at found
                exact Or.inl (letterTokens_names hletters name found)
              · have later : name ∈ namesAmong ([a, b] ++ before) := by
                  rw [namesAmong_append]
                  exact List.mem_append_right _ found
                exact Or.inr (Or.inr later)
          · cases h
        · exact next h
      · exact next h

/-- A name in the tree of a text is put in, or it stands in the text. -/
theorem parseTree_names {symbols : List String} {text : String} {t : Tree}
    (h : parseTree symbols text = some t) :
    ∀ name ∈ t.mentions, IsPutIn name ∨ StandsIn name text.toList := by
  obtain ⟨tokens, letters, htokens, hletters, perm⟩ := parseTree_mentions h
  intro name hname
  by_cases kind : name = "Integer" ∨ name = "Float"
  · exact Or.inl (Or.inr kind)
  · have kept : name ∈ withoutKinds (namesAmong letters) :=
      perm.mem_iff.1 (List.mem_filter.2 ⟨hname, by simpa using kind⟩)
    rcases splitNames_names hletters name (List.mem_of_mem_filter kept) with put | stands | none
    · exact Or.inl put
    · exact ((cutInto_of_tokensFrom htokens).names name stands).imp_right fun stands =>
        stands.mono (stripBlank_inside _)
    · cases none

/-! ## Letters in pieces -/

theorem not_isAsciiDigit_of_isAsciiLetter {c : Char} (h : isAsciiLetter c) : ¬ isAsciiDigit c := by
  have bounds := toNat_of_isAsciiLetter h
  intro hd
  simp only [isAsciiDigit, Bool.and_eq_true, decide_eq_true_eq, Char.le_def,
    UInt32.le_iff_toNat_le] at hd
  have : '9'.val.toNat = 57 := rfl
  change 65 ≤ c.val.toNat ∧ _ at bounds
  omega

/-- Only a name has letters. -/
theorem PieceForm.Fits.eq_name {f : PieceForm} {s : List Char} (h : f.Fits s) {c : Char}
    (hc : c ∈ s) (letter : isAsciiLetter c) : f = .name := by
  have digit := not_isAsciiDigit_of_isAsciiLetter letter
  have point : c ≠ '.' := by
    rintro rfl
    exact absurd letter (by decide)
  cases f with
  | blanks => exact absurd (h.2 c hc) (not_isBlank_of_isAsciiLetter letter)
  | number =>
    obtain ⟨digits, more, -, hd, hm, rfl | rfl⟩ := h
    · exact absurd (hd c hc) digit
    · simp only [List.mem_append, List.mem_cons] at hc
      rcases hc with hc | hc | hc
      · exact absurd (hd c hc) digit
      · exact absurd hc point
      · exact absurd (hm c hc) digit
  | fraction =>
    obtain ⟨digits, -, hd, rfl⟩ := h
    rcases List.mem_cons.1 hc with hc | hc
    · exact absurd hc point
    · exact absurd (hd c hc) digit
  | power =>
    obtain rfl : s = ['*', '*'] := h
    obtain rfl : c = '*' := by simpa using hc
    exact absurd letter (by decide)
  | sign =>
    obtain ⟨d, hd, rfl⟩ := h
    obtain rfl := List.mem_singleton.1 hc
    exact absurd hd (not_isSign_of_isAsciiLetter letter)
  | name => rfl

/-- A name takes all the letters that follow it. -/
theorem Piece.Leads.no_letter {p : Piece} {rest : List Char} {c : Char} (h : p.Leads (c :: rest))
    (name : p.form = .name) : ¬ isNameChar c := by
  intro hc
  obtain ⟨d, more, hd, hmore, text⟩ : PieceForm.name.Fits p.chars := name ▸ h.fits
  have longer : p.form.Fits (p.chars ++ [c]) := by
    rw [name]
    refine ⟨d, more ++ [c], hd, ?_, by rw [text, List.cons_append]⟩
    simpa [or_imp, forall_and] using ⟨hmore, hc⟩
  have bound := h.longest _ ⟨rest, by simp⟩ longer
  simp at bound

/-- Letters next to each other stand inside of one name. -/
theorem Cuts.letters_inside {s last t : List Char} {pieces : List Piece} (h : Cuts s pieces last)
    (hlast : last = []) (ht : t ≠ []) (letters : ∀ c ∈ t, isAsciiLetter c) (inside : t <:+: s) :
    ∃ p ∈ pieces, p.form = .name ∧ t <:+: p.chars := by
  induction h with
  | stop s =>
    subst hlast
    exact absurd (List.infix_nil.1 inside) ht
  | @piece p rest last more leads cuts ih =>
    have within : t <:+: p.chars → ∃ q ∈ p :: more, q.form = .name ∧ t <:+: q.chars := by
      intro hp
      obtain ⟨c, t, rfl⟩ := List.exists_cons_of_ne_nil ht
      exact ⟨p, List.mem_cons_self,
        leads.fits.eq_name (hp.subset List.mem_cons_self) (letters c List.mem_cons_self), hp⟩
    have after : t <:+: rest → ∃ q ∈ p :: more, q.form = .name ∧ t <:+: q.chars := by
      intro hrest
      obtain ⟨q, hq, found⟩ := ih hlast hrest
      exact ⟨q, List.mem_cons_of_mem _ hq, found⟩
    obtain ⟨a, b, split⟩ := inside
    rcases List.append_eq_append_iff.1 split with ⟨m, hm, hb⟩ | ⟨m, hm, hb⟩
    · exact within ⟨a, m, hm.symm⟩
    · rcases List.append_eq_append_iff.1 hm with ⟨u, hu, rfl⟩ | ⟨u, -, rfl⟩
      · -- the letters begin in this piece, so they do not go on behind it
        cases m with
        | nil => exact within ⟨a, [], by simp [hu]⟩
        | cons d m =>
          cases u with
          | nil => exact after ⟨[], b, hb.symm⟩
          | cons c u =>
            subst hb
            have name := leads.fits.eq_name (c := c) (by simp [hu]) (letters c (by simp))
            refine absurd ?_ (leads.no_letter name)
            simp [isNameChar, letters d (by simp)]
      · exact after ⟨u, b, hb.symm⟩

/-! ## Truth values -/

/-- A word for a truth value stands inside of a name. -/
def HoldsTruth (name : String) : Prop := ∃ word, (truthOf? word).isSome ∧ word.toList <:+: name.toList

theorem eq_of_truthOf? {s : String} (h : (truthOf? s).isSome) : s = "True" ∨ s = "False" := by
  unfold truthOf? at h
  split at h
  · exact Or.inl rfl
  · exact Or.inr rfl
  · cases h

/-- In the tree of a text that passes, a truth value is part of a bound name. -/
theorem holdsTruth_of_mention {text : String} {bound symbols : List String} {pieces : List Piece}
    {t : Tree} (passes : Passes text bound pieces) (h : parseTree symbols text = some t)
    {word : String} (hword : word ∈ t.mentions) (truth : (truthOf? word).isSome) :
    ∃ name ∈ bound, HoldsTruth name := by
  have known : ∀ name ∈ functionNames ++ constantNames,
      ¬ "True".toList <:+: name.toList ∧ ¬ "False".toList <:+: name.toList := by
    decide
  have facts : (∀ c ∈ word.toList, isAsciiLetter c) ∧ 3 < word.toList.length ∧ ¬ IsPutIn word ∧
      ∀ name ∈ functionNames ++ constantNames, ¬ word.toList <:+: name.toList := by
    rcases eq_of_truthOf? truth with rfl | rfl
    · refine ⟨?_, by simp, ?_, fun name h => (known name h).1⟩ <;> simp [IsPutIn] <;> decide
    · refine ⟨?_, by simp, ?_, fun name h => (known name h).2⟩ <;> simp [IsPutIn] <;> decide
  obtain ⟨letters, long, notPut, unknown⟩ := facts
  have stands : word.toList <:+: text.toList :=
    ((parseTree_names h word hword).resolve_left notPut).2
  obtain ⟨p, hp, name, inside⟩ := passes.cuts.letters_inside rfl
    (List.length_pos_iff.1 (by omega)) letters stands
  have inside : word.toList <:+: p.text.toList := by simpa [Piece.text] using inside
  rcases passes.allowed p hp name with function | constant | hbound | single
  · exact absurd inside (unknown _ (List.mem_append_left _ function))
  · exact absurd inside (unknown _ (List.mem_append_right _ constant))
  · exact ⟨p.text, hbound, word, truth, inside⟩
  · have length := inside.length_le
    simp [Piece.text, single] at length
    omega

theorem Tree.mem_mentions_of_mem_names {t : Tree} {s : String} (h : s ∈ t.names) :
    s ∈ t.mentions := by
  induction t with
  | name _ | whole _ | decimal _ | nothing => exact h
  | call f a ih => exact List.mem_cons_of_mem _ (ih h)
  | positive a ih | negative a ih => exact ih h
  | binary o a b iha ihb =>
    rcases List.mem_append.1 h with h | h
    · exact List.mem_append_left _ (iha h)
    · exact List.mem_append_right _ (ihb h)

theorem checkSize_of_no_truth {symbols : List String} {t : Tree}
    (h : ∀ s ∈ t.names, truthOf? s = none) : checkSize symbols t = .ok () := by
  unfold checkSize
  split_ifs
  · rfl
  · rw [List.findSome?_eq_none_iff.2 h]

/-- Without truth values nothing is wrong with the powers. -/
theorem checkTruths_of_no_truth {symbols : List String} {t : Tree}
    (h : ∀ s ∈ t.names, truthOf? s = none) : checkTruths symbols t = .ok () := by
  induction t with
  | name _ | whole _ | decimal _ | nothing => rfl
  | call f a ih =>
    rw [checkTruths, ih h, checkSize_of_no_truth (t := a) h]
    split_ifs <;> rfl
  | positive a ih | negative a ih => exact ih h
  | binary o a b iha ihb =>
    obtain ⟨ha, hb⟩ := List.forall_mem_append.1 h
    rw [checkTruths, iha ha, ihb hb, checkSize_of_no_truth ha, checkSize_of_no_truth hb]
    split_ifs <;> rfl

/-! ## Faults of reading -/

/-- The fault is told as one of reading. -/
def ReadFault.IsTold : ReadFault → Prop
  | .value _ => False
  | _ => True

/-- The fault refuses a text for its length, for what stands in it or for the size of a power. -/
def ReadFault.IsRefusal : ReadFault → Prop
  | .tooLong _ | .unsupported _ _ | .unknownName _ => True
  | .exponentTooLarge | .powerTooLarge | .noFiniteValue _ => True
  | .badVariable _ | .empty | .malformed _ | .notAlgebraic _ | .value _ => False

theorem ReadFault.IsRefusal.isTold {f : ReadFault} (h : f.IsRefusal) : f.IsTold := by
  cases f with
  | value f => exact h
  | _ => trivial

theorem checkPowers_refusal {x : Expr} {f : ReadFault} (h : checkPowers x = .error f) :
    f.IsRefusal := by
  obtain ⟨b, e, -, h⟩ := checkPowers_error h
  by_cases hf : ∃ shown, f = .noFiniteValue shown
  · obtain ⟨shown, rfl⟩ := hf
    trivial
  · obtain ⟨m, -, ⟨rfl, -⟩ | ⟨rfl, -⟩⟩ := checkPower_error h (not_exists.1 hf)
    all_goals trivial

theorem symbolNames_refusal {text : String} {bound : List String} {f : ReadFault}
    (h : symbolNames text bound = .error f) : f.IsRefusal := by
  have first := isFirstFault_of_symbolNames h
  cases f with
  | tooLong | unsupported | unknownName => trivial
  | _ => exact first.elim

theorem namesOutcome_told {text : String} {bound : List String} {f : ReadFault}
    (h : namesOutcome text bound = .error f) : f.IsTold := by
  unfold namesOutcome at h
  split at h
  · obtain rfl := Except.error.inj h
    trivial
  · split_ifs at h
    · obtain rfl := Except.error.inj h
      trivial
    · exact (symbolNames_refusal h).isTold

theorem writtenOutcome_told {symbols : List String} {text : String} {tree : Tree} {f : ReadFault}
    (h : tree.writtenOutcome symbols text = .error f) : f.IsTold := by
  unfold Tree.writtenOutcome at h
  repeat' split at h
  all_goals first
    | obtain rfl := Except.error.inj h
      trivial
    | cases h

theorem meaningOutcome_told {symbols : List String} {text : String} {tree : Tree} {f : ReadFault}
    (h : tree.meaningOutcome symbols text = .error f) : f.IsTold := by
  unfold Tree.meaningOutcome at h
  split at h
  all_goals first
    | obtain rfl := Except.error.inj h
      trivial
    | cases h

/-- A text fails for a value only if a bound name has a truth value in it. -/
theorem readExpression_told {text : String} {bound : List String}
    (plain : ∀ name ∈ bound, ¬ HoldsTruth name) {f : ReadFault}
    (h : readExpression text bound = .error f) : f.IsTold := by
  rw [readExpression_eq] at h
  cases hnames : namesOutcome text bound with
  | error g =>
    rw [hnames] at h
    obtain rfl := Except.error.inj h
    exact namesOutcome_told hnames
  | ok names =>
    rw [hnames, ok_bind, treeOutcome] at h
    cases hparse : parseTree (names ++ bound) text with
    | none =>
      rw [hparse] at h
      obtain rfl := Except.error.inj h
      trivial
    | some tree =>
      obtain ⟨pieces, passes, -⟩ := passes_of_symbolNames (namesOutcome_ok hnames)
      have truths : checkTruths (names ++ bound) tree = .ok () := by
        refine checkTruths_of_no_truth fun s hs => ?_
        by_contra truth
        obtain ⟨name, hname, holds⟩ := holdsTruth_of_mention passes hparse
          (Tree.mem_mentions_of_mem_names hs) (Option.isSome_iff_ne_none.2 truth)
        exact plain name hname holds
      rw [hparse] at h
      simp only [ok_bind, workOut_eq, truths] at h
      cases hwritten : tree.writtenOutcome (names ++ bound) text with
      | error g =>
        rw [hwritten] at h
        obtain rfl := Except.error.inj h
        exact writtenOutcome_told hwritten
      | ok x =>
        rw [hwritten, ok_bind] at h
        cases hpowers : checkPowers x with
        | error g =>
          rw [hpowers] at h
          obtain rfl := Except.error.inj h
          exact (checkPowers_refusal hpowers).isTold
        | ok _ =>
          rw [hpowers, ok_bind] at h
          exact meaningOutcome_told h

end Reckoner
