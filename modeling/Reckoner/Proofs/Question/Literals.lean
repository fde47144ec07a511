-- The numbers of a text. The scan finds the literals from left to right, each as long as it can
-- be, and a literal can be read unless it is a whole number of too many digits.
import Mathlib.Data.List.TakeWhile
import Mathlib.Data.List.Basic
import Reckoner.Proofs.Value.Writing
import Reckoner.Question.Classification

namespace Reckoner

/-! ## One literal -/

namespace Literal

/-- A whole number has few enough digits to be read. -/
def Readable (l : Literal) : Prop := l.part = none → l.whole.length ≤ maxDigits

instance (l : Literal) : Decidable l.Readable := inferInstanceAs (Decidable (_ → _))

/-- The whole number of a literal without a point. -/
def integer (l : Literal) : Int :=
  if l.negative then -(digitsValue l.whole : Int) else digitsValue l.whole

theorem value_whole {l : Literal} (hp : l.part = none) (h : l.Readable) :
    l.value = .ok (.whole l.integer) := by
  unfold value
  rw [hp]
  simp only [Value.wholeOfDigits, if_neg (not_lt.2 (h hp))]
  rfl

theorem value_of_readable {l : Literal} (h : l.Readable) : ∃ v, l.value = .ok v := by
  cases hp : l.part with
  | some part => exact ⟨_, by rw [value, hp]⟩
  | none => exact ⟨_, value_whole hp h⟩

theorem value_of_not_readable {l : Literal} (h : ¬ l.Readable) :
    l.value = .error (.tooLongToRead l.whole.length) := by
  obtain ⟨hp, hl⟩ : l.part = none ∧ maxDigits < l.whole.length := by
    simpa [Readable, Classical.not_imp] using h
  simp [value, hp, Value.wholeOfDigits, hl, Except.map]

/-- A literal with a whole value has no point, and stands for its digits and sign. -/
theorem eq_integer {l : Literal} {n : Int} (h : l.value = .ok (.whole n)) :
    l.part = none ∧ n = l.integer := by
  cases hp : l.part with
  | some part =>
    rw [value, hp] at h
    cases h
  | none =>
    by_cases hl : l.Readable
    · rw [value_whole hp hl] at h
      cases h
      exact ⟨rfl, rfl⟩
    · rw [value_of_not_readable hl] at h
      cases h

end Literal

/-! ## All literals -/

theorem literalValues_of_readable {ls : List Literal} (h : ∀ l ∈ ls, l.Readable) :
    ∃ vs, literalValues ls = .ok vs := by
  induction ls with
  | nil => exact ⟨[], rfl⟩
  | cons l rest ih =>
    obtain ⟨v, hv⟩ := Literal.value_of_readable (h l (by simp))
    obtain ⟨vs, hvs⟩ := ih fun m hm => h m (List.mem_cons_of_mem _ hm)
    exact ⟨v :: vs, by rw [literalValues, hv, hvs]; rfl⟩

/-- The first literal that cannot be read is the fault. -/
theorem literalValues_of_not_readable {ls : List Literal} (h : ∃ l ∈ ls, ¬ l.Readable) :
    ∃ l ∈ ls, ¬ l.Readable ∧ literalValues ls = .error (.tooLongToRead l.whole.length) := by
  induction ls with
  | nil => simp at h
  | cons l rest ih =>
    by_cases hl : l.Readable
    · obtain ⟨m, hm, hr, hf⟩ := ih (by simpa [hl] using h)
      obtain ⟨v, hv⟩ := Literal.value_of_readable hl
      exact ⟨m, List.mem_cons_of_mem _ hm, hr, by simp [literalValues, hv, hf]⟩
    · exact ⟨l, by simp, hl, by simp [literalValues, Literal.value_of_not_readable hl]⟩

/-- Where all values are whole, they are the numbers of the literals in their order. -/
theorem eq_integers {ls : List Literal} {ns : List Int}
    (h : literalValues ls = .ok (ns.map .whole)) :
    (∀ l ∈ ls, l.part = none) ∧ ns = ls.map Literal.integer := by
  induction ls generalizing ns with
  | nil =>
    cases ns with
    | nil => simp
    | cons n ns => cases h
  | cons l rest ih =>
    rw [literalValues] at h
    cases hv : l.value with
    | error f => simp [hv] at h
    | ok v =>
      cases hvs : literalValues rest with
      | error f => simp [hv, hvs] at h
      | ok vs =>
        cases ns with
        | nil => simp [hv, hvs, pure, Except.pure] at h
        | cons n ns =>
          simp only [hv, hvs, ok_bind, pure, Except.pure, List.map_cons, Except.ok.injEq,
            List.cons.injEq] at h
          obtain ⟨rfl, rfl⟩ := h
          obtain ⟨hp, rfl⟩ := Literal.eq_integer hv
          obtain ⟨hps, rfl⟩ := ih hvs
          exact ⟨List.forall_mem_cons.2 ⟨hp, hps⟩, rfl⟩

/-! ## The scan -/

/-- The literal begins in a text after a gap, and the rest is left. The literal is as long as it
can be, and the gap holds none. -/
structure Begins (gap : List Char) (l : Literal) (rest : List Char) : Prop where
  gap_plain : ∀ c ∈ gap, isDigit c = false
  /-- A minus sign right before the digits belongs to the literal. -/
  sign_taken : l.negative = false → gap.getLast? ≠ some '-'
  whole_ne : l.whole ≠ []
  whole_digits : ∀ c ∈ l.whole, isDigit c
  part_digits : ∀ part ∈ l.part, ∀ c ∈ part, isDigit c
  /-- No digit follows. -/
  digits_taken : ∀ c ∈ rest.head?, isDigit c = false
  /-- A point right after the digits belongs to the literal. -/
  point_taken : l.part = none → rest.head? ≠ some '.'

/-- The literals of a text from left to right. -/
inductive Scan : List Char → List Literal → Prop where
  | done {s : List Char} : (∀ c ∈ s, isDigit c = false) → Scan s []
  | found {gap rest : List Char} {l : Literal} {more : List Literal} :
    Begins gap l rest → Scan rest more → Scan (gap ++ l.chars ++ rest) (l :: more)

/-- A character that is neither a digit nor the sign of a literal makes the gap longer. -/
theorem Scan.cons {c : Char} {s : List Char} {ls : List Literal} (h : Scan s ls)
    (hc : isDigit c = false) (hs : c = '-' → ∀ d ∈ s.head?, isDigit d = false) :
    Scan (c :: s) ls := by
  cases h with
  | done h => exact .done (List.forall_mem_cons.2 ⟨hc, h⟩)
  | @found gap rest l more hb hm =>
    have longer : Begins (c :: gap) l rest := { hb with gap_plain := ?_, sign_taken := ?_ }
    · exact .found longer hm
    · exact List.forall_mem_cons.2 ⟨hc, hb.gap_plain⟩
    · intro hn
      cases gap with
      | cons d gap => simpa using hb.sign_taken hn
      | nil =>
        intro hlast
        obtain ⟨d, digits, hw⟩ := List.exists_cons_of_ne_nil hb.whole_ne
        have digit := hb.whole_digits d (by simp [hw])
        have plain := hs (by simpa using hlast) d (by simp [Literal.chars, hn, hw])
        rw [plain] at digit
        cases digit

/-- What is split off at the first digit is a literal, and less of the text is left. -/
theorem spanLiteral_begins {negative : Bool} {c : Char} {s : List Char} (hc : isDigit c)
    {l : Literal} {rest : List Char} (h : spanLiteral negative (c :: s) = (l, rest)) :
    Begins [] l rest ∧ (if negative then ['-'] else []) ++ c :: s = l.chars ++ rest ∧
      rest.length ≤ s.length := by
  have split : (c :: s).takeWhile isDigit ++ (c :: s).dropWhile isDigit = c :: s :=
    List.takeWhile_append_dropWhile
  have digits : ∀ d ∈ (c :: s).takeWhile isDigit, isDigit d := fun d => List.mem_takeWhile_imp
  have first : (c :: s).takeWhile isDigit ≠ [] := by simp [hc]
  have length : ((c :: s).dropWhile isDigit).length ≤ s.length := by
    rw [List.dropWhile_cons_of_pos hc]
    exact List.length_dropWhile_le _ _
  have after : ∀ t : List Char, ∀ d ∈ (t.dropWhile isDigit).head?, isDigit d = false := by
    intro t d hd
    have := List.head?_dropWhile_not isDigit t
    rw [Option.mem_def.1 hd] at this
    simpa using this
  unfold spanLiteral at h
  simp only at h
  split at h
  · rename_i more hmore
    obtain ⟨rfl, rfl⟩ := Prod.mk.inj h
    rw [hmore] at split length
    refine ⟨⟨by simp, by simp, first, digits, ?_, after more, by simp⟩, ?_, ?_⟩
    · rintro part ⟨⟩ d
      exact List.mem_takeWhile_imp
    · simp only [Literal.chars, List.append_assoc, List.cons_append,
        List.takeWhile_append_dropWhile, split]
    · have := List.length_dropWhile_le isDigit more
      simp only [List.length_cons] at length
      omega
  · rename_i more hpoint
    obtain ⟨rfl, rfl⟩ := Prod.mk.inj h
    refine ⟨⟨by simp, by simp, first, digits, by simp, after _, ?_⟩, ?_, length⟩
    · intro _ hhead
      obtain ⟨tail, htail⟩ := List.head?_eq_some_iff.1 hhead
      exact hpoint tail htail
    · simp only [Literal.chars, List.append_nil, List.append_assoc, split]

theorem literalsFrom_scan (fuel : Nat) (s : List Char) (h : s.length ≤ fuel) :
    Scan s (literalsFrom fuel s) := by
  induction fuel generalizing s with
  | zero =>
    obtain rfl := List.length_eq_zero_iff.1 (Nat.le_zero.1 h)
    exact .done (by simp)
  | succ fuel ih =>
    -- A literal after an empty gap, whichever sign it has.
    have taken : ∀ negative c t l rest, isDigit c → t.length ≤ fuel →
        spanLiteral negative (c :: t) = (l, rest) →
        Scan ((if negative then ['-'] else []) ++ c :: t) (l :: literalsFrom fuel rest) := by
      intro negative c t l rest hc ht hl
      obtain ⟨begins, text, shorter⟩ := spanLiteral_begins hc hl
      rw [text]
      exact .found begins (ih rest (by omega))
    unfold literalsFrom
    split
    · contradiction
    · exact .done (by simp)
    · rename_i _ c rest hf
      cases hf
      simp only [List.length_cons] at h
      split_ifs with hc
      · exact taken true c rest _ _ hc (by omega) rfl
      · refine (ih (c :: rest) (by simp; omega)).cons (by decide) ?_
        rintro - d ⟨⟩
        simpa using hc
    · rename_i _ c rest hsign hf
      cases hf
      simp only [List.length_cons] at h
      split_ifs with hc
      · exact taken false c rest _ _ hc (by omega) rfl
      · refine (ih rest (by omega)).cons (by simpa using hc) ?_
        rintro rfl d hd
        cases rest with
        | nil => cases hd
        | cons e more => exact absurd rfl (hsign e more rfl)

theorem literalsFrom_nil (fuel : Nat) : literalsFrom fuel [] = [] := by
  cases fuel <;> rfl

/-- Digits by themselves are one literal. -/
theorem literals_digits {digits : List Char} (hne : digits ≠ [])
    (hd : ∀ c ∈ digits, isDigit c) : literals (String.ofList digits) = [⟨false, digits, none⟩] := by
  have span : spanLiteral false digits = (⟨false, digits, none⟩, []) := by
    simp [spanLiteral, List.takeWhile_eq_self_iff.2 hd, List.dropWhile_eq_nil_iff.2 hd]
  obtain ⟨c, rest, rfl⟩ := List.exists_cons_of_ne_nil hne
  have hc := hd c (by simp)
  have sign : c ≠ '-' := by
    rintro rfl
    exact absurd hc (by decide)
  rw [literals, String.toList_ofList, String.length_ofList, List.length_cons, literalsFrom]
  · simp [hc, span, literalsFrom_nil]
  · intro d more h
    exact absurd h sign

/-- The scan of a text finds its literals. -/
theorem literals_scan (text : String) : Scan text.toList (literals text) :=
  literalsFrom_scan _ _ String.length_toList.le

end Reckoner
