-- The numbers of a text, one and all. A text can be scanned in one way only, no digit of it is left
-- out, and whole numbers that are written apart from one another are found again.
import Reckoner.Proofs.Question.Literals
import Reckoner.Proofs.Reading.Words

namespace Reckoner

/-! ## One way to scan -/

/-- A longest part of a text is one part only. -/
theorem span_unique {p : Char → Bool} {a b a' b' : List Char} (ha : ∀ c ∈ a, p c = true)
    (hb : ∀ c ∈ b.head?, p c = false) (ha' : ∀ c ∈ a', p c = true)
    (hb' : ∀ c ∈ b'.head?, p c = false) (h : a ++ b = a' ++ b') : a = a' ∧ b = b' := by
  have front : ∀ {l m : List Char}, (∀ c ∈ l, p c = true) → (∀ c ∈ m.head?, p c = false) →
      (l ++ m).takeWhile p = l := by
    intro l m hl hm
    rw [List.takeWhile_append_of_pos hl]
    cases m with
    | nil => rw [List.takeWhile_nil, List.append_nil]
    | cons c m => rw [List.takeWhile_cons_of_neg (by simp [hm c rfl]), List.append_nil]
  have same : a = a' := by rw [← front ha hb, h, front ha' hb']
  subst same
  exact ⟨rfl, List.append_cancel_left h⟩

namespace Literal

/-- The minus sign before the digits. -/
def sign (l : Literal) : List Char := if l.negative then ['-'] else []

/-- What stands after the first digits: the point and the digits after it. -/
def fraction (l : Literal) : List Char :=
  match l.part with
  | some part => '.' :: part
  | none => []

theorem chars_eq (l : Literal) : l.chars = l.sign ++ l.whole ++ l.fraction := rfl

/-- All digits of the literal. -/
def digits (l : Literal) : List Char := l.whole ++ l.part.getD []

end Literal

namespace Begins

variable {gap gap' rest rest' : List Char} {l l' : Literal}

/-- The sign belongs to what stands before the first digit. -/
theorem before_digits (h : Begins gap l rest) : ∀ c ∈ gap ++ l.sign, isDigit c = false := by
  have minus : isDigit '-' = false := by decide
  refine List.forall_mem_append.2 ⟨h.gap_plain, ?_⟩
  unfold Literal.sign
  split_ifs <;> simp [minus]

theorem after_digits (h : Begins gap l rest) :
    ∀ c ∈ (l.fraction ++ rest).head?, isDigit c = false := by
  unfold Literal.fraction
  cases l.part with
  | none => exact h.digits_taken
  | some part =>
    rintro c ⟨⟩
    decide

/-- The text before the digits is a gap with a sign behind it in one way only. -/
theorem sign_unique (h : Begins gap l rest) (h' : Begins gap' l' rest')
    (same : gap ++ l.sign = gap' ++ l'.sign) : gap = gap' ∧ l.negative = l'.negative := by
  have last : ∀ g : List Char, (g ++ ['-']).getLast? = some '-' := fun g => List.getLast?_concat
  unfold Literal.sign at same
  cases negative : l.negative <;> cases negative' : l'.negative <;>
    simp only [negative, negative', if_true, if_false, List.append_nil, Bool.false_eq_true] at same
  · exact ⟨same, rfl⟩
  · exact absurd (same ▸ last gap') (h.sign_taken negative)
  · exact absurd (same ▸ last gap) (h'.sign_taken negative')
  · exact ⟨List.append_cancel_right same, rfl⟩

theorem part_unique (h : Begins gap l rest) (h' : Begins gap' l' rest')
    (same : l.fraction ++ rest = l'.fraction ++ rest') : l.part = l'.part ∧ rest = rest' := by
  unfold Literal.fraction at same
  cases part : l.part with
  | none =>
    cases part' : l'.part with
    | none =>
      simp only [part, part', List.nil_append] at same
      exact ⟨rfl, same⟩
    | some p =>
      simp only [part, part', List.nil_append] at same
      exact absurd (by simp [same]) (h.point_taken part)
  | some p =>
    cases part' : l'.part with
    | none =>
      simp only [part, part', List.nil_append] at same
      exact absurd (by simp [← same]) (h'.point_taken part')
    | some p' =>
      simp only [part, part', List.cons_append, List.cons.injEq, true_and] at same
      obtain ⟨rfl, rfl⟩ := span_unique (h.part_digits p part) h.digits_taken
        (h'.part_digits p' part') h'.digits_taken same
      exact ⟨rfl, rfl⟩

/-- The first literal of a text is one literal only. -/
theorem unique (h : Begins gap l rest) (h' : Begins gap' l' rest')
    (same : gap ++ l.chars ++ rest = gap' ++ l'.chars ++ rest') : l = l' ∧ rest = rest' := by
  have apart : ∀ (g : List Char) (m : Literal) (r : List Char),
      g ++ m.chars ++ r = (g ++ m.sign) ++ (m.whole ++ (m.fraction ++ r)) := by
    intro g m r
    simp [Literal.chars_eq]
  have starts : ∀ {g r : List Char} {m : Literal}, Begins g m r →
      ∀ c ∈ (m.whole ++ (m.fraction ++ r)).head?, (!isDigit c) = false := by
    intro g r m hm c hc
    rw [List.head?_append_of_ne_nil _ hm.whole_ne] at hc
    simpa using hm.whole_digits c (List.mem_of_mem_head? hc)
  rw [apart, apart] at same
  obtain ⟨front, same⟩ := span_unique (p := fun c => !isDigit c) (by simpa using h.before_digits)
    (starts h) (by simpa using h'.before_digits) (starts h') same
  obtain ⟨whole, same⟩ := span_unique h.whole_digits h.after_digits h'.whole_digits
    h'.after_digits same
  obtain ⟨-, negative⟩ := h.sign_unique h' front
  obtain ⟨part, rest⟩ := h.part_unique h' same
  exact ⟨by rw [Literal.mk.injEq]; exact ⟨negative, whole, part⟩, rest⟩

end Begins

section Scans

variable {s : List Char} {ls ms : List Literal}

theorem scan_iff : Scan s ls ↔ (ls = [] ∧ ∀ c ∈ s, isDigit c = false) ∨
    ∃ gap l rest more, s = gap ++ l.chars ++ rest ∧ ls = l :: more ∧ Begins gap l rest ∧
      Scan rest more := by
  constructor
  · intro h
    cases h with
    | done h => exact .inl ⟨rfl, h⟩
    | found hb hm => exact .inr ⟨_, _, _, _, rfl, rfl, hb, hm⟩
  · rintro (⟨rfl, h⟩ | ⟨gap, l, rest, more, rfl, rfl, hb, hm⟩)
    · exact .done h
    · exact .found hb hm

theorem Begins.exists_digit {gap rest : List Char} {l : Literal} (h : Begins gap l rest) :
    ∃ c ∈ gap ++ l.chars ++ rest, isDigit c = true := by
  obtain ⟨c, hc⟩ := List.exists_mem_of_ne_nil _ h.whole_ne
  exact ⟨c, by simp [Literal.chars, hc], h.whole_digits c hc⟩

theorem Scan.unique (h : Scan s ls) (h' : Scan s ms) : ls = ms := by
  induction h generalizing ms with
  | done plain =>
    rcases scan_iff.1 h' with ⟨rfl, -⟩ | ⟨gap, l, rest, more, rfl, -, hb, -⟩
    · rfl
    · obtain ⟨c, hc, digit⟩ := hb.exists_digit
      rw [plain c hc] at digit
      cases digit
  | found hb hm ih =>
    rcases scan_iff.1 h' with ⟨-, plain⟩ | ⟨gap, l, rest, more, same, rfl, hb', hm'⟩
    · obtain ⟨c, hc, digit⟩ := hb.exists_digit
      rw [plain c hc] at digit
      cases digit
    · obtain ⟨rfl, rfl⟩ := hb.unique hb' same
      rw [ih hm']

/-- The literals of a text are those that a scan finds. -/
theorem scan_text_iff {text : String} : Scan text.toList ls ↔ ls = literals text := by
  constructor
  · exact fun h => h.unique (literals_scan text)
  · rintro rfl
    exact literals_scan text

/-- The digits of the literals are the digits of the text. -/
theorem Scan.digits_eq (h : Scan s ls) : ls.flatMap Literal.digits = s.filter isDigit := by
  induction h with
  | done plain => simpa using plain
  | @found gap rest l more hb _ ih =>
    have before : (gap ++ l.sign).filter isDigit = [] :=
      List.filter_eq_nil_iff.2 fun c hc => by simp [hb.before_digits c hc]
    have whole : l.whole.filter isDigit = l.whole := List.filter_eq_self.2 hb.whole_digits
    have part : l.fraction.filter isDigit = l.part.getD [] := by
      unfold Literal.fraction
      cases hp : l.part with
      | none => rfl
      | some part =>
        have point : isDigit '.' = false := by decide
        rw [List.filter_cons_of_neg (by simp [point]), Option.getD_some]
        exact List.filter_eq_self.2 (hb.part_digits part hp)
    rw [List.flatMap_cons, ih, Literal.chars_eq, ← List.append_assoc, ← List.append_assoc]
    simp only [List.filter_append] at before ⊢
    rw [before, whole, part, List.nil_append, Literal.digits]

end Scans

/-! ## Values -/

/-- What the literal stands for: a whole number where there is no point, and else a measured one. -/
def Literal.denoted (l : Literal) : Value :=
  match l.part with
  | none => .whole l.integer
  | some part => .measure (measuredValue l.negative l.whole part)

theorem Literal.value_denoted {l : Literal} (h : l.Readable) : l.value = .ok l.denoted := by
  cases hp : l.part with
  | some part => rw [value, denoted, hp]
  | none => rw [value_whole hp h, denoted, hp]

theorem literalValues_denoted {ls : List Literal} (h : ∀ l ∈ ls, l.Readable) :
    literalValues ls = .ok (ls.map Literal.denoted) := by
  induction ls with
  | nil => rfl
  | cons l rest ih =>
    obtain ⟨first, later⟩ := List.forall_mem_cons.1 h
    rw [literalValues, Literal.value_denoted first, ih later]
    rfl

/-! ## Whole numbers that are written -/

/-- The literal that a whole number is written as. -/
def Literal.ofInt (n : ℤ) : Literal := ⟨decide (n < 0), digitsOf n.natAbs, none⟩

/-- The digits of the ASCII range are decimal digits with their values. -/
theorem digitValue_of_isAsciiDigit {c : Char} (h : isAsciiDigit c) :
    digitValue? c = some (c.toNat - 48) := by
  have table : (charsBetween 48 57).all (fun c => decide (digitValue? c = some (c.toNat - 48))) = true := by
    decide
  obtain ⟨low, high⟩ := toNat_of_isAsciiDigit h
  simpa using List.all_eq_true.1 table c (mem_charsBetween low high)

theorem isDigit_of_mem_digitsOf {n : ℕ} {c : Char} (h : c ∈ digitsOf n) : isDigit c = true := by
  rw [isDigit, digitValue_of_isAsciiDigit (digitsOf_digits n c h)]
  rfl

theorem digitsValue_digitsOf (n : ℕ) : digitsValue (digitsOf n) = n := by
  refine (List.foldl_ext _ _ _ fun m c hc => ?_).trans (value_digitsOf n)
  have digit := digitsOf_digits _ c hc
  rw [digitValue_of_isAsciiDigit digit, hexValue, if_pos digit, Option.getD_some]

namespace Literal

theorem chars_ofInt (n : ℤ) : (ofInt n).chars = (intText n).toList := by
  unfold ofInt intText chars
  by_cases negative : n < 0 <;> simp [negative, digitsOf]

theorem integer_ofInt (n : ℤ) : (ofInt n).integer = n := by
  simp only [integer, ofInt, digitsValue_digitsOf, decide_eq_true_eq]
  split_ifs <;> omega

/-- A whole number can be read again where it can be written. -/
theorem readable_ofInt {n : ℤ} (h : Writable n) : (ofInt n).Readable := by
  intro _
  change (digitsOf n.natAbs).length ≤ maxDigits
  rwa [digitsOf_eq, Nat.length_toDigits_le_iff (by decide) (by decide), ← writable_iff]

end Literal

/-- Whole numbers one after another; after each but the last stands a text between them. -/
def joinedNumbers : List ℤ → (ℕ → String) → String
  | [], _ => ""
  | [n], _ => intText n
  | n :: m :: rest, between =>
    intText n ++ between 0 ++ joinedNumbers (m :: rest) fun i => between (i + 1)

/-- The text keeps two numbers apart: there is something in it, but no part of a number. -/
structure Separates (s : String) : Prop where
  some : s ≠ ""
  plain : ∀ c ∈ s.toList, isDigit c = false ∧ c ≠ '.' ∧ c ≠ '-'

/-- A text that keeps numbers apart makes the gap before the next one longer. -/
theorem Scan.after_separator {front s : List Char} {ls : List Literal}
    (h : Scan s ls) (plain : ∀ c ∈ front, isDigit c = false ∧ c ≠ '-') : Scan (front ++ s) ls := by
  induction front with
  | nil => exact h
  | cons c front ih =>
    obtain ⟨⟨digit, sign⟩, later⟩ := List.forall_mem_cons.1 plain
    exact (ih later).cons digit fun hc => absurd hc sign

theorem scan_joinedNumbers (ns : List ℤ) {between : ℕ → String} (apart : ∀ i, Separates (between i)) :
    Scan (joinedNumbers ns between).toList (ns.map .ofInt) := by
  -- A number is a literal with no gap before it.
  have begins : ∀ (n : ℤ) (rest : List Char), (∀ c ∈ rest.head?, isDigit c = false) →
      rest.head? ≠ some '.' → Begins [] (.ofInt n) rest := by
    intro n rest digits point
    refine ⟨by simp, by simp, digitsOf_ne_nil _, fun c => isDigit_of_mem_digitsOf, ?_, digits, fun _ => point⟩
    rintro part ⟨⟩
  induction ns using List.twoStepInduction generalizing between with
  | nil => exact .done (by simp [joinedNumbers])
  | singleton n =>
    have one := Scan.found (begins n [] (by simp) (by simp)) (.done (by simp))
    simpa [joinedNumbers, Literal.chars_ofInt] using one
  | cons_cons n m rest _ ih =>
    obtain ⟨c, tail, hc⟩ := List.exists_cons_of_ne_nil
      (mt String.toList_eq_nil_iff.1 (apart 0).some)
    have first := (apart 0).plain c (by simp [hc])
    have later := (ih m fun i => apart (i + 1)).after_separator fun d hd =>
      ⟨((apart 0).plain d hd).1, ((apart 0).plain d hd).2.2⟩
    have number := begins n ((between 0).toList ++
      (joinedNumbers (m :: rest) fun i => between (i + 1)).toList) (by simp [hc, first.1])
      (by simp [hc, first.2.1])
    simpa [joinedNumbers, Literal.chars_ofInt] using Scan.found number later

/-- Nothing is lost and nothing is made up when the numbers of a text are read. The literals are the
one scan of the text: each has an optional minus sign, all the digits that stand together, and a
point with all the digits behind it where one follows. So they hold exactly the digits of the text,
in order. Each stands for a whole number or, with a point, for a double, and there is an outcome unless
a whole number has too many digits. Whole numbers that are written with something between them are
read as they were written. -/
theorem numbers_of_a_text_are_all_there :
    (∀ text : String,
      (∀ ls, Scan text.toList ls ↔ ls = literals text) ∧
      (literals text).flatMap Literal.digits = text.toList.filter isDigit ∧
      ((∀ l ∈ literals text, l.Readable) →
        numbersIn text = .ok ((literals text).map Literal.denoted)) ∧
      ((∃ l ∈ literals text, ¬ l.Readable) ↔ ∃ fault, numbersIn text = .error fault) ∧
      ∀ fault, numbersIn text = .error fault → fault.kind = "ValueError") ∧
    ∀ (ns : List ℤ) (between : ℕ → String), (∀ n ∈ ns, Writable n) → (∀ i, Separates (between i)) →
      numbersIn (joinedNumbers ns between) = .ok (ns.map .whole) := by
  have refused : ∀ text, (∃ l ∈ literals text, ¬ l.Readable) →
      ∃ fault, numbersIn text = .error fault ∧ fault.kind = "ValueError" := by
    intro text h
    obtain ⟨l, -, -, told⟩ := literalValues_of_not_readable h
    exact ⟨_, told, rfl⟩
  have readable_or : ∀ text, (∀ l ∈ literals text, l.Readable) ∨ ∃ l ∈ literals text, ¬ l.Readable := by
    intro text
    by_cases h : ∀ l ∈ literals text, l.Readable
    · exact .inl h
    · exact .inr (by simpa using h)
  refine ⟨fun text => ⟨fun ls => scan_text_iff, (literals_scan text).digits_eq, literalValues_denoted,
    ⟨fun h => ?_, ?_⟩, ?_⟩, ?_⟩
  · obtain ⟨fault, told, -⟩ := refused text h
    exact ⟨fault, told⟩
  · rintro ⟨fault, told⟩
    refine (readable_or text).resolve_left fun all => ?_
    rw [numbersIn, literalValues_denoted all] at told
    cases told
  · intro fault told
    rcases readable_or text with all | some
    · rw [numbersIn, literalValues_denoted all] at told
      cases told
    · obtain ⟨fault', told', kind⟩ := refused text some
      rw [told] at told'
      cases told'
      exact kind
  · intro ns between written apart
    have found := scan_text_iff.1 (scan_joinedNumbers ns apart)
    have readable : ∀ l ∈ ns.map Literal.ofInt, l.Readable := by
      simpa using fun n hn => Literal.readable_ofInt (written n hn)
    rw [numbersIn, ← found, literalValues_denoted readable, List.map_map]
    refine congrArg Except.ok (List.map_congr_left fun n _ => ?_)
    exact congrArg Value.whole (Literal.integer_ofInt n)

end Reckoner
