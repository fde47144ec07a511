-- Texts made up of whole numbers, names and signs, with spaces before them. Both readings of such a
-- text find what it is made up of.
import Mathlib
import Reckoner.Proofs.Reading.PlainNumbers
import Reckoner.Proofs.Text.Letters

namespace Reckoner

/-! ## Digits -/

/-- The digits of a natural number. -/
def digitsOf (n : ℕ) : List Char := (natText n).toList

theorem digitsOf_eq (n : ℕ) : digitsOf n = Nat.toDigits 10 n := by simp [digitsOf, natText]

theorem isAsciiDigit_iff (c : Char) : isAsciiDigit c = c.isDigit := by
  simp [isAsciiDigit, Char.isDigit, Char.le_def]

theorem digitsOf_digits (n : ℕ) : ∀ c ∈ digitsOf n, isAsciiDigit c := by
  intro c hc
  rw [digitsOf_eq] at hc
  rw [isAsciiDigit_iff]
  exact Nat.isDigit_of_mem_toDigits (by decide) (by decide) hc

theorem digitsOf_ne_nil (n : ℕ) : digitsOf n ≠ [] := by
  rw [digitsOf_eq]
  exact Nat.toDigits_ne_nil

/-- A whole number is written with its sign and the digits of its size. -/
theorem chars_intText (n : ℤ) :
    (intText n).toList = (if decide (n < 0) then ['-'] else []) ++ digitsOf n.natAbs := by
  unfold intText
  by_cases negative : n < 0
  · rw [decide_eq_true negative, if_pos negative, if_pos rfl]
    simp [digitsOf]
  · rw [decide_eq_false negative, if_neg negative, if_neg Bool.false_ne_true]
    rfl

theorem value_digitsOf (n : ℕ) : valueInBase 10 (digitsOf n) = n := by
  have same : ∀ (l : List Char) (m : ℕ), (∀ c ∈ l, isAsciiDigit c) →
      l.foldl (fun n c => 10 * n + hexValue c) m = Nat.ofDigitChars 10 l m := by
    intro l
    induction l with
    | nil => exact fun m _ => rfl
    | cons c l ih =>
      intro m hl
      obtain ⟨hc, hl⟩ := List.forall_mem_cons.1 hl
      have value : hexValue c = c.toNat - '0'.toNat := if_pos hc
      rw [List.foldl_cons, ih _ hl, value, Nat.ofDigitChars, Nat.ofDigitChars, List.foldl_cons]
  rw [valueInBase, same _ _ (digitsOf_digits n), digitsOf_eq, Nat.ofDigitChars_ten_toDigits]

/-- Only the digits of zero begin with a zero. -/
theorem digitsOf_of_zero {n : ℕ} {l : List Char} (h : digitsOf n = '0' :: l) : l = [] := by
  rw [digitsOf_eq] at h
  induction n using Nat.strong_induction_on generalizing l with
  | _ n ih =>
    rcases lt_or_ge n 10 with small | large
    · rw [Nat.toDigits_of_lt_base small] at h
      exact (List.cons.inj h).2.symm
    · rw [Nat.toDigits_of_base_le (by decide) large] at h
      obtain ⟨c, front, hfront⟩ :=
        List.exists_cons_of_ne_nil (Nat.toDigits_ne_nil (b := 10) (n := n / 10))
      rw [hfront, List.cons_append] at h
      obtain ⟨rfl, -⟩ := List.cons.inj h
      have alone := ih (n / 10) (by omega) hfront
      have value := Nat.ofDigitChars_ten_toDigits (n := n / 10)
      rw [hfront, alone] at value
      have zero : Nat.ofDigitChars 10 ['0'] 0 = 0 := rfl
      omega

theorem digitsOf_append_of_zero {n : ℕ} {rest tail : List Char}
    (h : digitsOf n ++ rest = '0' :: tail) : digitsOf n = ['0'] ∧ rest = tail := by
  obtain ⟨c, digits, hc⟩ := List.exists_cons_of_ne_nil (digitsOf_ne_nil n)
  rw [hc, List.cons_append] at h
  obtain ⟨rfl, rfl⟩ := List.cons.inj h
  obtain rfl := digitsOf_of_zero hc
  exact ⟨hc, rfl⟩

theorem wholeLiteral_digitsOf (n : ℕ) : wholeLiteral? (natText n) = some n := by
  have value := value_digitsOf n
  have digits := digitsOf_digits n
  unfold digitsOf at *
  unfold wholeLiteral?
  split
  · rename_i c rest h
    exact absurd (digitsOf_of_zero h) (by simp)
  · rw [value, if_pos (List.all_eq_true.2 digits)]

/-! ## Words -/

/-- What a text without blanks and points is made up of. -/
inductive Word where
  | number (n : ℕ)
  | name (s : List Char)
  | sign (o : Operator)
deriving DecidableEq

namespace Word

def chars : Word → List Char
  | number n => digitsOf n
  | name s => s
  | sign o => o.chars

def tokens : Word → List Token
  | number n => [.name "Integer", .op .opening, .literal (natText n), .op .closing]
  | name s => [.name (String.ofList s)]
  | sign o => [.op o]

/-- The symbol that the first reading finds. -/
def symbols : Word → List String
  | name s => if isKnownName (String.ofList s) then [] else [String.ofList s]
  | _ => []

def isOperand : Word → Bool
  | number _ | name _ => true
  | sign _ => false

/-- The word does not become another one with the next. -/
def Apart : Word → Word → Prop
  | sign .times, b => b ≠ sign .times ∧ b ≠ sign .power
  | sign .over, b => b ≠ sign .over ∧ b ≠ sign .wholeOver
  | a, b => ¬ (a.isOperand ∧ b.isOperand)

/-- A name begins with a letter, and the first reading lets it pass. -/
def Allowed (bound : List String) : Word → Prop
  | name s => isName s = true ∧
      (isKnownName (String.ofList s) = true ∨ String.ofList s ∈ bound ∨ s.length = 1)
  | _ => True

end Word

/-- The text of words with so many spaces before each. -/
def wordsText (l : List (ℕ × Word)) : List Char :=
  l.flatMap fun p => List.replicate p.1 ' ' ++ p.2.chars

theorem wordsText_cons (n : ℕ) (w : Word) (l : List (ℕ × Word)) :
    wordsText ((n, w) :: l) = List.replicate n ' ' ++ (w.chars ++ wordsText l) := by
  simp [wordsText]

/-- The words are allowed, and each stands apart from the next. -/
structure WellSpaced (bound : List String) (l : List (ℕ × Word)) : Prop where
  apart : (l.map Prod.snd).IsChain Word.Apart
  allowed : ∀ p ∈ l, p.2.Allowed bound

variable {bound : List String} {w : Word} {l : List (ℕ × Word)} {rest : List Char}

theorem WellSpaced.tail {p : ℕ × Word} (h : WellSpaced bound (p :: l)) : WellSpaced bound l :=
  ⟨h.apart.tail, fun q hq => h.allowed q (List.mem_cons_of_mem p hq)⟩

/-! ## Ends of words -/

/-- What follows an operand goes on neither with a name nor with a number. -/
def EndsOperand (s : List Char) : Prop := ∀ c ∈ s.head?, isNameChar c = false ∧ c ≠ '.'

/-- What follows a word does not become a part of it. -/
def Word.EndsAt (w : Word) (rest : List Char) : Prop :=
  (w.isOperand → EndsOperand rest) ∧ (w = .sign .times → rest.head? ≠ some '*') ∧
    (w = .sign .over → rest.head? ≠ some '/')

theorem isNameChar_of_isName {s : List Char} (h : isName s = true) : ∀ c ∈ s, isNameChar c := by
  obtain ⟨c, rest, rfl⟩ : ∃ c rest, s = c :: rest := by
    cases s with
    | nil => cases h
    | cons c rest => exact ⟨c, rest, rfl⟩
  obtain ⟨letter, later⟩ : isAsciiLetter c = true ∧ ∀ d ∈ rest, isNameChar d = true := by
    simpa [isName] using h
  refine List.forall_mem_cons.2 ⟨?_, later⟩
  simp [isNameChar, letter]

theorem Word.chars_not_isBlank (h : w.Allowed bound) : ∀ c ∈ w.chars, isBlank c = false := by
  have name : ∀ c, isNameChar c → isBlank c = false := fun c hc => by
    by_contra blank
    exact not_isNameChar_of_isBlank (by simpa using blank) hc
  cases w with
  | number n => exact fun c hc => name c (isNameChar_of_isAsciiDigit (digitsOf_digits n c hc))
  | name s => exact fun c hc => name c (isNameChar_of_isName h.1 c hc)
  | sign o =>
    have table : o.chars.all (fun c => !isBlank c) = true := by cases o <;> decide
    exact fun c hc => by simpa using List.all_eq_true.1 table c hc

/-- The first character of a word tells an operand from a sign, and the stars and bars from the
other signs. -/
theorem Word.exists_head (h : w.Allowed bound) : ∃ c more, w.chars = c :: more ∧
    (w.isOperand = false → isNameChar c = false ∧ c ≠ '.') ∧
    (c = '*' → w = .sign .times ∨ w = .sign .power) ∧
    (c = '/' → w = .sign .over ∨ w = .sign .wholeOver) := by
  have operand : ∀ {c : Char}, isNameChar c → c ≠ '*' ∧ c ≠ '/' := by
    rintro c hc
    exact ⟨by rintro rfl; exact absurd hc (by decide), by rintro rfl; exact absurd hc (by decide)⟩
  cases w with
  | number n =>
    obtain ⟨c, more, hc⟩ := List.exists_cons_of_ne_nil (digitsOf_ne_nil n)
    have digit := digitsOf_digits n c (by rw [hc]; exact List.mem_cons_self)
    have other := operand (isNameChar_of_isAsciiDigit digit)
    exact ⟨c, more, hc, (fun no => by cases no), (absurd · other.1), (absurd · other.2)⟩
  | name s =>
    cases s with
    | nil => cases h.1
    | cons c more =>
      have other := operand (isNameChar_of_isName h.1 c List.mem_cons_self)
      exact ⟨c, more, rfl, (fun no => by cases no), (absurd · other.1), (absurd · other.2)⟩
  | sign o => cases o <;> exact ⟨_, _, rfl, by decide, by decide, by decide⟩

theorem Word.chars_ne_nil (h : w.Allowed bound) : w.chars ≠ [] := by
  obtain ⟨c, more, hc, -⟩ := w.exists_head h
  rw [hc]
  exact List.cons_ne_nil c more

theorem Word.Apart.operands {a b : Word} (h : a.Apart b) (ha : a.isOperand) :
    b.isOperand = false := by
  unfold Apart at h
  split at h
  · cases ha
  · cases ha
  · simpa [ha] using h

theorem Word.Apart.stars {b : Word} (h : (sign .times).Apart b) :
    ¬ (b = .sign .times ∨ b = .sign .power) := not_or.2 h

theorem Word.Apart.bars {b : Word} (h : (sign .over).Apart b) :
    ¬ (b = .sign .over ∨ b = .sign .wholeOver) := not_or.2 h

/-- The words that follow do not become a part of a word. -/
theorem WellSpaced.endsAt {n : ℕ} (h : WellSpaced bound ((n, w) :: l)) :
    w.EndsAt (wordsText l) := by
  cases l with
  | nil => simp [Word.EndsAt, wordsText, EndsOperand]
  | cons p l =>
    obtain ⟨k, b⟩ := p
    have apart : w.Apart b := (List.isChain_cons_cons.1 h.apart).1
    obtain ⟨c, more, hb, operand, star, bar⟩ := b.exists_head (h.tail.allowed _ List.mem_cons_self)
    rw [wordsText_cons]
    cases k with
    | zero =>
      rw [hb]
      refine ⟨fun hw d hd => ?_, ?_, ?_⟩
      · obtain rfl : c = d := by simpa using hd
        exact operand (apart.operands hw)
      · rintro rfl hd
        exact apart.stars (star (by simpa using hd))
      · rintro rfl hd
        exact apart.bars (bar (by simpa using hd))
    | succ k =>
      refine ⟨fun _ d hd => ?_, fun _ hd => ?_, fun _ hd => ?_⟩
      · obtain rfl : ' ' = d := by simpa [List.replicate_succ] using hd
        decide
      all_goals simp [List.replicate_succ] at hd

section EndsOperand

variable {p : Char → Bool} {front s : List Char}

/-- Behind an operand no digit or letter follows. -/
theorem EndsOperand.takeWhile (h : EndsOperand s) (hp : ∀ c, p c → isNameChar c)
    (hf : ∀ c ∈ front, p c) : (front ++ s).takeWhile p = front := by
  rw [List.takeWhile_append_of_pos hf, takeWhile_of_head, List.append_nil]
  intro c hc
  by_contra yes
  simpa [hp c (by simpa using yes)] using (h c hc).1

theorem EndsOperand.dropWhile (h : EndsOperand s) (hp : ∀ c, p c → isNameChar c)
    (hf : ∀ c ∈ front, p c) : (front ++ s).dropWhile p = s := by
  have split := List.takeWhile_append_dropWhile (p := p) (l := front ++ s)
  rw [h.takeWhile hp hf] at split
  exact List.append_cancel_left split

end EndsOperand

/-! ## The first reading -/

/-- The first reading finds these symbols. -/
def Scans (bound : List String) (s : List Char) (names : List String) : Prop :=
  ∀ fuel position, s.length ≤ fuel → scanFrom bound fuel position s = .ok names

theorem Scans.piece {p : Piece} {names : List String} (leads : p.Leads rest)
    (allowed : p.Allowed bound) (h : Scans bound rest names) :
    Scans bound (p.chars ++ rest) (p.symbols ++ names) := by
  intro fuel position hs
  have positive := leads.length_pos
  rw [List.length_append] at hs
  obtain ⟨fuel, rfl⟩ : ∃ k, fuel = k + 1 := ⟨fuel - 1, by omega⟩
  rw [scanFrom_leads leads, Piece.symbolOf_allowed allowed, h fuel _ (by omega)]
  rfl

theorem Scans.spaces {names : List String} (hr : ∀ c ∈ rest.head?, isBlank c = false)
    (h : Scans bound rest names) (n : ℕ) : Scans bound (List.replicate n ' ' ++ rest) names := by
  cases n with
  | zero => exact h
  | succ n =>
    have blanks : ∀ c ∈ List.replicate n ' ', isBlank c := by
      intro c hc
      rw [List.eq_of_mem_replicate hc]
      decide
    have leads := @blanks_lead ' ' (List.replicate n ' ' ++ rest) (by decide)
    rw [List.takeWhile_append_of_pos blanks, takeWhile_of_head hr, List.append_nil,
      List.dropWhile_append_of_pos blanks, List.dropWhile_eq_self_iff.2] at leads
    · exact Scans.piece leads (fun no => by cases no) h
    · intro hl
      simpa using hr rest[0] (by simp [List.head?_eq_getElem?])

theorem numberFrom_digits {digits : List Char} (h : EndsOperand rest) :
    numberFrom digits rest = (⟨.number, digits⟩, rest) := by
  unfold numberFrom
  split
  · exact absurd rfl (h '.' rfl).2
  · rfl

theorem Scans.sign {names : List String} (c : Char) (sign : isSign c)
    (star : ¬ (c = '*' ∧ rest.head? = some '*')) (h : Scans bound rest names) :
    Scans bound (c :: rest) names := by
  have table : ['+', '-', '*', '/', '^', '(', ')'].all (fun c =>
      !isBlank c && !isAsciiDigit c && c != '.') = true := by decide
  have other := List.all_eq_true.1 table c (by simpa [isSign] using sign)
  simp only [Bool.and_eq_true, Bool.not_eq_true', bne_iff_ne] at other
  exact Scans.piece (sign_leads (by simp [other.1.1]) (by simp [other.1.2]) other.2 star sign)
    (fun no => by cases no) h

theorem Scans.word {names : List String} (allowed : w.Allowed bound) (ends : w.EndsAt rest)
    (h : Scans bound rest names) : Scans bound (w.chars ++ rest) (w.symbols ++ names) := by
  cases w with
  | number n =>
    have behind := ends.1 rfl
    obtain ⟨c, digits, hc⟩ := List.exists_cons_of_ne_nil (digitsOf_ne_nil n)
    have all := digitsOf_digits n
    rw [hc] at all
    obtain ⟨first, later⟩ := List.forall_mem_cons.1 all
    have blank : ¬ isBlank c := fun blank =>
      not_isNameChar_of_isBlank blank (isNameChar_of_isAsciiDigit first)
    have leads := @number_leads c (digits ++ rest) blank first
    rw [behind.takeWhile (fun _ => isNameChar_of_isAsciiDigit) later,
      behind.dropWhile (fun _ => isNameChar_of_isAsciiDigit) later, numberFrom_digits behind] at leads
    change Scans bound (digitsOf n ++ rest) names
    rw [hc]
    exact Scans.piece leads (fun no => by cases no) h
  | name s =>
    obtain ⟨name, known⟩ := allowed
    cases s with
    | nil => cases name
    | cons c more =>
      obtain ⟨letter, later⟩ : isAsciiLetter c = true ∧ ∀ d ∈ more, isNameChar d = true := by
        simpa [isName] using name
      have digit : ¬ isAsciiDigit c := fun digit => by
        have := toNat_of_isAsciiDigit digit
        have := toNat_of_isAsciiLetter letter
        omega
      have leads := @name_leads c (more ++ rest) (not_isBlank_of_isAsciiLetter letter) digit letter
      rw [(ends.1 rfl).takeWhile (fun _ => id) later, (ends.1 rfl).dropWhile (fun _ => id) later]
        at leads
      have symbols : (⟨.name, c :: more⟩ : Piece).symbols = (Word.name (c :: more)).symbols := by
        rw [Piece.symbols, Word.symbols, ← ite_not]
        refine if_congr ?_ rfl rfl
        simpa [Piece.IsSymbol, isKnownName, Piece.text] using or_iff_not_imp_left.symm
      rw [← symbols]
      refine Scans.piece leads (fun _ => ?_) h
      simpa [isKnownName, Piece.text, or_assoc] using known
  | sign o =>
    cases o with
    | power => exact Scans.piece power_leads (fun no => by cases no) h
    | times => exact h.sign '*' (by decide) fun star => ends.2.1 rfl star.2
    | wholeOver => exact (h.sign '/' (by decide) (by simp)).sign '/' (by decide) (by simp)
    | _ => exact h.sign _ (by decide) (by simp)

theorem head_wordsText (allowed : w.Allowed bound) (rest : List Char) :
    ∀ c ∈ (w.chars ++ rest).head?, isBlank c = false := by
  obtain ⟨c, more, hc, -⟩ := w.exists_head allowed
  intro d hd
  have first : d ∈ w.chars := by
    rw [hc] at hd ⊢
    obtain rfl : c = d := by simpa using hd
    exact List.mem_cons_self
  exact w.chars_not_isBlank allowed d first

/-- The first reading goes over all words. -/
theorem WellSpaced.scans (h : WellSpaced bound l) :
    Scans bound (wordsText l) (l.flatMap fun p => p.2.symbols) := by
  induction l with
  | nil =>
    intro fuel position _
    cases fuel <;> rfl
  | cons p l ih =>
    obtain ⟨n, w⟩ := p
    have allowed := h.allowed _ List.mem_cons_self
    rw [wordsText_cons, List.flatMap_cons]
    exact ((ih h.tail).word allowed h.endsAt).spaces (head_wordsText allowed _) n

theorem WellSpaced.symbolNames (h : WellSpaced bound l) (short : (wordsText l).length ≤ 500) :
    symbolNames (String.ofList (wordsText l)) bound =
      .ok (sortNames (l.flatMap fun p => p.2.symbols)) := by
  unfold Reckoner.symbolNames
  simp only [String.toList_ofList]
  rw [if_neg (show ¬ maxTextLength < _ from not_lt.2 short), h.scans _ 0 le_rfl]
  rfl

/-! ## The second reading -/

/-- The second reading finds the tokens. -/
def Lexes (s : List Char) (tokens : List Token) : Prop :=
  ∀ fuel, s.length ≤ fuel → tokensFrom fuel s = some tokens

theorem Lexes.spaces {tokens : List Token} (h : Lexes rest tokens) (n : ℕ) :
    Lexes (List.replicate n ' ' ++ rest) tokens := by
  induction n with
  | zero => exact h
  | succ n ih =>
    intro fuel hs
    rw [List.replicate_succ, List.cons_append, List.length_cons] at hs
    obtain ⟨fuel, rfl⟩ : ∃ k, fuel = k + 1 := ⟨fuel - 1, by omega⟩
    exact ih fuel (by omega)

theorem EndsOperand.ne {c d : Char} (h : EndsOperand (c :: rest)) (hd : isNameChar d) : c ≠ d := by
  rintro rfl
  simpa [hd] using (h c rfl).1

theorem EndsOperand.spanExponent {s : List Char} (h : EndsOperand s) :
    spanExponent s = ([], s) := by
  cases s with
  | nil => rfl
  | cons c more => simp [Reckoner.spanExponent, h.ne (d := 'e') (by decide), h.ne (d := 'E') (by decide)]

theorem spanDigits_digitsOf (n : ℕ) (h : EndsOperand rest) :
    spanDigits (digitsOf n ++ rest) = (digitsOf n, rest) := by
  rw [spanDigits, h.takeWhile (fun _ => isNameChar_of_isAsciiDigit) (digitsOf_digits n),
    h.dropWhile (fun _ => isNameChar_of_isAsciiDigit) (digitsOf_digits n)]

theorem spanWhole_digitsOf (n : ℕ) (h : EndsOperand rest) :
    spanWhole (digitsOf n ++ rest) = (digitsOf n, rest) := by
  unfold spanWhole
  split
  · rename_i tail hs
    obtain ⟨hc, -⟩ := digitsOf_append_of_zero hs
    have zero : ∀ c, (c == '0') = true → isNameChar c := by
      intro c hc
      rw [beq_iff_eq.1 hc]
      decide
    rw [hc, h.takeWhile zero (by simp), h.dropWhile zero (by simp)]
  · exact spanDigits_digitsOf n h

/-- The second reading takes all digits of a number and nothing else. -/
theorem spanNumber_digitsOf (n : ℕ) (h : EndsOperand rest) :
    spanNumber (digitsOf n ++ rest) = (digitsOf n, rest) := by
  have decimal : spanDecimal? (digitsOf n ++ rest) = none := by
    unfold spanDecimal?
    rw [spanDigits_digitsOf n h]
    dsimp only
    split
    · exact absurd rfl (h '.' rfl).2
    · rw [h.spanExponent]
      simp
  have based : spanBased? (digitsOf n ++ rest) = none := by
    unfold spanBased?
    split
    · rename_i mark tail hs
      obtain ⟨-, rfl⟩ := digitsOf_append_of_zero hs
      have other := fun {d : Char} => h.ne (d := d)
      simp [other (d := 'x') (by decide), other (d := 'X') (by decide), other (d := 'b') (by decide),
        other (d := 'B') (by decide), other (d := 'o') (by decide), other (d := 'O') (by decide)]
    · rfl
  have whole : (digitsOf n).isEmpty = false := by simpa using digitsOf_ne_nil n
  have unmarked : ∀ c tail, rest = c :: tail → isImaginaryMark c = false := by
    rintro c tail rfl
    simp [isImaginaryMark, h.ne (d := 'j') (by decide), h.ne (d := 'J') (by decide)]
  unfold spanNumber
  rw [decimal, based, spanDigits_digitsOf n h, spanWhole_digitsOf n h]
  dsimp only
  rw [whole]
  cases rest with
  | nil => rfl
  | cons c tail => simp [unmarked c tail rfl]

theorem numberTokens_digitsOf (n : ℕ) : numberTokens (digitsOf n) = (Word.number n).tokens := by
  have digits := digitsOf_digits n
  have none : ∀ c, ¬ isAsciiDigit c → (digitsOf n).contains c = false := by
    intro c hc
    simpa using mt (digits c) hc
  have unmarked : (digitsOf n).getLast?.any isImaginaryMark = false := by
    cases hlast : (digitsOf n).getLast? with
    | none => rfl
    | some c =>
      rw [Option.any_some, ← Bool.not_eq_true]
      intro mark
      have digit := digits c (List.mem_of_getLast? hlast)
      rcases (by simpa [isImaginaryMark] using mark : c = 'j' ∨ c = 'J') with rfl | rfl <;>
        exact absurd digit (by decide)
  unfold numberTokens
  simp only [unmarked, none '.' (by decide), none 'e' (by decide), none 'E' (by decide),
    Bool.false_eq_true, ↓reduceIte, Bool.or_self, Bool.false_and, List.append_nil]
  rw [digitsOf, String.ofList_toList]
  rfl

theorem tokensFrom_number {fuel : ℕ} {c : Char} {number more : List Char}
    (hc : isAsciiDigit c) (span : spanNumber (c :: rest) = (number, more)) (hne : number ≠ []) :
    tokensFrom (fuel + 1) (c :: rest) = (tokensFrom fuel more).map (numberTokens number ++ ·) := by
  have other : ∀ d : Char, ¬ isAsciiDigit d → c ≠ d := by
    rintro d hd rfl
    exact hd hc
  rw [tokensFrom]
  · simp [span, hc, hne, other ' ' (by decide), other '\t' (by decide), other '\x0c' (by decide),
      other '\n' (by decide), other '\x0d' (by decide)]
  -- no sign is a digit
  all_goals first
    | exact other _ (by decide)
    | exact fun _ h _ => other _ (by decide) h

theorem tokensFrom_name {fuel : ℕ} {c : Char} (hc : isAsciiLetter c) :
    tokensFrom (fuel + 1) (c :: rest) = (tokensFrom fuel (rest.dropWhile isNameChar)).map
      (Token.name (String.ofList (c :: rest.takeWhile isNameChar)) :: ·) := by
  have other : ∀ d : Char, ¬ isAsciiLetter d → c ≠ d := by
    rintro d hd rfl
    exact hd hc
  have digit : isAsciiDigit c = false := by
    by_contra digit
    have := toNat_of_isAsciiDigit (by simpa using digit)
    have := toNat_of_isAsciiLetter hc
    omega
  rw [tokensFrom]
  · simp [hc, digit, other ' ' (by decide), other '\t' (by decide), other '\x0c' (by decide),
      other '\n' (by decide), other '\x0d' (by decide), other '.' (by decide)]
  -- no sign is a letter
  all_goals first
    | exact other _ (by decide)
    | exact fun _ h _ => other _ (by decide) h

/-- A star or a bar before another character is a sign by itself. -/
theorem tokensFrom_alone {fuel : ℕ} {o : Operator} {c : Char} (ho : o.chars = [c])
    (apart : c = '*' ∨ c = '/' → rest.head? ≠ some c) :
    tokensFrom (fuel + 1) (c :: rest) = (tokensFrom fuel rest).map (Token.op o :: ·) := by
  match o with
  | .times =>
    obtain rfl : '*' = c := List.singleton_inj.1 ho
    rw [tokensFrom]
    · simp [isAsciiDigit, isAsciiLetter]
    · rintro more rfl
      exact apart (.inl rfl) rfl
  | .over =>
    obtain rfl : '/' = c := List.singleton_inj.1 ho
    rw [tokensFrom]
    · simp [isAsciiDigit, isAsciiLetter]
    · rintro more rfl
      exact apart (.inr rfl) rfl
  | .power | .wholeOver => simp [Operator.chars] at ho
  | .plus | .minus | .caret | .opening | .closing =>
    obtain rfl := List.singleton_inj.1 ho
    rfl

theorem Lexes.word {tokens : List Token} (allowed : w.Allowed bound) (ends : w.EndsAt rest)
    (h : Lexes rest tokens) : Lexes (w.chars ++ rest) (w.tokens ++ tokens) := by
  intro fuel hs
  obtain ⟨c, more, hc, -⟩ := w.exists_head allowed
  rw [List.length_append, hc, List.length_cons] at hs
  obtain ⟨fuel, rfl⟩ : ∃ k, fuel = k + 1 := ⟨fuel - 1, by omega⟩
  have next : tokensFrom fuel rest = some tokens := h fuel (by omega)
  cases w with
  | number n =>
    have span := spanNumber_digitsOf n (ends.1 rfl)
    have digit := digitsOf_digits n
    change digitsOf n = c :: more at hc
    change tokensFrom (fuel + 1) (digitsOf n ++ rest) = _
    rw [hc] at span digit ⊢
    rw [List.cons_append] at span ⊢
    rw [tokensFrom_number (digit c List.mem_cons_self) span (by simp), next, ← hc,
      numberTokens_digitsOf]
    rfl
  | name s =>
    obtain rfl : s = c :: more := hc
    obtain ⟨letter, later⟩ : isAsciiLetter c = true ∧ ∀ d ∈ more, isNameChar d = true := by
      simpa [isName] using allowed.1
    change tokensFrom (fuel + 1) (c :: (more ++ rest)) = _
    rw [tokensFrom_name letter, (ends.1 rfl).takeWhile (fun _ => id) later,
      (ends.1 rfl).dropWhile (fun _ => id) later, next]
    rfl
  | sign o =>
    cases o with
    | times =>
      change tokensFrom (fuel + 1) ('*' :: rest) = _
      rw [tokensFrom_alone (o := .times) rfl fun _ => ends.2.1 rfl, next]
      rfl
    | «over» =>
      change tokensFrom (fuel + 1) ('/' :: rest) = _
      rw [tokensFrom_alone (o := .over) rfl fun _ => ends.2.2 rfl, next]
      rfl
    | _ =>
      change (tokensFrom fuel rest).map _ = _
      rw [next]
      rfl

/-- The tokens of words up to the end of a text. -/
def wordsTokens (ws : List Word) : List Token := ws.flatMap Word.tokens ++ [.finish, .finish]

theorem WellSpaced.lexes (h : WellSpaced bound l) :
    Lexes (wordsText l) (wordsTokens (l.map Prod.snd)) := by
  induction l with
  | nil =>
    intro fuel _
    cases fuel <;> rfl
  | cons p l ih =>
    obtain ⟨n, w⟩ := p
    have tokens : wordsTokens (((n, w) :: l).map Prod.snd) =
        w.tokens ++ wordsTokens (l.map Prod.snd) := by simp [wordsTokens]
    rw [wordsText_cons, tokens]
    exact ((ih h.tail).word (h.allowed _ List.mem_cons_self) h.endsAt).spaces n

/-! ## Texts without blanks around them -/

theorem last_wordsText (h : WellSpaced bound l) (hne : l ≠ []) :
    ∀ c ∈ (wordsText l).getLast?, isBlank c = false := by
  obtain ⟨front, ⟨n, w⟩, rfl⟩ := (List.eq_nil_or_concat' l).resolve_left hne
  have allowed := h.allowed (n, w) (by simp)
  have text : wordsText (front ++ [(n, w)]) =
      wordsText front ++ List.replicate n ' ' ++ w.chars := by simp [wordsText]
  intro c hc
  rw [text, List.getLast?_append_of_ne_nil _ (w.chars_ne_nil allowed)] at hc
  exact w.chars_not_isBlank allowed c (List.mem_of_getLast? hc)

/-- Spaces before the first word and behind the last one are left out. -/
theorem WellSpaced.stripBlank {n : ℕ} (h : WellSpaced bound ((n, w) :: l)) (k : ℕ) :
    stripBlank (wordsText ((n, w) :: l) ++ List.replicate k ' ') = wordsText ((0, w) :: l) := by
  have blanks : ∀ k, ∀ c ∈ List.replicate k ' ', isBlank c := by
    intro k c hc
    rw [List.eq_of_mem_replicate hc]
    decide
  have allowed := h.allowed _ List.mem_cons_self
  have whole : wordsText ((0, w) :: l) = w.chars ++ wordsText l := wordsText_cons 0 w l
  have alone : WellSpaced bound ((0, w) :: l) := ⟨h.apart, List.forall_mem_cons.2
    ⟨allowed, h.tail.allowed⟩⟩
  rw [wordsText_cons, ← whole, List.append_assoc]
  refine stripBlank_around (blanks n) (blanks k) ?_ ?_ (last_wordsText alone (List.cons_ne_nil _ _))
  · simp [whole, w.chars_ne_nil allowed]
  · rw [whole]
    exact head_wordsText allowed _

theorem WellSpaced.stripBlank_ne_nil (h : WellSpaced bound l) (hne : l ≠ []) :
    Reckoner.stripBlank (wordsText l) ≠ [] := by
  obtain ⟨⟨n, w⟩, rest, rfl⟩ := List.exists_cons_of_ne_nil hne
  have strip := h.stripBlank 0
  rw [List.replicate_zero, List.append_nil] at strip
  rw [strip, wordsText_cons]
  simp [w.chars_ne_nil (h.allowed _ List.mem_cons_self)]

theorem WellSpaced.tokensOf (h : WellSpaced bound l) :
    tokensOf (String.ofList (wordsText l)) = some (wordsTokens (l.map Prod.snd)) := by
  cases l with
  | nil => rfl
  | cons p l =>
    obtain ⟨n, w⟩ := p
    have strip := h.stripBlank 0
    rw [List.replicate_zero, List.append_nil] at strip
    have alone : WellSpaced bound ((0, w) :: l) := ⟨h.apart, List.forall_mem_cons.2
      ⟨h.allowed (n, w) List.mem_cons_self, h.tail.allowed⟩⟩
    rw [Reckoner.tokensOf, String.toList_ofList, strip]
    exact alone.lexes _ le_rfl

end Reckoner
