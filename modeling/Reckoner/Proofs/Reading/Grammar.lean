-- The grammar of a text that is read. It is cut into pieces from left to right: the forms of a
-- piece are tried in their order, and the first that fits takes as much as it can. The first
-- reading of a text finds these pieces, the names among them, or the first fault.
import Mathlib
import Reckoner.Proofs.Text.Blanks
import Reckoner.Reading.Names
import Reckoner.Fault.Basic

namespace Reckoner

/-! ## The forms of a piece -/

/-- The form of a piece of a text. -/
inductive PieceForm where
  | blanks
  /-- Digits, and a point and more digits after them if a point follows. -/
  | number
  /-- A point and digits. -/
  | fraction
  /-- The sign of a power that is two characters long. -/
  | power
  | sign
  | name
deriving DecidableEq

namespace PieceForm

/-- The forms that are tried before. -/
def before : PieceForm → List PieceForm
  | blanks => []
  | number => [blanks]
  | fraction => [blanks, number]
  | power => [blanks, number, fraction]
  | sign => [blanks, number, fraction, power]
  | name => [blanks, number, fraction, power, sign]

/-- The texts of a form. -/
def Fits : PieceForm → List Char → Prop
  | blanks, s => s ≠ [] ∧ ∀ c ∈ s, isBlank c
  | number, s => ∃ digits more, digits ≠ [] ∧ (∀ c ∈ digits, isAsciiDigit c) ∧
      (∀ c ∈ more, isAsciiDigit c) ∧ (s = digits ∨ s = digits ++ '.' :: more)
  | fraction, s => ∃ digits, digits ≠ [] ∧ (∀ c ∈ digits, isAsciiDigit c) ∧ s = '.' :: digits
  | power, s => s = ['*', '*']
  | sign, s => ∃ c, isSign c ∧ s = [c]
  | name, s => ∃ c rest, isAsciiLetter c ∧ (∀ d ∈ rest, isNameChar d) ∧ s = c :: rest

/-- The characters that a form begins with. -/
def Begins : PieceForm → Char → Prop
  | blanks, c => isBlank c
  | number, c => isAsciiDigit c
  | fraction, c => c = '.'
  | power, c => c = '*'
  | sign, c => isSign c
  | name, c => isAsciiLetter c

/-- The kind of the lexeme that a form makes. -/
def kind : PieceForm → LexemeKind
  | blanks => .blank
  | number | fraction => .number
  | power | sign => .sign
  | name => .name

theorem Fits.ne_nil {f : PieceForm} {s : List Char} (h : f.Fits s) : s ≠ [] := by
  cases f with
  | blanks => exact h.1
  | number =>
    obtain ⟨digits, more, hne, -, -, rfl | rfl⟩ := h
    · exact hne
    · simp
  | fraction =>
    obtain ⟨digits, -, -, rfl⟩ := h
    simp
  | power =>
    rw [Fits] at h
    simp [h]
  | sign =>
    obtain ⟨c, -, rfl⟩ := h
    simp
  | name =>
    obtain ⟨c, rest, -, -, rfl⟩ := h
    simp

/-- What begins a text has a form only if its first character can begin the form. -/
theorem Fits.begins {f : PieceForm} {s rest : List Char} {c : Char} (h : f.Fits s)
    (hs : s <+: c :: rest) : f.Begins c := by
  obtain ⟨d, t, rfl⟩ := List.exists_cons_of_ne_nil h.ne_nil
  obtain rfl : d = c := (List.cons_prefix_cons.1 hs).1
  cases f with
  | blanks => exact h.2 d List.mem_cons_self
  | number =>
    obtain ⟨digits, more, hne, hd, -, hs⟩ := h
    obtain ⟨e, digits, rfl⟩ := List.exists_cons_of_ne_nil hne
    obtain rfl : d = e := by rcases hs with hs | hs <;> exact (List.cons.inj hs).1
    exact hd d List.mem_cons_self
  | fraction =>
    obtain ⟨digits, -, -, hs⟩ := h
    exact (List.cons.inj hs).1
  | power => exact (List.cons.inj h).1
  | sign =>
    obtain ⟨e, he, hs⟩ := h
    exact (List.cons.inj hs).1 ▸ he
  | name =>
    obtain ⟨e, rest, he, -, hs⟩ := h
    exact (List.cons.inj hs).1 ▸ he

end PieceForm

/-! ## Pieces -/

/-- A piece of a text. -/
structure Piece where
  form : PieceForm
  chars : List Char

/-- The piece comes first in a text: no form that is tried before has a text there, and no longer
text has the form. -/
structure Piece.Leads (p : Piece) (rest : List Char) : Prop where
  fits : p.form.Fits p.chars
  longest : ∀ s, s <+: p.chars ++ rest → p.form.Fits s → s.length ≤ p.chars.length
  first : ∀ f ∈ p.form.before, ∀ s, s <+: p.chars ++ rest → ¬ f.Fits s

/-- No form has a text at the beginning. -/
def NoPiece (s : List Char) : Prop := ∀ f : PieceForm, ∀ t, t <+: s → ¬ f.Fits t

/-- The pieces of a text from left to right, up to a rest. -/
inductive Cuts : List Char → List Piece → List Char → Prop where
  | stop (s : List Char) : Cuts s [] s
  | piece {p : Piece} {rest last : List Char} {more : List Piece} :
    p.Leads rest → Cuts rest more last → Cuts (p.chars ++ rest) (p :: more) last

/-- Of two forms, one is tried before the other. -/
theorem PieceForm.eq_or_before (f g : PieceForm) :
    f = g ∨ f ∈ g.before ∨ g ∈ f.before := by
  cases f <;> cases g <;> decide

/-- Only one piece comes first in a text. -/
theorem Piece.Leads.unique {p q : Piece} {rest more : List Char} (hp : p.Leads rest)
    (hq : q.Leads more) (h : p.chars ++ rest = q.chars ++ more) : p = q ∧ rest = more := by
  have form : p.form = q.form := by
    rcases PieceForm.eq_or_before p.form q.form with hf | hf | hf
    · exact hf
    · exact absurd hp.fits (hq.first _ hf _ (h ▸ List.prefix_append _ _))
    · exact absurd hq.fits (hp.first _ hf _ (h ▸ List.prefix_append _ _))
  have length : p.chars.length = q.chars.length := by
    apply le_antisymm
    · exact hq.longest _ (h ▸ List.prefix_append _ _) (form ▸ hp.fits)
    · exact hp.longest _ (h ▸ List.prefix_append _ _) (form.symm ▸ hq.fits)
  obtain ⟨chars, same⟩ := List.append_inj h length
  obtain ⟨f, s⟩ := p
  obtain ⟨g, t⟩ := q
  subst form chars same
  exact ⟨rfl, rfl⟩

/-! ## What comes first -/

section First

variable {c : Char} {tail : List Char}

/-- The longest part of a text whose characters pass a test. -/
theorem length_le_takeWhile {p : Char → Bool} {t s : List Char} (h : t <+: s)
    (ht : ∀ c ∈ t, p c) : t.length ≤ (s.takeWhile p).length := by
  obtain ⟨rest, rfl⟩ := h
  rw [List.takeWhile_append_of_pos ht, List.length_append]
  omega

/-- The forms that are tried before do not even begin with the character. -/
theorem first_of_begins {p : Piece} {rest : List Char} (h : c :: tail = p.chars ++ rest)
    (hc : ∀ f ∈ p.form.before, ¬ f.Begins c) :
    ∀ f ∈ p.form.before, ∀ s, s <+: p.chars ++ rest → ¬ f.Fits s :=
  fun f hf _ hs fits => hc f hf (fits.begins (h ▸ hs))

theorem blanks_lead (hc : isBlank c) :
    Piece.Leads ⟨.blanks, c :: tail.takeWhile isBlank⟩ (tail.dropWhile isBlank) := by
  refine ⟨⟨by simp, List.forall_mem_cons.2 ⟨hc, fun d => List.mem_takeWhile_imp⟩⟩, ?_, ?_⟩
  · intro s hs fits
    have split : c :: tail.takeWhile isBlank ++ tail.dropWhile isBlank = c :: tail := by simp
    have bound := length_le_takeWhile (split ▸ hs) fits.2
    rwa [List.takeWhile_cons_of_pos hc] at bound
  · simp [PieceForm.before]

theorem number_form {digits rest : List Char} (hne : digits ≠ [])
    (hd : ∀ c ∈ digits, isAsciiDigit c) :
    PieceForm.number.Fits (numberFrom digits rest).1.chars := by
  unfold numberFrom
  split
  · exact ⟨digits, _, hne, hd, fun c => List.mem_takeWhile_imp, Or.inr rfl⟩
  · exact ⟨digits, [], hne, hd, by simp, Or.inl rfl⟩

/-- After all of its digits, no number goes on but with a point and digits. -/
theorem number_length_le {digits rest s : List Char} (hd : ∀ c ∈ digits, isAsciiDigit c)
    (hr : ∀ c ∈ rest.head?, isAsciiDigit c = false) (hs : s <+: digits ++ rest)
    (h : PieceForm.number.Fits s) : s.length ≤ (numberFrom digits rest).1.chars.length := by
  have run : ∀ t : List Char, t <+: digits ++ rest → (∀ c ∈ t, isAsciiDigit c) →
      t.length ≤ digits.length := by
    intro t ht hdt
    have bound := length_le_takeWhile ht hdt
    rwa [List.takeWhile_append_of_pos hd, takeWhile_of_head hr, List.append_nil] at bound
  obtain ⟨front, back, -, hf, hb, rfl | rfl⟩ := h
  · refine (run s hs hf).trans ?_
    unfold numberFrom
    split <;> simp
  · -- the point ends both runs of digits, so they are the same
    have short := run front ((List.prefix_append _ _).trans hs) hf
    obtain ⟨after, hafter⟩ := hs
    rw [List.append_assoc] at hafter
    obtain ⟨gap, rfl⟩ : front <+: digits :=
      List.prefix_of_prefix_length_le (hafter ▸ List.prefix_append _ _) (List.prefix_append _ _) short
    rw [List.append_assoc] at hafter
    have point := List.append_cancel_left hafter
    cases gap with
    | nil =>
      obtain rfl : '.' :: (back ++ after) = rest := point
      have bound := length_le_takeWhile (List.prefix_append back after) hb
      simpa [numberFrom] using bound
    | cons d gap =>
      obtain rfl : '.' = d := (List.cons.inj point).1
      exact absurd (hd '.' (by simp)) (by decide)

theorem numberFrom_split (digits rest : List Char) :
    (numberFrom digits rest).1.chars ++ (numberFrom digits rest).2 = digits ++ rest := by
  unfold numberFrom
  split
  · simp [List.takeWhile_append_dropWhile]
  · rfl

theorem numberFrom_kind (digits rest : List Char) :
    (numberFrom digits rest).1.kind = .number := by
  unfold numberFrom
  split <;> rfl

theorem number_leads (hb : ¬ isBlank c) (hc : isAsciiDigit c) :
    Piece.Leads
      ⟨.number, (numberFrom (c :: tail.takeWhile isAsciiDigit) (tail.dropWhile isAsciiDigit)).1.chars⟩
      (numberFrom (c :: tail.takeWhile isAsciiDigit) (tail.dropWhile isAsciiDigit)).2 := by
  have digits : ∀ d ∈ c :: tail.takeWhile isAsciiDigit, isAsciiDigit d :=
    List.forall_mem_cons.2 ⟨hc, fun d => List.mem_takeWhile_imp⟩
  have split := numberFrom_split (c :: tail.takeWhile isAsciiDigit) (tail.dropWhile isAsciiDigit)
  refine ⟨number_form (by simp) digits, ?_, ?_⟩
  · intro s hs
    exact number_length_le digits (head_dropWhile tail) (split ▸ hs)
  · refine first_of_begins (show c :: tail = _ from ?_) ?_
    · rw [split]
      simp
    · simpa [PieceForm.before, PieceForm.Begins] using hb

theorem fraction_leads {d : Char} (hd : isAsciiDigit d) :
    Piece.Leads ⟨.fraction, '.' :: d :: tail.takeWhile isAsciiDigit⟩
      (tail.dropWhile isAsciiDigit) := by
  refine ⟨⟨_, List.cons_ne_nil _ _,
    List.forall_mem_cons.2 ⟨hd, fun e => List.mem_takeWhile_imp⟩, rfl⟩, ?_, ?_⟩
  · rintro s hs ⟨digits, -, hdigits, rfl⟩
    have inside : digits <+: d :: tail := by simpa using (List.cons_prefix_cons.1 hs).2
    have bound := length_le_takeWhile inside hdigits
    rw [List.takeWhile_cons_of_pos hd] at bound
    simpa using bound
  · refine first_of_begins rfl ?_
    simp only [PieceForm.before, List.forall_mem_cons, PieceForm.Begins]
    exact ⟨by decide, by decide, by simp⟩

theorem power_leads : Piece.Leads ⟨.power, ['*', '*']⟩ tail := by
  refine ⟨rfl, ?_, ?_⟩
  · rintro s - rfl
    rfl
  · refine first_of_begins rfl ?_
    simp only [PieceForm.before, List.forall_mem_cons, PieceForm.Begins]
    exact ⟨by decide, by decide, by decide, by simp⟩

theorem not_isSign_of_isAsciiLetter (hc : isAsciiLetter c) : ¬ isSign c := by
  intro hs
  simp only [isSign, List.contains_eq_mem, decide_eq_true_eq, List.mem_cons, List.not_mem_nil,
    or_false] at hs
  rcases hs with rfl | rfl | rfl | rfl | rfl | rfl | rfl <;> exact absurd hc (by decide)

theorem name_leads (hb : ¬ isBlank c) (hd : ¬ isAsciiDigit c) (hc : isAsciiLetter c) :
    Piece.Leads ⟨.name, c :: tail.takeWhile isNameChar⟩ (tail.dropWhile isNameChar) := by
  refine ⟨⟨c, _, hc, fun d => List.mem_takeWhile_imp, rfl⟩, ?_, ?_⟩
  · rintro s hs ⟨e, rest, -, hrest, rfl⟩
    have inside : rest <+: tail := by simpa using (List.cons_prefix_cons.1 hs).2
    simpa using length_le_takeWhile inside hrest
  · refine first_of_begins (show c :: tail = _ by simp) ?_
    simp only [PieceForm.before, List.forall_mem_cons, PieceForm.Begins]
    refine ⟨hb, hd, ?_, ?_, not_isSign_of_isAsciiLetter hc, by simp⟩
    · rintro rfl
      exact absurd hc (by decide)
    · rintro rfl
      exact absurd hc (by decide)

theorem sign_leads (hb : ¬ isBlank c) (hd : ¬ isAsciiDigit c) (hp : c ≠ '.')
    (hpower : ¬ (c = '*' ∧ tail.head? = some '*')) (hc : isSign c) :
    Piece.Leads ⟨.sign, [c]⟩ tail := by
  refine ⟨⟨c, hc, rfl⟩, ?_, ?_⟩
  · rintro s - ⟨d, -, rfl⟩
    rfl
  · intro f hf s hs fits
    have begins := fits.begins hs
    simp only [PieceForm.before, List.mem_cons, List.not_mem_nil, or_false] at hf
    rcases hf with rfl | rfl | rfl | rfl
    · exact hb begins
    · exact hd begins
    · exact hp begins
    · obtain rfl : s = ['*', '*'] := fits
      obtain ⟨rfl, htail⟩ := List.cons_prefix_cons.1 hs
      obtain ⟨rest, rfl⟩ := htail
      exact hpower ⟨rfl, rfl⟩

end First

/-! ## The lexeme that begins a text -/

/-- The lexeme that is cut off is the piece that comes first. -/
theorem leads_of_nextLexeme? {s rest : List Char} {l : Lexeme}
    (h : nextLexeme? s = some (l, rest)) :
    ∃ p : Piece, p.Leads rest ∧ s = p.chars ++ rest ∧ l = ⟨p.form.kind, p.chars⟩ := by
  cases s with
  | nil => cases h
  | cons c tail =>
    simp only [nextLexeme?] at h
    split_ifs at h with hblank hdigit hletter hpoint hpower hsign
    · obtain ⟨rfl, rfl⟩ := Prod.mk.inj (Option.some.inj h)
      exact ⟨_, blanks_lead hblank, by simp, rfl⟩
    · have kind := numberFrom_kind (c :: tail.takeWhile isAsciiDigit) (tail.dropWhile isAsciiDigit)
      have split := numberFrom_split (c :: tail.takeWhile isAsciiDigit) (tail.dropWhile isAsciiDigit)
      have leads := @number_leads c tail hblank hdigit
      rw [Option.some.inj h] at kind split leads
      refine ⟨_, leads, ?_, ?_⟩
      · rw [split]
        simp
      · rw [PieceForm.kind, ← kind]
    · obtain ⟨rfl, rfl⟩ := Prod.mk.inj (Option.some.inj h)
      exact ⟨_, name_leads hblank hdigit hletter, by simp, rfl⟩
    · subst hpoint
      split at h
      · split_ifs at h with hd
        obtain ⟨rfl, rfl⟩ := Prod.mk.inj (Option.some.inj h)
        exact ⟨_, fraction_leads hd, by simp, rfl⟩
      · cases h
    · obtain ⟨rfl, rfl⟩ := Prod.mk.inj (Option.some.inj h)
      simp only [Bool.and_eq_true, decide_eq_true_eq] at hpower
      obtain ⟨rfl, hhead⟩ := hpower
      obtain ⟨more, rfl⟩ := List.head?_eq_some_iff.1 hhead
      exact ⟨_, power_leads, rfl, rfl⟩
    · obtain ⟨rfl, rfl⟩ := Prod.mk.inj (Option.some.inj h)
      exact ⟨_, sign_leads hblank hdigit hpoint (by simpa using hpower) hsign, rfl, rfl⟩

/-- Where nothing is cut off, nothing comes first. -/
theorem noPiece_of_nextLexeme? {s : List Char} (h : nextLexeme? s = none) : NoPiece s := by
  intro f t ht fits
  cases s with
  | nil => exact fits.ne_nil (List.prefix_nil.1 ht)
  | cons c tail =>
    have begins := fits.begins ht
    simp only [nextLexeme?] at h
    split_ifs at h with hblank hdigit hletter hpoint hpower hsign
    · -- a point with no digit behind it
      subst hpoint
      cases f with
      | fraction =>
        obtain ⟨digits, hne, hdigits, rfl⟩ := fits
        obtain ⟨d, digits, rfl⟩ := List.exists_cons_of_ne_nil hne
        obtain ⟨rest, htail⟩ := (List.cons_prefix_cons.1 ht).2
        rw [← htail] at h
        simp [hdigits d List.mem_cons_self] at h
      | blanks => exact hblank begins
      | number => exact hdigit begins
      | power => exact absurd begins (by decide : '.' ≠ '*')
      | sign => exact absurd begins (by decide : ¬ isSign '.' = true)
      | name => exact hletter begins
    · cases f with
      | blanks => exact hblank begins
      | number => exact hdigit begins
      | fraction => exact hpoint begins
      | power =>
        obtain rfl : c = '*' := begins
        exact hsign (by decide)
      | sign => exact hsign begins
      | name => exact hletter begins

/-- The lexeme that is cut off, and where none is. -/
theorem nextLexeme?_of_leads {p : Piece} {rest : List Char} (h : p.Leads rest) :
    nextLexeme? (p.chars ++ rest) = some (⟨p.form.kind, p.chars⟩, rest) := by
  cases hn : nextLexeme? (p.chars ++ rest) with
  | none => exact absurd h.fits (noPiece_of_nextLexeme? hn _ _ (List.prefix_append _ _))
  | some found =>
    obtain ⟨l, more⟩ := found
    obtain ⟨q, leads, text, rfl⟩ := leads_of_nextLexeme? hn
    obtain ⟨rfl, rfl⟩ := h.unique leads text
    rfl

theorem nextLexeme?_of_noPiece {s : List Char} (h : NoPiece s) : nextLexeme? s = none := by
  cases hn : nextLexeme? s with
  | none => rfl
  | some found =>
    obtain ⟨l, rest⟩ := found
    obtain ⟨p, leads, rfl, -⟩ := leads_of_nextLexeme? hn
    exact absurd leads.fits (h _ _ (List.prefix_append _ _))

/-! ## Names -/

namespace Piece

def text (p : Piece) : String := String.ofList p.chars

/-- A name is known or bound, or it is a single letter. -/
def Allowed (bound : List String) (p : Piece) : Prop :=
  p.form = .name → p.text ∈ functionNames ∨ p.text ∈ constantNames ∨ p.text ∈ bound ∨
    p.chars.length = 1

/-- The piece is the name of a symbol. -/
def IsSymbol (p : Piece) : Prop :=
  p.form = .name ∧ p.text ∉ functionNames ∧ p.text ∉ constantNames

instance (p : Piece) : Decidable p.IsSymbol := inferInstanceAs (Decidable (_ ∧ _))

/-- The symbol that the piece is, if it is one. -/
def symbols (p : Piece) : List String := if p.IsSymbol then [p.text] else []

theorem not_isSymbol_iff (p : Piece) :
    (decide (p.form.kind ≠ .name) || isKnownName p.text) = true ↔ ¬ p.IsSymbol := by
  have kind : p.form.kind = .name ↔ p.form = .name := by cases p.form <;> decide
  simp [IsSymbol, isKnownName, kind, imp_iff_not_or]

theorem symbolOf_eq (bound : List String) (p : Piece) :
    symbolOf bound ⟨p.form.kind, p.chars⟩ =
      if p.IsSymbol then
        if p.text ∈ bound ∨ p.chars.length = 1 then .ok [p.text] else .error (.unknownName p.text)
      else .ok [] := by
  change (if (decide (p.form.kind ≠ .name) || isKnownName p.text) = true then Except.ok []
    else if (bound.contains p.text || decide (p.chars.length = 1)) = true then Except.ok [p.text]
    else Except.error (ReadFault.unknownName p.text)) = _
  simp only [p.not_isSymbol_iff, ite_not, Bool.or_eq_true, List.contains_eq_mem, decide_eq_true_eq]

theorem symbolOf_allowed {bound : List String} {p : Piece} (h : p.Allowed bound) :
    symbolOf bound ⟨p.form.kind, p.chars⟩ = .ok p.symbols := by
  rw [symbolOf_eq, symbols]
  by_cases hp : p.IsSymbol
  · have named : p.text ∈ bound ∨ p.chars.length = 1 :=
      ((h hp.1).resolve_left hp.2.1).resolve_left hp.2.2
    rw [if_pos hp, if_pos hp, if_pos named]
  · rw [if_neg hp, if_neg hp]

theorem symbolOf_refused {bound : List String} {p : Piece} (h : ¬ p.Allowed bound) :
    symbolOf bound ⟨p.form.kind, p.chars⟩ = .error (.unknownName p.text) := by
  simp only [Allowed, Classical.not_imp, not_or] at h
  obtain ⟨name, hf, hc, unnamed⟩ := h
  rw [symbolOf_eq, if_pos ⟨name, hf, hc⟩, if_neg (not_or.2 unnamed)]

end Piece

/-! ## The scan -/

/-- The number of characters in pieces. -/
def piecesLength (pieces : List Piece) : Nat := (pieces.map fun p => p.chars.length).sum

theorem Piece.Leads.length_pos {p : Piece} {rest : List Char} (h : p.Leads rest) :
    0 < p.chars.length := List.length_pos_iff.2 h.fits.ne_nil

theorem scanFrom_leads {bound : List String} {p : Piece} {rest : List Char} (h : p.Leads rest)
    (fuel position : Nat) :
    scanFrom bound (fuel + 1) position (p.chars ++ rest) =
      (symbolOf bound ⟨p.form.kind, p.chars⟩ >>= fun names =>
        scanFrom bound fuel (position + p.chars.length) rest >>= fun others =>
          pure (names ++ others)) := by
  have next := nextLexeme?_of_leads h
  obtain ⟨c, chars, hc⟩ := List.exists_cons_of_ne_nil h.fits.ne_nil
  rw [hc, List.cons_append] at next ⊢
  rw [scanFrom, next]

/-- Over allowed pieces the scan only gathers their symbols. -/
theorem scanFrom_of_cuts {bound : List String} {s rest : List Char} {pieces : List Piece}
    (h : Cuts s pieces rest) (allowed : ∀ p ∈ pieces, p.Allowed bound) (fuel position : Nat)
    (hs : s.length ≤ fuel) :
    ∃ left, rest.length ≤ left ∧
      scanFrom bound fuel position s =
        (scanFrom bound left (position + piecesLength pieces) rest).map
          (pieces.flatMap Piece.symbols ++ ·) := by
  induction h generalizing fuel position with
  | stop s =>
    refine ⟨fuel, hs, ?_⟩
    cases run : scanFrom bound fuel position s <;> simp [piecesLength, Except.map, run]
  | @piece p rest last more leads cuts ih =>
    have positive := leads.length_pos
    rw [List.length_append] at hs
    obtain ⟨fuel, rfl⟩ : ∃ k, fuel = k + 1 := ⟨fuel - 1, by omega⟩
    obtain ⟨hp, hmore⟩ := List.forall_mem_cons.1 allowed
    obtain ⟨left, hleft, run⟩ := ih hmore fuel (position + p.chars.length) (by omega)
    refine ⟨left, hleft, ?_⟩
    rw [scanFrom_leads leads, Piece.symbolOf_allowed hp, run]
    have position' : position + p.chars.length + piecesLength more =
        position + piecesLength (p :: more) := by
      simp [piecesLength, Nat.add_assoc]
    rw [position']
    cases scanFrom bound left (position + piecesLength (p :: more)) last with
    | ok names => simp [Except.map, bind, Except.bind, pure, Except.pure]
    | error f => rfl

/-- What can end the pieces of a text that are allowed: its end, a piece that is not allowed, or
a place where there is no piece. -/
inductive Halt (bound : List String) : List Char → Prop where
  | finish : Halt bound []
  | refused {p : Piece} {rest : List Char} :
    p.Leads rest → ¬ p.Allowed bound → Halt bound (p.chars ++ rest)
  | noPiece {c : Char} {rest : List Char} : NoPiece (c :: rest) → Halt bound (c :: rest)

/-- The allowed pieces of a text end somewhere. -/
theorem exists_halt (bound : List String) (s : List Char) :
    ∃ pieces rest, Cuts s pieces rest ∧ (∀ p ∈ pieces, p.Allowed bound) ∧ Halt bound rest := by
  induction hn : s.length using Nat.strong_induction_on generalizing s with
  | _ n ih =>
    subst hn
    cases hnext : nextLexeme? s with
    | none =>
      refine ⟨[], s, .stop s, by simp, ?_⟩
      cases s with
      | nil => exact .finish
      | cons c rest => exact .noPiece (noPiece_of_nextLexeme? hnext)
    | some found =>
      obtain ⟨l, rest⟩ := found
      obtain ⟨p, leads, rfl, -⟩ := leads_of_nextLexeme? hnext
      by_cases hp : p.Allowed bound
      · have positive := leads.length_pos
        obtain ⟨pieces, last, cuts, allowed, halt⟩ := ih rest.length (by simp; omega) rest rfl
        exact ⟨p :: pieces, last, .piece leads cuts, List.forall_mem_cons.2 ⟨hp, allowed⟩, halt⟩
      · exact ⟨[], _, .stop _, by simp, .refused leads hp⟩

/-! ## Sets of names -/

theorem mem_insertName {s name : String} {l : List String} :
    s ∈ insertName name l ↔ s = name ∨ s ∈ l := by
  induction l with
  | nil => simp [insertName]
  | cons a rest ih =>
    unfold insertName
    split_ifs with h
    · subst h
      simp
    · simp
    · rw [List.mem_cons, ih, List.mem_cons]
      exact or_left_comm

theorem insertName_sorted {name : String} {l : List String} (h : l.Pairwise (· < ·)) :
    (insertName name l).Pairwise (· < ·) := by
  induction l with
  | nil => simp [insertName]
  | cons a rest ih =>
    obtain ⟨first, others⟩ := List.pairwise_cons.1 h
    unfold insertName
    split_ifs with hsame hbefore
    · exact h
    · refine List.pairwise_cons.2 ⟨List.forall_mem_cons.2 ⟨hbefore, fun s hs => ?_⟩, h⟩
      exact hbefore.trans (first s hs)
    · have after : a < name := lt_of_le_of_ne (not_lt.1 hbefore) (Ne.symm hsame)
      refine List.pairwise_cons.2 ⟨fun s hs => ?_, ih others⟩
      rcases mem_insertName.1 hs with rfl | hs
      · exact after
      · exact first s hs

theorem mem_sortNames {s : String} {l : List String} : s ∈ sortNames l ↔ s ∈ l := by
  induction l with
  | nil => simp [sortNames]
  | cons a rest ih => rw [sortNames, List.foldr_cons, mem_insertName, List.mem_cons, ← ih, sortNames]

theorem sortNames_sorted (l : List String) : (sortNames l).Pairwise (· < ·) := by
  induction l with
  | nil => exact List.Pairwise.nil
  | cons a rest ih => exact insertName_sorted ih

/-- The order of names leaves one list for each set of them. -/
theorem eq_sortNames {names l : List String} (sorted : names.Pairwise (· < ·))
    (h : ∀ s, s ∈ names ↔ s ∈ l) : names = sortNames l := by
  have nodup : names.Nodup := sorted.imp fun h => h.ne
  have other : (sortNames l).Nodup := (sortNames_sorted l).imp fun h => h.ne
  have perm := (List.perm_ext_iff_of_nodup nodup other).2 fun s => (h s).trans mem_sortNames.symm
  exact perm.eq_of_pairwise (fun a b _ _ hab hba => absurd hab hba.asymm) sorted
    (sortNames_sorted l)

/-! ## All of a text -/

/-- The text is short enough, and all of it is pieces that are allowed. -/
structure Passes (text : String) (bound : List String) (pieces : List Piece) : Prop where
  short : text.length ≤ 500
  cuts : Cuts text.toList pieces []
  allowed : ∀ p ∈ pieces, p.Allowed bound

/-- The first fault of a text: its length, or whatever ends its allowed pieces. -/
def IsFirstFault (text : String) (bound : List String) : ReadFault → Prop
  | .tooLong length => 500 < text.length ∧ length = text.length
  | .unsupported c position => text.length ≤ 500 ∧ ∃ pieces rest,
      Cuts text.toList pieces (c :: rest) ∧ (∀ p ∈ pieces, p.Allowed bound) ∧
        NoPiece (c :: rest) ∧ position = piecesLength pieces
  | .unknownName name => text.length ≤ 500 ∧ ∃ pieces, ∃ p : Piece, ∃ rest,
      Cuts text.toList pieces (p.chars ++ rest) ∧ (∀ q ∈ pieces, q.Allowed bound) ∧
        p.Leads rest ∧ ¬ p.Allowed bound ∧ name = p.text
  | _ => False

theorem symbolNames_of_passes {text : String} {bound : List String} {pieces : List Piece}
    (h : Passes text bound pieces) :
    symbolNames text bound = .ok (sortNames (pieces.flatMap Piece.symbols)) := by
  obtain ⟨left, -, run⟩ := scanFrom_of_cuts h.cuts h.allowed text.toList.length 0 le_rfl
  have short : ¬ maxTextLength < text.toList.length := by
    rw [String.length_toList]
    exact not_lt.2 h.short
  have nothing : ∀ k position, scanFrom bound k position [] = .ok [] := by
    intro k position
    cases k <;> rfl
  simp [symbolNames, short, run, nothing, Except.map]

theorem symbolNames_of_fault {text : String} {bound : List String} {fault : ReadFault}
    (h : IsFirstFault text bound fault) : symbolNames text bound = .error fault := by
  have short : text.length ≤ 500 → ¬ maxTextLength < text.toList.length := by
    intro h
    rw [String.length_toList]
    exact not_lt.2 h
  cases fault with
  | tooLong length =>
    obtain ⟨long, rfl⟩ := h
    rw [← String.length_toList] at long ⊢
    exact if_pos long
  | unsupported c position =>
    obtain ⟨hs, pieces, rest, cuts, allowed, stuck, rfl⟩ := h
    obtain ⟨left, hleft, run⟩ := scanFrom_of_cuts cuts allowed text.toList.length 0 le_rfl
    obtain ⟨left, rfl⟩ : ∃ k, left = k + 1 := ⟨left - 1, by simp at hleft; omega⟩
    rw [scanFrom, nextLexeme?_of_noPiece stuck] at run
    simp [symbolNames, short hs, run, Except.map]
  | unknownName name =>
    obtain ⟨hs, pieces, p, rest, cuts, allowed, leads, refused, rfl⟩ := h
    obtain ⟨left, hleft, run⟩ := scanFrom_of_cuts cuts allowed text.toList.length 0 le_rfl
    have positive := leads.length_pos
    obtain ⟨left, rfl⟩ : ∃ k, left = k + 1 := ⟨left - 1, by simp at hleft; omega⟩
    rw [scanFrom_leads leads, Piece.symbolOf_refused refused] at run
    simp [symbolNames, short hs, run, Except.map, bind, Except.bind]
  | _ => exact h.elim

/-- A text passes, or it has a first fault. -/
theorem passes_or_fault (text : String) (bound : List String) :
    (∃ pieces, Passes text bound pieces) ∨ ∃ fault, IsFirstFault text bound fault := by
  rcases lt_or_ge 500 text.length with long | short
  · exact Or.inr ⟨.tooLong _, long, rfl⟩
  · obtain ⟨pieces, rest, cuts, allowed, halt⟩ := exists_halt bound text.toList
    cases halt with
    | finish => exact Or.inl ⟨pieces, short, cuts, allowed⟩
    | refused leads refused =>
      exact Or.inr ⟨.unknownName _, short, pieces, _, _, cuts, allowed, leads, refused, rfl⟩
    | noPiece stuck =>
      exact Or.inr ⟨.unsupported _ _, short, pieces, _, cuts, allowed, stuck, rfl⟩

theorem passes_of_symbolNames {text : String} {bound names : List String}
    (h : symbolNames text bound = .ok names) :
    ∃ pieces, Passes text bound pieces ∧ names = sortNames (pieces.flatMap Piece.symbols) := by
  rcases passes_or_fault text bound with ⟨pieces, hp⟩ | ⟨fault, hf⟩
  · exact ⟨pieces, hp, Except.ok.inj (h.symm.trans (symbolNames_of_passes hp))⟩
  · cases h.symm.trans (symbolNames_of_fault hf)

theorem isFirstFault_of_symbolNames {text : String} {bound : List String} {fault : ReadFault}
    (h : symbolNames text bound = .error fault) : IsFirstFault text bound fault := by
  rcases passes_or_fault text bound with ⟨pieces, hp⟩ | ⟨other, hf⟩
  · cases h.symm.trans (symbolNames_of_passes hp)
  · obtain rfl := Except.error.inj (h.symm.trans (symbolNames_of_fault hf))
    exact hf

/-- The characters of a text that is all cut into pieces. -/
theorem Cuts.split {s rest : List Char} {pieces : List Piece} (h : Cuts s pieces rest) :
    s = pieces.flatMap Piece.chars ++ rest := by
  induction h with
  | stop s => rfl
  | piece leads cuts ih => simpa using ih

theorem Cuts.fits {s rest : List Char} {pieces : List Piece} (h : Cuts s pieces rest) :
    ∀ p ∈ pieces, p.form.Fits p.chars := by
  induction h with
  | stop s => simp
  | piece leads cuts ih => exact List.forall_mem_cons.2 ⟨leads.fits, ih⟩

/-- The characters of a form. -/
theorem PieceForm.Fits.chars {f : PieceForm} {s : List Char} (h : f.Fits s) :
    ∀ c ∈ s, isBlank c ∨ isNameChar c ∨ isSign c ∨ c = '.' ∧ (f = .number ∨ f = .fraction) := by
  have digit : ∀ c, isAsciiDigit c = true → isNameChar c = true := by
    intro c hc
    simp [isNameChar, hc]
  intro c hc
  cases f with
  | blanks => exact Or.inl (h.2 c hc)
  | number =>
    obtain ⟨digits, more, -, hd, hm, rfl | rfl⟩ := h
    · exact Or.inr (Or.inl (digit c (hd c hc)))
    · rcases List.mem_append.1 hc with hc | hc
      · exact Or.inr (Or.inl (digit c (hd c hc)))
      · rcases List.mem_cons.1 hc with rfl | hc
        · exact Or.inr (Or.inr (Or.inr ⟨rfl, Or.inl rfl⟩))
        · exact Or.inr (Or.inl (digit c (hm c hc)))
  | fraction =>
    obtain ⟨digits, -, hd, rfl⟩ := h
    rcases List.mem_cons.1 hc with rfl | hc
    · exact Or.inr (Or.inr (Or.inr ⟨rfl, Or.inr rfl⟩))
    · exact Or.inr (Or.inl (digit c (hd c hc)))
  | power =>
    obtain rfl : s = ['*', '*'] := h
    simp only [List.mem_cons, List.not_mem_nil, or_false, or_self] at hc
    subst hc
    exact Or.inr (Or.inr (Or.inl (by decide)))
  | sign =>
    obtain ⟨d, hd, rfl⟩ := h
    obtain rfl := List.mem_singleton.1 hc
    exact Or.inr (Or.inr (Or.inl hd))
  | name =>
    obtain ⟨d, rest, hd, hr, rfl⟩ := h
    rcases List.mem_cons.1 hc with rfl | hc
    · exact Or.inr (Or.inl (by simp [isNameChar, hd]))
    · exact Or.inr (Or.inl (hr c hc))

theorem mem_symbols {pieces : List Piece} {s : String} :
    s ∈ pieces.flatMap Piece.symbols ↔ ∃ p ∈ pieces, p.IsSymbol ∧ p.text = s := by
  simp only [List.mem_flatMap, Piece.symbols]
  refine exists_congr fun p => and_congr_right fun _ => ?_
  split_ifs with h
  · simp [h, eq_comm]
  · simp [h]

/-- A text gives names just when all of it is pieces that are allowed and it is short enough, and
they are the names of its symbols, each once and in order. Otherwise it gives the first fault,
which callers are told as an invalid input. A text that passes has only blanks, letters, digits,
signs and points, and each point is inside of a number. -/
theorem a_text_passes_by_its_pieces (text : String) (bound : List String) :
    (∀ names, symbolNames text bound = .ok names ↔ ∃ pieces, Passes text bound pieces ∧
      names.Pairwise (· < ·) ∧ ∀ s, s ∈ names ↔ ∃ p ∈ pieces, p.IsSymbol ∧ p.text = s) ∧
    (∀ fault, symbolNames text bound = .error fault ↔ IsFirstFault text bound fault) ∧
    (∀ fault, symbolNames text bound = .error fault →
      (Fault.ofReading fault).category = .invalidInput) ∧
    ∀ names, symbolNames text bound = .ok names → ∃ pieces, Passes text bound pieces ∧
      text.toList = pieces.flatMap Piece.chars ∧
      (∀ c ∈ text.toList, isBlank c ∨ isNameChar c ∨ isSign c ∨ c = '.') ∧
      ∀ p ∈ pieces, '.' ∈ p.chars → p.form = .number ∨ p.form = .fraction := by
  refine ⟨fun names => ⟨fun h => ?_, ?_⟩, fun fault => ⟨isFirstFault_of_symbolNames, symbolNames_of_fault⟩,
    fun fault h => ?_, fun names h => ?_⟩
  · obtain ⟨pieces, hp, rfl⟩ := passes_of_symbolNames h
    exact ⟨pieces, hp, sortNames_sorted _, fun s => mem_sortNames.trans mem_symbols⟩
  · rintro ⟨pieces, hp, sorted, mem⟩
    rw [symbolNames_of_passes hp, eq_sortNames sorted fun s => (mem s).trans mem_symbols.symm]
  · have first := isFirstFault_of_symbolNames h
    cases fault with
    | tooLong | unsupported | unknownName => rfl
    | _ => exact first.elim
  · obtain ⟨pieces, hp, rfl⟩ := passes_of_symbolNames h
    have split : text.toList = pieces.flatMap Piece.chars := by simpa using hp.cuts.split
    refine ⟨pieces, hp, split, fun c hc => ?_, fun p hmem hpoint => ?_⟩
    · obtain ⟨p, hmem, hc⟩ := List.mem_flatMap.1 (split ▸ hc)
      exact ((hp.cuts.fits p hmem).chars c hc).imp_right (Or.imp_right (Or.imp_right And.left))
    · rcases (hp.cuts.fits p hmem).chars '.' hpoint with h | h | h | h
      · exact absurd h (by decide)
      · exact absurd h (by decide)
      · exact absurd h (by decide)
      · exact h.2

/-- A product and a number that begins with its point have one symbol. -/
theorem a_short_sum_passes : symbolNames "2*x + .5" [] = .ok ["x"] ∧ ∃ pieces,
    Passes "2*x + .5" [] pieces ∧ ∀ p ∈ pieces, '.' ∈ p.chars →
      p.form = .number ∨ p.form = .fraction := by
  have names : symbolNames "2*x + .5" [] = .ok ["x"] := by decide +kernel
  obtain ⟨pieces, passes, -, -, points⟩ :=
    (a_text_passes_by_its_pieces "2*x + .5" []).2.2.2 _ names
  exact ⟨names, pieces, passes, points⟩

/-- A point is no piece if no digit is behind it. -/
example : symbolNames "x + x." [] = .error (.unsupported '.' 5) := by decide +kernel

/-- Of two faults, the first is told. -/
example : symbolNames "speed + 1.2.3." [] = .error (.unknownName "speed") := by decide +kernel

end Reckoner
