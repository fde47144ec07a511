-- Expressions in questions. A run of lexemes takes the first lexeme that fits at each place, so the
-- expression at the end of a question is found whole unless its variable is mistaken for something
-- else: for a function, or for the end of the words that lead to the expression.
import Reckoner.Proofs.Text.Blanks
import Reckoner.Proofs.Text.Letters
import Reckoner.Question.Extract

namespace Reckoner

variable {v w s t rest last : List Char}

/-! ## Words -/

theorem dropWord?_eq_some_iff : dropWord? w s = some rest ↔
    ∃ part, s = part ++ rest ∧ List.Forall₂ (fun a c => sameLetter a c = true) w part := by
  induction w generalizing s with
  | nil =>
    rw [dropWord?]
    constructor
    · intro h
      exact ⟨[], Option.some.inj h, .nil⟩
    · rintro ⟨part, rfl, same⟩
      cases same
      rfl
  | cons a w ih =>
    constructor
    · intro h
      cases s with
      | nil => cases h
      | cons c s =>
        rw [dropWord?] at h
        split_ifs at h with same
        obtain ⟨part, rfl, all⟩ := ih.1 h
        exact ⟨c :: part, rfl, .cons same all⟩
    · rintro ⟨part, rfl, all⟩
      cases all with
      | cons same all =>
        rw [List.cons_append, dropWord?, if_pos same]
        exact ih.2 ⟨_, rfl, all⟩

/-- A word is not found in a text without one of its letters. -/
theorem dropWord?_of_unlike {a : Char} (h : a ∈ w) (unlike : ∀ c ∈ s, sameLetter a c = false) :
    dropWord? w s = none := by
  induction w generalizing s with
  | nil => cases h
  | cons b w ih =>
    cases s with
    | nil => rfl
    | cons c s =>
      obtain ⟨first, others⟩ := List.forall_mem_cons.1 unlike
      rw [dropWord?]
      rcases List.mem_cons.1 h with rfl | h
      · rw [first]
        rfl
      · rw [ih h others, ite_self]

/-- A word in small letters. -/
def lowered (s : List Char) : List Char := s.map Char.toLower

/-- Words of the alphabet agree letter by letter when they are the same in small letters. -/
theorem forall₂_sameLetter_iff (hs : ∀ c ∈ s, isAsciiLetter c) (ht : ∀ c ∈ t, isAsciiLetter c) :
    List.Forall₂ (fun a c => sameLetter a c = true) s t ↔ lowered s = lowered t := by
  induction s generalizing t with
  | nil => cases t <;> simp [lowered]
  | cons a s ih =>
    cases t with
    | nil => simp [lowered]
    | cons c t =>
      obtain ⟨ha, hs⟩ := List.forall_mem_cons.1 hs
      obtain ⟨hc, ht⟩ := List.forall_mem_cons.1 ht
      have rest := ih hs ht
      unfold lowered at rest ⊢
      rw [List.forall₂_cons, sameLetter_iff ha hc, rest, List.map_cons, List.map_cons,
        List.cons.injEq]

/-! ## Functions -/

theorem function_letters {f : String} (h : f ∈ knownFunctions) :
    (∀ c ∈ f.toList, isAsciiLetter c) ∧ lowered f.toList = f.toList ∧ f.toList ≠ [] := by
  have table : knownFunctions.all (fun f => f.toList.all isAsciiLetter &&
      decide (lowered f.toList = f.toList) && decide (f.toList ≠ [])) = true := rfl
  have := List.all_eq_true.1 table f h
  simp only [Bool.and_eq_true, List.all_eq_true, decide_eq_true_eq] at this
  exact ⟨this.1.1, this.1.2, this.2⟩

/-- No function begins with the name of another one. -/
theorem function_prefix {f g : String} (hf : f ∈ knownFunctions) (hg : g ∈ knownFunctions)
    (h : f.toList <+: g.toList) : f = g := by
  have table : knownFunctions.all (fun f => knownFunctions.all fun g =>
      !f.toList.isPrefixOf g.toList || f == g) = true := rfl
  have := List.all_eq_true.1 (List.all_eq_true.1 table f hf) g hg
  simpa [List.isPrefixOf_iff_prefix.2 h] using this

/-! ## Lexemes -/

theorem not_sameLetter_of_expressionChar {a c : Char} (ha : isAsciiLetter a)
    (hc : isExpressionChar c) : sameLetter a c = false := by
  have marks : ['+', '-', '*', '/', '^', '(', ')', '.', ' '].all (fun c =>
      decide (c.toNat < 65 ∨ c = '^')) = true := by decide
  simp only [isExpressionChar, Bool.or_eq_true, List.contains_eq_mem, decide_eq_true_eq] at hc
  rcases hc with digit | mark
  · exact not_sameLetter_of_isDigit ha digit
  · exact not_sameLetter_of_mark ha (of_decide_eq_true (List.all_eq_true.1 marks c mark))

/-- No word of letters begins where a single character is a lexeme. -/
theorem dropWord?_expressionChar (hw : ∀ c ∈ w, isAsciiLetter c) (ne : w ≠ []) {c : Char}
    (hc : isExpressionChar c) (s : List Char) : dropWord? w (c :: s) = none := by
  obtain ⟨a, w, rfl⟩ := List.exists_cons_of_ne_nil ne
  rw [dropWord?, not_sameLetter_of_expressionChar (hw a List.mem_cons_self) hc]
  rfl

theorem mem_afterLexeme_iff : rest ∈ afterLexeme v s ↔
    (∃ f ∈ knownFunctions, dropWord? f.toList s = some rest) ∨ dropWord? v s = some rest ∨
      ∃ c, s = c :: rest ∧ isExpressionChar c := by
  have words : rest ∈ (knownFunctions.map String.toList ++ [v]).filterMap (dropWord? · s) ↔
      (∃ f ∈ knownFunctions, dropWord? f.toList s = some rest) ∨ dropWord? v s = some rest := by
    simp [List.mem_filterMap]
  unfold afterLexeme
  rw [List.mem_append, words, or_assoc]
  refine or_congr_right (or_congr_right ?_)
  cases s with
  | nil => simp
  | cons c s =>
    dsimp only
    split_ifs with hc
    · rw [List.mem_singleton]
      constructor
      · rintro rfl
        exact ⟨c, rfl, hc⟩
      · rintro ⟨d, same, -⟩
        exact (List.cons.inj same).2.symm
    · constructor
      · rintro ⟨⟩
      · rintro ⟨d, same, hd⟩
        exact absurd ((List.cons.inj same).1 ▸ hd) hc

/-- Where no function, no variable and no single character fits, no lexeme begins. -/
theorem afterLexeme_eq_nil
    (functions : knownFunctions.all (fun f => (dropWord? f.toList s).isNone) = true)
    (unknown : ∀ rest, dropWord? v s ≠ some rest) (mark : s.head?.any isExpressionChar = false) :
    afterLexeme v s = [] := by
  refine List.eq_nil_iff_forall_not_mem.2 fun rest mem => ?_
  rcases mem_afterLexeme_iff.1 mem with ⟨f, hf, found⟩ | found | ⟨c, rfl, hc⟩
  · have := List.all_eq_true.1 functions f hf
    rw [found] at this
    cases this
  · exact unknown rest found
  · rw [List.head?_cons, Option.any_some, hc] at mark
    cases mark

/-- A lexeme takes some characters. -/
theorem exists_of_mem_afterLexeme (ne : v ≠ []) (h : rest ∈ afterLexeme v s) :
    ∃ part, part ≠ [] ∧ s = part ++ rest := by
  have word : ∀ {w : List Char}, w ≠ [] → dropWord? w s = some rest →
      ∃ part, part ≠ [] ∧ s = part ++ rest := by
    intro w hw found
    obtain ⟨part, split, same⟩ := dropWord?_eq_some_iff.1 found
    refine ⟨part, ?_, split⟩
    rintro rfl
    exact hw (List.forall₂_nil_right_iff.1 same)
  rcases mem_afterLexeme_iff.1 h with ⟨f, hf, found⟩ | found | ⟨c, rfl, -⟩
  · exact word (function_letters hf).2.2 found
  · exact word ne found
  · exact ⟨[c], List.cons_ne_nil _ _, rfl⟩

/-! ## Runs -/

/-- A run of lexemes from one place to another, each lexeme the first of those that fit. -/
inductive Runs (v : List Char) : List Char → List Char → Prop where
  | stop {s : List Char} : afterLexeme v s = [] → Runs v s s
  | next {s rest last : List Char} {others : List (List Char)} :
    afterLexeme v s = rest :: others → Runs v rest last → Runs v s last

theorem Runs.suffix (ne : v ≠ []) (h : Runs v s last) : last <:+ s := by
  induction h with
  | stop => exact List.suffix_rfl
  | next first _ ih =>
    obtain ⟨part, -, rfl⟩ := exists_of_mem_afterLexeme ne (first ▸ List.mem_cons_self)
    exact ih.trans (List.suffix_append _ _)

/-- Each place begins a run. -/
theorem exists_runs (ne : v ≠ []) (s : List Char) : ∃ last, Runs v s last := by
  induction hn : s.length using Nat.strong_induction_on generalizing s with
  | _ n ih =>
    cases first : afterLexeme v s with
    | nil => exact ⟨s, .stop first⟩
    | cons rest others =>
      obtain ⟨part, long, rfl⟩ := exists_of_mem_afterLexeme ne (first ▸ List.mem_cons_self)
      have positive := List.length_pos_iff.2 long
      obtain ⟨last, run⟩ := ih rest.length (by rw [← hn, List.length_append]; omega) rest rfl
      exact ⟨last, .next first run⟩

theorem afterRun_of_runs (ne : v ≠ []) (h : Runs v s last) {fuel : Nat} {start : Option Nat}
    (long : s.length < fuel) (moved : start ≠ some s.length) :
    afterRun v (fun _ => true) fuel 0 start s = some last := by
  induction h generalizing fuel start with
  | stop none =>
    obtain ⟨fuel, rfl⟩ : ∃ k, fuel = k + 1 := ⟨fuel - 1, by omega⟩
    simp [afterRun, none]
  | @next s rest last others first run ih =>
    obtain ⟨part, nonempty, rfl⟩ := exists_of_mem_afterLexeme ne (first ▸ List.mem_cons_self)
    have positive := List.length_pos_iff.2 nonempty
    rw [List.length_append] at long
    obtain ⟨fuel, rfl⟩ : ∃ k, fuel = k + 1 := ⟨fuel - 1, by omega⟩
    have later : some (part ++ rest).length ≠ some rest.length := by
      rw [List.length_append]
      simp
      omega
    have found := ih (show rest.length < fuel by omega) later
    rw [afterRun]
    simp only [if_neg moved, first, List.findSome?_cons, found]

theorem afterFullRun_of_runs (ne : v ≠ []) (h : Runs v s last) :
    afterFullRun v 1 (fun _ => true) s = if last = s then none else some last := by
  unfold afterFullRun
  rw [show 2 * s.length + 1 + 2 = (2 * s.length + 2) + 1 from rfl, afterRun]
  cases h with
  | stop none => simp [none]
  | @next _ rest _ others first run =>
    obtain ⟨part, nonempty, rfl⟩ := exists_of_mem_afterLexeme ne (first ▸ List.mem_cons_self)
    have positive := List.length_pos_iff.2 nonempty
    have moved : last ≠ part ++ rest := by
      rintro rfl
      have := (run.suffix ne).length_le
      rw [List.length_append] at this
      omega
    have long : rest.length < 2 * (part ++ rest).length + 2 := by
      rw [List.length_append]
      omega
    have found := afterRun_of_runs ne run long (Option.some_ne_none _).symm
    rw [if_neg moved, first, List.findSome?_cons, found]

/-! ## Runs after lead-ins -/

theorem leadRuns_skip {c : Char} {fuel : Nat} (h : afterLead? (c :: s) = none) :
    leadRuns v (fuel + 1) (c :: s) = leadRuns v fuel s := by
  rw [leadRuns, h]
  rfl

/-- After words that lead to a run, the run is taken, unless it is empty. -/
theorem leadRuns_lead (ne : v ≠ []) {c : Char} (fuel : Nat) (h : afterLead? (c :: s) = some t)
    (run : Runs v t last) : leadRuns v (fuel + 1) (c :: s) =
      if last = t then leadRuns v fuel s else before t last :: leadRuns v fuel last := by
  rw [leadRuns, h, Option.bind_some, afterFullRun_of_runs ne run]
  split_ifs <;> rfl

/-! ## The last lead-in -/

/-- A word that is found at the beginning of a text is found in the first part of it, or it reaches
into the second part. -/
theorem dropWord?_append (h : dropWord? w (s ++ t) = some rest) :
    (∃ left, rest = left ++ t ∧ left <:+ s) ∨ ∃ reached, reached ≠ [] ∧ t = reached ++ rest ∧
      List.Forall₂ (fun a c => sameLetter a c = true) (w.drop s.length) reached := by
  obtain ⟨part, split, same⟩ := dropWord?_eq_some_iff.1 h
  rcases List.append_eq_append_iff.1 split with ⟨m, rfl, rfl⟩ | ⟨m, rfl, rfl⟩
  · cases m with
    | nil => exact Or.inl ⟨[], rfl, List.nil_suffix⟩
    | cons c m =>
      refine Or.inr ⟨c :: m, List.cons_ne_nil _ _, rfl, ?_⟩
      simpa using List.forall₂_drop s.length same
  · exact Or.inl ⟨m, rfl, List.suffix_append _ _⟩

/-- The letters of the words that lead to an expression. -/
def leadIn : List Char := ['o', 'f', ' ']

theorem of_leadIn_eq_append (ne : s ≠ []) (h : leadIn ++ t = s ++ rest) :
    s = ['o'] ∨ s = ['o', 'f'] ∨ ∃ more, s = 'o' :: 'f' :: ' ' :: more := by
  have h : 'o' :: 'f' :: ' ' :: t = s ++ rest := h
  match s, ne with
  | [c], _ =>
    obtain rfl := (List.cons.inj h).1
    exact Or.inl rfl
  | [c, d], _ =>
    rw [List.cons_append, List.cons_append, List.cons.injEq, List.cons.injEq] at h
    obtain ⟨rfl, rfl, -⟩ := h
    exact Or.inr (Or.inl rfl)
  | c :: d :: e :: more, _ =>
    simp only [List.cons_append, List.cons.injEq] at h
    obtain ⟨rfl, rfl, rfl, -⟩ := h
    exact Or.inr (Or.inr ⟨more, rfl⟩)

/-- A word does not end in a part of a lead-in. -/
def KeepsLeadIn (w : List Char) : Prop :=
  ¬ ['o'] <:+ lowered w ∧ ¬ ['o', 'f'] <:+ lowered w

/-- Such a word of letters is not found where it would reach into a lead-in. -/
theorem KeepsLeadIn.stops (keeps : KeepsLeadIn w) (letters : ∀ c ∈ w, isAsciiLetter c)
    (h : dropWord? w (s ++ (leadIn ++ t)) = some rest) :
    ∃ left, rest = left ++ (leadIn ++ t) ∧ left <:+ s := by
  rcases dropWord?_append h with found | ⟨reached, ne, split, same⟩
  · exact found
  have ends : lowered (w.drop s.length) <:+ lowered w := by
    unfold lowered
    rw [List.map_drop]
    exact List.drop_suffix _ _
  have behind : ∀ c ∈ w.drop s.length, isAsciiLetter c := fun c hc =>
    letters c (List.mem_of_mem_drop hc)
  rcases of_leadIn_eq_append ne split with rfl | rfl | ⟨more, rfl⟩
  · rw [(forall₂_sameLetter_iff behind (List.all_eq_true.1 (by decide))).1 same] at ends
    exact absurd ends keeps.1
  · rw [(forall₂_sameLetter_iff behind (List.all_eq_true.1 (by decide))).1 same] at ends
    exact absurd ends keeps.2
  · -- a letter would stand for the blank
    obtain ⟨a, _, -, second, hw⟩ := List.forall₂_cons_right_iff.1 same
    obtain ⟨b, _, -, third, rfl⟩ := List.forall₂_cons_right_iff.1 second
    obtain ⟨d, _, blank, -, rfl⟩ := List.forall₂_cons_right_iff.1 third
    have letter := behind d (by simp [hw])
    rw [not_sameLetter_of_isBlank letter (by decide)] at blank
    cases blank

theorem keepsLeadIn_function {f : String} (h : f ∈ knownFunctions) : KeepsLeadIn f.toList := by
  have table : knownFunctions.all (fun f => decide (¬ ['o'] <:+ lowered f.toList) &&
      decide (¬ ['o', 'f'] <:+ lowered f.toList)) = true := rfl
  have := List.all_eq_true.1 table f h
  unfold KeepsLeadIn
  simpa only [Bool.and_eq_true, decide_eq_true_eq] using this

/-- No word is found where it would reach into a lead-in whose first letter is not in it. -/
theorem stops_of_not_same (h : ∀ a ∈ w, sameLetter a 'o' = false)
    (found : dropWord? w (s ++ (leadIn ++ t)) = some rest) :
    ∃ left, rest = left ++ (leadIn ++ t) ∧ left <:+ s := by
  rcases dropWord?_append found with stops | ⟨reached, ne, split, same⟩
  · exact stops
  · obtain ⟨c, reached, rfl⟩ := List.exists_cons_of_ne_nil ne
    obtain rfl : 'o' = c := (List.cons.inj split).1
    obtain ⟨a, _, alike, -, hw⟩ := List.forall₂_cons_right_iff.1 same
    have inside : a ∈ w := List.mem_of_mem_drop (hw ▸ List.mem_cons_self)
    rw [h a inside] at alike
    cases alike

/-- No lead-in begins before another one and reaches into it. -/
theorem afterLead?_stops {c : Char} (h : afterLead? (c :: (s ++ (leadIn ++ t))) = some rest) :
    ∃ left, rest = left ++ (leadIn ++ t) ∧ left <:+ s := by
  have others : ['f', ' '].all (fun a => !sameLetter a 'o') = true := rfl
  have behind : ∀ {a : Char} {w : List Char}, w ⊆ ['f', ' '] →
      dropWord? (a :: w) (c :: (s ++ (leadIn ++ t))) = some rest →
      ∃ left, rest = left ++ (leadIn ++ t) ∧ left <:+ s := by
    intro a w hw found
    rw [dropWord?] at found
    split_ifs at found
    refine stops_of_not_same (fun b hb => ?_) found
    simpa using List.all_eq_true.1 others b (hw hb)
  unfold afterLead? at h
  cases first : dropWord? ['o', 'f', ' '] (c :: (s ++ (leadIn ++ t))) with
  | some left =>
    rw [first] at h
    obtain rfl : left = rest := Option.some.inj h
    exact behind (by simp) first
  | none =>
    rw [first] at h
    exact behind (a := ':') (w := [' ']) (by simp) h

section LeadIns

variable (letters : ∀ c ∈ v, isAsciiLetter c) (ne : v ≠ [])

include letters

/-- No lexeme that begins before a lead-in reaches into it. -/
theorem afterLexeme_stops (keeps : KeepsLeadIn v) (h : rest ∈ afterLexeme v (s ++ (leadIn ++ t))) :
    ∃ left, rest = left ++ (leadIn ++ t) ∧ left <:+ s := by
  rcases mem_afterLexeme_iff.1 h with ⟨f, hf, found⟩ | found | ⟨c, split, hc⟩
  · exact (keepsLeadIn_function hf).stops (function_letters hf).1 found
  · exact keeps.stops letters found
  · cases s with
    | nil =>
      obtain rfl : 'o' = c := (List.cons.inj split).1
      exact absurd hc (by decide)
    | cons d s => exact ⟨s, (List.cons.inj split).2.symm, List.suffix_cons d s⟩

/-- No run that begins before a lead-in reaches into it. -/
theorem Runs.stops (keeps : KeepsLeadIn v) {start : List Char} (run : Runs v start last)
    (h : start = s ++ (leadIn ++ t)) : ∃ left, last = left ++ (leadIn ++ t) ∧ left <:+ s := by
  induction run generalizing s with
  | stop => exact ⟨s, h, List.suffix_rfl⟩
  | next first _ ih =>
    subst h
    obtain ⟨left, rfl, inside⟩ := afterLexeme_stops letters keeps (first ▸ List.mem_cons_self)
    obtain ⟨left', hlast, inside'⟩ := ih rfl
    exact ⟨left', hlast, inside'.trans inside⟩

include letters ne

/-- The last lead-in of a question is found, and all of the expression behind it. -/
theorem leadRuns_last (keeps : KeepsLeadIn v) (whole : Runs v t []) (some : t ≠ []) {fuel : Nat}
    (long : (s ++ (leadIn ++ t)).length ≤ fuel) :
    ∃ front, leadRuns v fuel (s ++ (leadIn ++ t)) = front ++ [t] := by
  induction hn : s.length using Nat.strong_induction_on generalizing s fuel with
  | _ n ih =>
    subst hn
    obtain ⟨fuel, rfl⟩ : ∃ k, fuel = k + 1 := ⟨fuel - 1, by simp [leadIn] at long; omega⟩
    cases s with
    | nil =>
      have lead : afterLead? ('o' :: 'f' :: ' ' :: t) = Option.some t := rfl
      have empty : leadRuns v fuel [] = [] := by cases fuel <;> rfl
      refine ⟨[], (leadRuns_lead ne _ lead whole).trans ?_⟩
      rw [if_neg some.symm, empty]
      simp [before]
    | cons c s =>
      have shorter : ∀ {left : List Char}, left <:+ s →
          ∃ front, leadRuns v fuel (left ++ (leadIn ++ t)) = front ++ [t] := by
        intro left inside
        have bound := inside.length_le
        refine ih left.length (by simp; omega) ?_ rfl
        simp only [List.length_append, List.length_cons] at long ⊢
        omega
      rw [List.cons_append]
      cases lead : afterLead? (c :: (s ++ (leadIn ++ t))) with
      | none =>
        rw [leadRuns_skip lead]
        exact shorter List.suffix_rfl
      | some start =>
        obtain ⟨left, rfl, inside⟩ := afterLead?_stops lead
        obtain ⟨last, run⟩ := exists_runs ne (left ++ (leadIn ++ t))
        rw [leadRuns_lead ne _ lead run]
        split_ifs with stays
        · exact shorter List.suffix_rfl
        · obtain ⟨left', rfl, inside'⟩ := run.stops letters keeps rfl
          obtain ⟨front, found⟩ := shorter (inside'.trans inside)
          exact ⟨_ :: front, by rw [found, List.cons_append]⟩

end LeadIns

/-! ## Expressions -/

/-- The tokens of expressions in a variable. -/
inductive IsToken (v : List Char) : List Char → Prop where
  | unknown : IsToken v v
  | function {f : String} : f ∈ knownFunctions → IsToken v f.toList
  | mark {c : Char} : isExpressionChar c → IsToken v [c]

/-- A text of tokens, one after the other. -/
def IsExpressionText (v s : List Char) : Prop :=
  ∃ tokens : List (List Char), (∀ t ∈ tokens, IsToken v t) ∧ s = tokens.flatten

/-- A variable that is mistaken for nothing else: it does not end like a lead-in, and no function
begins in it, unless all of it is functions. -/
structure StandsApart (v : List Char) : Prop where
  keeps : KeepsLeadIn v
  root : lowered v ≠ "sqr".toList
  functions : (∀ f ∈ knownFunctions, ¬ f.toList <+: lowered v) ∨
    ∃ fs : List String, (∀ f ∈ fs, f ∈ knownFunctions) ∧
      lowered v = (fs.map String.toList).flatten

/-- The first lexeme that fits is the one at which all functions agree that fit. -/
theorem afterLexeme_function {f : String} (hf : f ∈ knownFunctions)
    (found : dropWord? f.toList s = some rest)
    (only : ∀ g ∈ knownFunctions, ∀ r, dropWord? g.toList s = some r → r = rest) :
    ∃ others, afterLexeme v s = rest :: others := by
  have head : ∀ l : List String, f ∈ l → l ⊆ knownFunctions → ∃ others,
      (l.map String.toList).filterMap (dropWord? · s) = rest :: others := by
    intro l
    induction l with
    | nil => simp
    | cons g l ih =>
      intro mem sub
      rw [List.map_cons]
      cases here : dropWord? g.toList s with
      | some r =>
        obtain rfl := only g (sub List.mem_cons_self) r here
        simp only [List.filterMap_cons, here, List.cons.injEq, true_and, exists_eq']
      | none =>
        simp only [List.filterMap_cons, here]
        refine ih ?_ fun x hx => sub (List.mem_cons_of_mem g hx)
        rcases List.mem_cons.1 mem with rfl | mem
        · rw [found] at here
          cases here
        · exact mem
  obtain ⟨others, first⟩ := head knownFunctions hf fun _ => id
  unfold afterLexeme
  rw [List.filterMap_append, first]
  exact ⟨_, rfl⟩

/-- Where no function fits, the variable is taken. -/
theorem afterLexeme_variable (none : ∀ f ∈ knownFunctions, dropWord? f.toList s = none)
    (found : dropWord? v s = some rest) : ∃ others, afterLexeme v s = rest :: others := by
  have nothing : (knownFunctions.map String.toList).filterMap (dropWord? · s) = [] := by
    simpa [List.filterMap_eq_nil_iff] using none
  unfold afterLexeme
  rw [List.filterMap_append, nothing, List.nil_append]
  simp only [List.filterMap_cons, found]
  exact ⟨_, rfl⟩

/-- Letters that are the name of a function are taken for it, and for no other one. -/
theorem function_at {f g : String} (hf : f ∈ knownFunctions) (hg : g ∈ knownFunctions)
    (letters : ∀ c ∈ s, isAsciiLetter c) (named : lowered s = f.toList)
    (found : dropWord? g.toList (s ++ t) = some rest) : rest = t := by
  obtain ⟨inside, small, -⟩ := function_letters hg
  have length := congrArg List.length named
  unfold lowered at length
  rw [List.length_map] at length
  obtain ⟨part, split, same⟩ := dropWord?_eq_some_iff.1 found
  have size := same.length_eq
  rcases List.append_eq_append_iff.1 split with ⟨m, rfl, rfl⟩ | ⟨m, rfl, rfl⟩
  · have front := List.forall₂_take s.length same
    rw [List.take_left, forall₂_sameLetter_iff (fun c hc => inside c (List.mem_of_mem_take hc))
      letters, named, lowered, List.map_take, ← lowered, small] at front
    obtain rfl := function_prefix hf hg (front ▸ List.take_prefix _ _)
    obtain rfl : m = [] := List.length_eq_zero_iff.1 (by rw [List.length_append] at size; omega)
    rfl
  · rw [forall₂_sameLetter_iff inside fun c hc => letters c (List.mem_append_left m hc),
      small] at same
    have front : g.toList <+: f.toList := by
      rw [← named, same]
      simp [lowered]
    obtain rfl := function_prefix hg hf front
    obtain rfl : m = [] := List.length_eq_zero_iff.1 (by rw [List.length_append] at length; omega)
    rfl

theorem dropWord?_self (letters : ∀ c ∈ s, isAsciiLetter c) (same : lowered w = lowered s)
    (hw : ∀ c ∈ w, isAsciiLetter c) : dropWord? w (s ++ t) = some t :=
  dropWord?_eq_some_iff.2 ⟨s, rfl, (forall₂_sameLetter_iff hw letters).2 same⟩

/-- A function in any case is the first lexeme where it stands. -/
theorem Runs.function {f : String} (hf : f ∈ knownFunctions) (letters : ∀ c ∈ s, isAsciiLetter c)
    (named : lowered s = f.toList) (run : Runs v t last) : Runs v (s ++ t) last := by
  obtain ⟨inside, small, -⟩ := function_letters hf
  obtain ⟨others, first⟩ := afterLexeme_function (v := v) hf
    (dropWord?_self (t := t) letters (by rw [small, named]) inside)
    fun g hg r found => function_at hf hg letters named found
  exact .next first run

/-- Letters that are the names of functions are taken for these, one after the other. -/
theorem Runs.functions {fs : List String} (hf : ∀ f ∈ fs, f ∈ knownFunctions)
    (letters : ∀ c ∈ s, isAsciiLetter c) (named : lowered s = (fs.map String.toList).flatten)
    (run : Runs v t last) : Runs v (s ++ t) last := by
  induction fs generalizing s with
  | nil =>
    obtain rfl : s = [] := List.map_eq_nil_iff.1 named
    exact run
  | cons f fs ih =>
    obtain ⟨first, others⟩ := List.forall_mem_cons.1 hf
    rw [List.map_cons, List.flatten_cons] at named
    obtain ⟨front, back, rfl, hfront, hback⟩ := List.map_eq_append_iff.1 named
    rw [List.append_assoc]
    exact .function first (fun c hc => letters c (List.mem_append_left _ hc)) hfront
      (ih others (fun c hc => letters c (List.mem_append_right _ hc)) hback)

theorem Runs.mark (letters : ∀ c ∈ v, isAsciiLetter c) (ne : v ≠ []) {c : Char}
    (hc : isExpressionChar c) (run : Runs v t last) : Runs v (c :: t) last := by
  have words : (knownFunctions.map String.toList ++ [v]).filterMap (dropWord? · (c :: t)) = [] := by
    rw [List.filterMap_eq_nil_iff]
    intro w hw
    rcases List.mem_append.1 hw with hw | hw
    · obtain ⟨f, hf, rfl⟩ := List.mem_map.1 hw
      exact dropWord?_expressionChar (function_letters hf).1 (function_letters hf).2.2 hc t
    · obtain rfl := List.mem_singleton.1 hw
      exact dropWord?_expressionChar letters ne hc t
  have first : afterLexeme v (c :: t) = [t] := by
    unfold afterLexeme
    rw [words, List.nil_append]
    exact if_pos hc
  exact .next first run

theorem runs_nil (ne : v ≠ []) : Runs v [] [] := by
  refine .stop (List.eq_nil_iff_forall_not_mem.2 fun rest mem => ?_)
  obtain ⟨part, nonempty, split⟩ := exists_of_mem_afterLexeme ne mem
  exact nonempty (List.append_eq_nil_iff.1 split.symm).1

/-- A letter that begins an expression begins its variable or a function. -/
theorem IsExpressionText.head (h : IsExpressionText v s) (ne : v ≠ []) {c : Char}
    (hc : c ∈ s.head?) :
    isExpressionChar c ∨ c ∈ v.head? ∨ ∃ f ∈ knownFunctions, c ∈ f.toList.head? := by
  obtain ⟨tokens, all, rfl⟩ := h
  cases tokens with
  | nil => cases hc
  | cons t tokens =>
    rw [List.flatten_cons] at hc
    cases all t List.mem_cons_self with
    | unknown =>
      rw [List.head?_append_of_ne_nil _ ne] at hc
      exact Or.inr (Or.inl hc)
    | @function f hf =>
      rw [List.head?_append_of_ne_nil _ (function_letters hf).2.2] at hc
      exact Or.inr (Or.inr ⟨f, hf, hc⟩)
    | mark hmark =>
      obtain rfl := Option.some.inj hc
      exact Or.inl hmark

/-- Within a function, letters that begin one stand behind these two parts only. -/
theorem function_inside {f g : String} (hf : f ∈ knownFunctions) (hg : g ∈ knownFunctions) {n : Nat}
    {c : Char} (hn : n ≠ 0) (hc : c ∈ (f.toList.drop n).head?) (first : c ∈ g.toList.head?) :
    f.toList.take n = "co".toList ∨ f.toList.take n = "sqr".toList := by
  have table : knownFunctions.all (fun f => knownFunctions.all fun g =>
      (List.range 4).all fun n => decide (n = 0) || !((f.toList.drop n).head? == g.toList.head?) ||
        decide (f.toList.drop n = []) ||
        decide (f.toList.take n = "co".toList ∨ f.toList.take n = "sqr".toList)) = true := by
    rfl
  have short : knownFunctions.all (fun f => decide (f.toList.length ≤ 4)) = true := by
    rfl
  have bound := List.all_eq_true.1 short f hf
  rw [decide_eq_true_eq] at bound
  have nonempty : f.toList.drop n ≠ [] := by
    intro empty
    rw [empty] at hc
    cases hc
  have below : n < 4 := by
    by_contra high
    exact nonempty (List.drop_eq_nil_of_le (by omega))
  have row := List.all_eq_true.1 (List.all_eq_true.1 (List.all_eq_true.1 table f hf) g hg) n
    (List.mem_range.2 below)
  rw [Option.mem_def.1 hc, Option.mem_def.1 first] at row
  simpa [hn, nonempty] using row

theorem function_small {f : String} (hf : f ∈ knownFunctions) {a : Char} (ha : a ∈ f.toList) :
    a.toLower = a := by
  have table : knownFunctions.all (fun f => f.toList.all fun a => decide (a.toLower = a)) = true := by
    rfl
  exact of_decide_eq_true (List.all_eq_true.1 (List.all_eq_true.1 table f hf) a ha)

/-- A function that is found where no function is a beginning reaches beyond the letters there. -/
theorem function_beyond {f : String} (hf : f ∈ knownFunctions)
    (letters : ∀ c ∈ s, isAsciiLetter c) (absent : ¬ f.toList <+: lowered s)
    (found : dropWord? f.toList (s ++ t) = some rest) :
    f.toList.take s.length = lowered s ∧
      ∃ a ∈ (f.toList.drop s.length).head?, ∃ c ∈ t.head?, sameLetter a c = true := by
  obtain ⟨inside, small, -⟩ := function_letters hf
  obtain ⟨part, split, same⟩ := dropWord?_eq_some_iff.1 found
  rcases List.append_eq_append_iff.1 split with ⟨m, rfl, rfl⟩ | ⟨m, rfl, rfl⟩
  · have front := List.forall₂_take s.length same
    have back := List.forall₂_drop s.length same
    rw [List.take_left, forall₂_sameLetter_iff (fun c hc => inside c (List.mem_of_mem_take hc))
      letters, lowered, List.map_take, ← lowered, small] at front
    rw [List.drop_left] at back
    cases m with
    | nil =>
      have whole := List.take_append_drop s.length f.toList
      rw [List.forall₂_nil_right_iff.1 back, List.append_nil, front] at whole
      exact absurd (whole ▸ List.prefix_rfl) absent
    | cons c m =>
      obtain ⟨a, more, alike, -, next⟩ := List.forall₂_cons_right_iff.1 back
      exact ⟨front, a, next ▸ rfl, c, rfl, alike⟩
  · rw [forall₂_sameLetter_iff inside fun c hc => letters c (List.mem_append_left m hc),
      small] at same
    refine absurd ?_ absent
    rw [same]
    simp [lowered]

/-- Where the variable stands, no function is found, neither in it nor beyond its end. -/
theorem StandsApart.no_function (apart : StandsApart v) (letters : ∀ c ∈ v, isAsciiLetter c)
    (ne : v ≠ []) (absent : ∀ f ∈ knownFunctions, ¬ f.toList <+: lowered v)
    (ht : IsExpressionText v t) : ∀ f ∈ knownFunctions, dropWord? f.toList (v ++ t) = none := by
  intro f hf
  by_contra present
  obtain ⟨rest, found⟩ := Option.ne_none_iff_exists'.1 present
  obtain ⟨inside, -⟩ := function_letters hf
  obtain ⟨front, a, head, c, next, alike⟩ := function_beyond hf letters (absent f hf) found
  have mem : a ∈ f.toList := List.mem_of_mem_drop (List.mem_of_head? head)
  have length : v.length ≠ 0 := mt List.length_eq_zero_iff.1 ne
  -- the letter behind the variable begins the variable again, or another function
  have begins : ∃ g ∈ knownFunctions, a ∈ g.toList.head? := by
    rcases ht.head ne next with mark | unknown | ⟨g, hg, first⟩
    · rw [not_sameLetter_of_expressionChar (inside a mem) mark] at alike
      cases alike
    · have equal := (sameLetter_iff (inside a mem) (letters c (List.mem_of_head? unknown))).1 alike
      rw [function_small hf mem] at equal
      have first : c.toLower ∈ (lowered v).head? := by
        rw [lowered, List.head?_map, Option.mem_def.1 unknown]
        rfl
      rw [← front, List.head?_take, if_neg length, ← equal] at first
      exact ⟨f, hf, first⟩
    · have equal := (sameLetter_iff (inside a mem)
        ((function_letters hg).1 c (List.mem_of_head? first))).1 alike
      rw [function_small hf mem, function_small hg (List.mem_of_head? first)] at equal
      exact ⟨g, hg, equal ▸ first⟩
  obtain ⟨g, hg, first⟩ := begins
  rcases function_inside hf hg length head first with co | sqr
  · exact apart.keeps.1 (front ▸ co ▸ by decide)
  · exact apart.root (front ▸ sqr)

/-- All of an expression is one run, as long as its variable stands apart. -/
theorem StandsApart.runs (apart : StandsApart v) (letters : ∀ c ∈ v, isAsciiLetter c) (ne : v ≠ [])
    (h : IsExpressionText v s) : Runs v s [] := by
  obtain ⟨tokens, all, rfl⟩ := h
  induction tokens with
  | nil => exact runs_nil ne
  | cons t tokens ih =>
    obtain ⟨first, others⟩ := List.forall_mem_cons.1 all
    have run := ih others
    rw [List.flatten_cons]
    cases first with
    | unknown =>
      rcases apart.functions with absent | ⟨fs, hf, named⟩
      · obtain ⟨more, first⟩ := afterLexeme_variable
          (apart.no_function letters ne absent ⟨tokens, others, rfl⟩)
          (dropWord?_self letters rfl letters)
        exact .next first run
      · exact .functions hf letters named run
    | function hf =>
      exact .function hf (function_letters hf).1 (function_letters hf).2.1 run
    | mark hc => exact .mark letters ne hc run

/-- The last run that is not blank is the expression of a question. -/
theorem extractExpression_of_leadRuns {question name : String} {front : List (List Char)}
    (h : leadRuns name.toList question.toList.length question.toList = front ++ [t])
    (nonblank : stripBlank t ≠ []) :
    extractExpression question name = String.ofList (stripBlank t) := by
  unfold extractExpression
  dsimp only
  rw [h, List.map_append, List.filter_append, List.map_singleton,
    List.filter_cons_of_pos (by simpa using nonblank), List.filter_nil, List.getLast?_concat]

/-! ## Variables that are mistaken -/

/-- A text no part of which leads to an expression has no runs. -/
theorem leadRuns_none (h : ∀ t, t <:+ s → afterLead? t = none) (fuel : Nat) :
    leadRuns v fuel s = [] := by
  induction fuel generalizing s with
  | zero => rfl
  | succ fuel ih =>
    cases s with
    | nil => rfl
    | cons c s =>
      rw [leadRuns_skip (h _ List.suffix_rfl)]
      exact ih fun t ht => h t (ht.trans (List.suffix_cons c s))

/-- Letters lead to no expression, as a blank stands in the words that do. -/
theorem afterLead?_letters (h : ∀ c ∈ s, isAsciiLetter c) : afterLead? s = none := by
  have apart : alphabet.all (fun c => !sameLetter ' ' c) = true := rfl
  have unlike : ∀ c ∈ s, sameLetter ' ' c = false := fun c hc => by
    simpa using of_alphabet apart (h c hc)
  unfold afterLead?
  rw [dropWord?_of_unlike (by simp) unlike, dropWord?_of_unlike (by simp) unlike]
  rfl

theorem leadRuns_letters (h : ∀ c ∈ s, isAsciiLetter c) (fuel : Nat) : leadRuns v fuel s = [] :=
  leadRuns_none (fun _ ht => afterLead?_letters fun c hc => h c (ht.subset hc)) fuel

/-- A question with words that lead to an expression at its beginning alone gives the run behind
these. -/
theorem extractExpression_after {question name : String} {run : List Char} (ne : name.toList ≠ [])
    (asked : question.toList = leadIn ++ (run ++ rest)) (runs : Runs name.toList (run ++ rest) rest)
    (nonblank : stripBlank run ≠ []) (none : ∀ fuel, leadRuns name.toList fuel rest = []) :
    extractExpression question name = String.ofList (stripBlank run) := by
  have some : run ≠ [] := by
    rintro rfl
    exact nonblank rfl
  have lead : afterLead? ('o' :: 'f' :: ' ' :: (run ++ rest)) = Option.some (run ++ rest) := rfl
  have found := leadRuns_lead ne ((run ++ rest).length + 2) lead runs
  have all : before (run ++ rest) rest = run := by simp [before]
  rw [if_neg (by simpa using some), all, none] at found
  have asked' : leadRuns name.toList question.toList.length question.toList = [] ++ [run] := by
    rw [asked]
    exact found
  exact extractExpression_of_leadRuns asked' nonblank

/-- Letters that a run uses up without the variable are the names of functions. -/
theorem functions_of_runs (letters : ∀ c ∈ s, isAsciiLetter c) (shorter : s.length < v.length)
    (run : Runs v s []) : ∃ fs : List String, (∀ f ∈ fs, f ∈ knownFunctions) ∧
      lowered s = (fs.map String.toList).flatten := by
  generalize hlast : ([] : List Char) = last at run
  induction run with
  | stop =>
    subst hlast
    exact ⟨[], by simp, rfl⟩
  | @next s rest _ _ first run ih =>
    rcases mem_afterLexeme_iff.1 (first ▸ List.mem_cons_self) with
      ⟨f, hf, found⟩ | found | ⟨c, rfl, hc⟩
    · obtain ⟨part, rfl, same⟩ := dropWord?_eq_some_iff.1 found
      obtain ⟨hpart, hrest⟩ := List.forall_mem_append.1 letters
      rw [List.length_append] at shorter
      obtain ⟨fs, known, named⟩ := ih hrest (by omega) hlast
      refine ⟨f :: fs, List.forall_mem_cons.2 ⟨hf, known⟩, ?_⟩
      obtain ⟨inside, small, -⟩ := function_letters hf
      rw [forall₂_sameLetter_iff inside hpart, small] at same
      unfold lowered at same named ⊢
      rw [List.map_append, ← same, named, List.map_cons, List.flatten_cons]
    · obtain ⟨part, rfl, same⟩ := dropWord?_eq_some_iff.1 found
      rw [List.length_append, same.length_eq] at shorter
      omega
    · have letter := letters c List.mem_cons_self
      have self := (sameLetter_iff letter letter).2 rfl
      rw [not_sameLetter_of_expressionChar letter hc] at self
      cases self

/-- Letters are no blanks at the ends of a text. -/
theorem stripBlank_letters (letters : ∀ c ∈ s, isAsciiLetter c) : stripBlank s = s := by
  cases s with
  | nil => rfl
  | cons a s =>
    have unspaced : ∀ c ∈ a :: s, isBlank c = false := fun c hc => by
      simpa using not_isBlank_of_isAsciiLetter (letters c hc)
    exact stripBlank_eq_self (List.cons_ne_nil a s)
      (fun c hc => unspaced c (List.mem_of_head? hc))
      fun c hc => unspaced c (List.mem_of_getLast? hc)

section Mistaken

variable {name : String} (letters : ∀ c ∈ name.toList, isAsciiLetter c) (ne : name.toList ≠ [])
  (whole : ∀ before expression : String, IsExpressionText name.toList expression.toList →
    stripText expression ≠ "" →
    extractExpression (before ++ "of " ++ expression) name = stripText expression)

include ne whole

/-- All of an expression is in the run behind the words that lead to it. -/
theorem run_of_whole {before expression run : List Char}
    (tokens : IsExpressionText name.toList expression) (nonblank : stripBlank expression ≠ [])
    (split : before ++ (leadIn ++ expression) = leadIn ++ (run ++ rest))
    (runs : Runs name.toList (run ++ rest) rest) (some : stripBlank run ≠ [])
    (none : ∀ fuel, leadRuns name.toList fuel rest = []) :
    stripBlank run = stripBlank expression := by
  have asked : (String.ofList before ++ "of " ++ String.ofList expression).toList =
      leadIn ++ (run ++ rest) := by
    rw [← split]
    simp [leadIn]
  have found := whole (String.ofList before) (String.ofList expression)
    (by rwa [String.toList_ofList]) (by simpa [stripText] using nonblank)
  rw [extractExpression_after ne asked runs some none, stripText, String.toList_ofList] at found
  exact String.ofList_injective found

include letters

/-- The variable is not the beginning of a root, which a tangent behind it would complete. -/
theorem not_sqr_of_whole : lowered name.toList ≠ "sqr".toList := by
  intro root
  have length : name.toList.length = 3 := by simpa [lowered] using congrArg List.length root
  have tan : ∀ c ∈ "tan".toList, isAsciiLetter c := List.all_eq_true.1 (by decide)
  have spelled : ∀ c ∈ name.toList ++ "tan".toList, isAsciiLetter c :=
    List.forall_mem_append.2 ⟨letters, tan⟩
  have shortened : ∀ c ∈ name.toList ++ ['t'], isAsciiLetter c :=
    List.forall_mem_append.2 ⟨letters, fun c hc => tan c (by simp_all)⟩
  have stops : afterLexeme name.toList "an".toList = [] := by
    refine afterLexeme_eq_nil (by rfl) (fun rest found => ?_) rfl
    obtain ⟨part, split, same⟩ := dropWord?_eq_some_iff.1 found
    have := congrArg List.length split
    rw [List.length_append, ← same.length_eq, length] at this
    have two : "an".toList.length = 2 := rfl
    omega
  have runs : Runs name.toList ((name.toList ++ ['t']) ++ "an".toList) "an".toList := by
    have known : "sqrt" ∈ knownFunctions := by decide
    refine .function known shortened ?_ (.stop stops)
    rw [lowered, List.map_append, ← lowered, root]
    rfl
  have tokens : IsExpressionText name.toList (name.toList ++ "tan".toList) := by
    have known : "tan" ∈ knownFunctions := by decide
    refine ⟨[name.toList, "tan".toList], ?_, by simp⟩
    simpa using ⟨IsToken.unknown, IsToken.function known⟩
  have asked : [] ++ (leadIn ++ (name.toList ++ "tan".toList)) =
      leadIn ++ ((name.toList ++ ['t']) ++ "an".toList) := by simp
  have equal := run_of_whole ne whole tokens (by rw [stripBlank_letters spelled]; simp) asked runs
    (by rw [stripBlank_letters shortened]; simp)
    (leadRuns_letters fun c hc => tan c (List.mem_cons_of_mem _ hc))
  rw [stripBlank_letters spelled, stripBlank_letters shortened] at equal
  simp at equal

theorem functions_of_whole : (∀ f ∈ knownFunctions, ¬ f.toList <+: lowered name.toList) ∨
    ∃ fs : List String, (∀ f ∈ fs, f ∈ knownFunctions) ∧
      lowered name.toList = (fs.map String.toList).flatten := by
  by_contra mistaken
  obtain ⟨begins, named⟩ := not_or.1 mistaken
  push Not at begins
  obtain ⟨f, hf, behind, front⟩ := begins
  -- the function is taken where the variable stands alone, and the rest is no run of functions
  obtain ⟨part, more, split, hpart, hmore⟩ := List.map_eq_append_iff.1 front.symm
  have spelled := letters
  rw [split] at spelled
  obtain ⟨lpart, lmore⟩ := List.forall_mem_append.1 spelled
  have long : part ≠ [] := by
    rintro rfl
    exact (function_letters hf).2.2 hpart.symm
  have shorter : more.length < name.toList.length := by
    have := List.length_pos_iff.2 long
    rw [split, List.length_append]
    omega
  obtain ⟨last, run⟩ := exists_runs ne more
  obtain ⟨taken, rfl⟩ := run.suffix ne
  have left : last ≠ [] := by
    rintro rfl
    obtain ⟨fs, known, flat⟩ := functions_of_runs lmore shorter run
    refine named ⟨f :: fs, List.forall_mem_cons.2 ⟨hf, known⟩, ?_⟩
    rw [split, lowered, List.map_append, hpart, ← lowered, flat, List.map_cons, List.flatten_cons]
  rw [← List.append_assoc] at split
  have inside : ∀ c ∈ part ++ taken, isAsciiLetter c := fun c hc =>
    letters c (split ▸ List.mem_append_left _ hc)
  have runs : Runs name.toList ((part ++ taken) ++ last) last := by
    rw [List.append_assoc]
    exact .function hf lpart hpart run
  have tokens : IsExpressionText name.toList name.toList :=
    ⟨[name.toList], by simpa using IsToken.unknown, by simp⟩
  have asked : [] ++ (leadIn ++ name.toList) = leadIn ++ ((part ++ taken) ++ last) := by
    rw [← split, List.nil_append]
  have equal := run_of_whole ne whole tokens (by rwa [stripBlank_letters letters]) asked runs
    (by rw [stripBlank_letters inside]; simp [long])
    (leadRuns_letters fun c hc => lmore c (List.mem_append_right _ hc))
  rw [stripBlank_letters letters, stripBlank_letters inside] at equal
  rw [equal] at split
  exact left (List.append_right_eq_self.1 split.symm)

/-- Where the variable ends like the beginning of a lead-in, and no function begins in it, the
beginning of the lead-in is taken for the end of the variable. -/
theorem not_suffix_of_whole (absent : ∀ f ∈ knownFunctions, ¬ f.toList <+: lowered name.toList)
    {m next more : List Char} (parts : leadIn = m ++ next) (spelled : ∀ c ∈ m, isAsciiLetter c)
    (small : lowered m = m) (some : m ≠ []) (split : next ++ ['1'] = more ++ rest)
    (apart : ∀ f ∈ knownFunctions, ∀ a ∈ f.toList, ∀ c ∈ (more ++ rest).head?,
      sameLetter a c = false)
    (runs : Runs name.toList (more ++ rest) rest)
    (none : ∀ fuel, leadRuns name.toList fuel rest = []) : ¬ m <:+ lowered name.toList := by
  rintro ⟨_, ends⟩
  obtain ⟨front, back, hname, rfl, hback⟩ := List.map_eq_append_iff.1 ends.symm
  have hfront : ∀ c ∈ front, isAsciiLetter c := fun c hc =>
    letters c (hname ▸ List.mem_append_left _ hc)
  have hletters : ∀ c ∈ front ++ m, isAsciiLetter c := List.forall_mem_append.2 ⟨hfront, spelled⟩
  have same : lowered name.toList = lowered (front ++ m) := by
    rw [← ends, lowered, List.map_append, ← lowered, ← lowered, small]
  have nowhere : ∀ f ∈ knownFunctions,
      dropWord? f.toList ((front ++ m) ++ (more ++ rest)) = Option.none := by
    intro f hf
    by_contra present
    obtain ⟨_, found⟩ := Option.ne_none_iff_exists'.1 present
    obtain ⟨-, a, ha, c, hc, alike⟩ := function_beyond hf hletters (same ▸ absent f hf) found
    rw [apart f hf a (List.mem_of_mem_drop (List.mem_of_head? ha)) c hc] at alike
    cases alike
  obtain ⟨others, first⟩ := afterLexeme_variable nowhere (dropWord?_self hletters same letters)
  have all : Runs name.toList (((front ++ m) ++ more) ++ rest) rest := by
    rw [List.append_assoc]
    exact .next first runs
  have token : IsExpressionText name.toList ['1'] :=
    ⟨[['1']], by simpa using IsToken.mark (c := '1') (by decide), rfl⟩
  have asked : (leadIn ++ front) ++ (leadIn ++ ['1']) =
      leadIn ++ (((front ++ m) ++ more) ++ rest) := by
    rw [List.append_assoc, List.append_assoc (front ++ m), ← split, List.append_assoc front,
      ← List.append_assoc m, ← parts]
  -- a letter of the lead-in stands in the run, but not in the expression
  obtain ⟨c, m, rfl⟩ := List.exists_cons_of_ne_nil some
  have letter := spelled c List.mem_cons_self
  have kept : c ∈ stripBlank ((front ++ c :: m) ++ more) :=
    mem_stripBlank (by simp) (by simpa using not_isBlank_of_isAsciiLetter letter)
  rw [run_of_whole ne whole token (by decide) asked all (List.ne_nil_of_mem kept) none] at kept
  have one : stripBlank ['1'] = ['1'] := by decide
  rw [one, List.mem_singleton] at kept
  subst kept
  exact absurd letter (by decide)

/-- The end of the variable is not taken for a part of the words that lead to an expression. -/
theorem keepsLeadIn_of_whole : KeepsLeadIn name.toList := by
  rcases functions_of_whole letters ne whole with absent | ⟨fs, known, flat⟩
  · constructor
    · intro ends
      have apart : knownFunctions.all (fun f => f.toList.all fun a => !sameLetter a 'f') = true := by
        rfl
      have split : ['f', ' '] ++ ['1'] = [] ++ ['f', ' ', '1'] := rfl
      refine not_suffix_of_whole letters ne whole absent rfl (List.all_eq_true.1 (by decide)) rfl
        (by decide) split ?_ (.stop ?_) (leadRuns_none ?_) ends
      · rintro f hf a ha _ ⟨⟩
        simpa using List.all_eq_true.1 (List.all_eq_true.1 apart f hf) a ha
      · refine afterLexeme_eq_nil (by rfl) (fun rest found => ?_) rfl
        obtain ⟨part, split, same⟩ := dropWord?_eq_some_iff.1 found
        match part, split, same with
        | [], _, same => exact ne (List.forall₂_nil_right_iff.1 same)
        | [c], split, same =>
          obtain rfl : 'f' = c := (List.cons.inj split).1
          rw [(forall₂_sameLetter_iff letters (List.all_eq_true.1 (by decide))).1 same] at ends
          exact absurd ends (by decide)
        | c :: d :: _, split, same =>
          obtain rfl : ' ' = d := (List.cons.inj (List.cons.inj split).2).1
          obtain ⟨_, _, -, second, hname⟩ := List.forall₂_cons_right_iff.1 same
          obtain ⟨b, _, blank, -, rfl⟩ := List.forall₂_cons_right_iff.1 second
          rw [not_sameLetter_of_isBlank (letters b (by simp [hname])) (by decide)] at blank
          cases blank
      · intro t ht
        have table : ['f', ' ', '1'].tails.all (fun t => (afterLead? t).isNone) = true := by
          rfl
        simpa using List.all_eq_true.1 table t ((List.mem_tails _ _).2 ht)
    · have apart : knownFunctions.all (fun f => f.toList.all fun a => !sameLetter a ' ') = true := by
        rfl
      have split : [' '] ++ ['1'] = [' ', '1'] ++ [] := rfl
      refine not_suffix_of_whole letters ne whole absent rfl (List.all_eq_true.1 (by decide)) rfl
        (by decide) split ?_ ?_ (leadRuns_letters (List.forall_mem_nil _))
      · rintro f hf a ha _ ⟨⟩
        simpa using List.all_eq_true.1 (List.all_eq_true.1 apart f hf) a ha
      · exact .mark letters ne (by decide) (.mark letters ne (by decide) (runs_nil ne))
  · have some : fs ≠ [] := by
      rintro rfl
      exact ne (List.map_eq_nil_iff.1 flat)
    obtain ⟨front, f, rfl⟩ := (List.eq_nil_or_concat fs).resolve_left some
    have hf := known f (by simp)
    have ends : ∀ {m : List Char}, m.length ≤ f.toList.length → m <:+ lowered name.toList →
        m <:+ lowered f.toList := by
      intro m short suffix
      rw [(function_letters hf).2.1]
      refine List.suffix_of_suffix_length_le suffix ?_ short
      rw [flat]
      simp
    have long : 2 ≤ f.toList.length := by
      have table : knownFunctions.all (fun f => decide (2 ≤ f.toList.length)) = true := by
        rfl
      exact of_decide_eq_true (List.all_eq_true.1 table f hf)
    exact ⟨fun h => (keepsLeadIn_function hf).1 (ends (by simp; omega) h),
      fun h => (keepsLeadIn_function hf).2 (ends long h)⟩

end Mistaken

/-- An expression is found whole behind the words that lead to it, whatever stands before them,
exactly when its variable stands apart. -/
theorem expressions_are_found_whole_iff {name : String} (letters : ∀ c ∈ name.toList, isAsciiLetter c)
    (ne : name ≠ "") :
    (∀ before expression : String, IsExpressionText name.toList expression.toList →
      stripText expression ≠ "" →
      extractExpression (before ++ "of " ++ expression) name = stripText expression) ↔
    StandsApart name.toList := by
  have nonempty : name.toList ≠ [] := by simpa using ne
  constructor
  · intro whole
    exact ⟨keepsLeadIn_of_whole letters nonempty whole, not_sqr_of_whole letters nonempty whole,
      functions_of_whole letters nonempty whole⟩
  · intro apart before expression tokens nonblank
    have some : stripBlank expression.toList ≠ [] := by
      intro empty
      exact nonblank (by rw [stripText, empty])
    have some' : expression.toList ≠ [] := by
      intro empty
      rw [empty] at some
      exact some rfl
    obtain ⟨front, found⟩ := leadRuns_last letters nonempty apart.keeps
      (apart.runs letters nonempty tokens) some' (s := before.toList) le_rfl
    have asked : (before ++ "of " ++ expression).toList =
        before.toList ++ (leadIn ++ expression.toList) := by
      rw [String.toList_append, String.toList_append, List.append_assoc]
      rfl
    rw [← asked] at found
    exact extractExpression_of_leadRuns found some

/-- A product with a sine is found whole, also behind a question that leads twice to an
expression. -/
theorem the_rate_of_change_is_found :
    StandsApart "x".toList ∧
      extractExpression "Rate of change of x*sin(x) " "x" = "x*sin(x)" := by
  have letters : ∀ c ∈ "x".toList, isAsciiLetter c := List.all_eq_true.1 (by decide)
  have apart : StandsApart "x".toList := by
    refine ⟨by unfold KeepsLeadIn; decide, by decide, Or.inl ?_⟩
    have table : knownFunctions.all (fun f => decide (¬ f.toList <+: lowered "x".toList)) = true := by
      decide +kernel
    exact fun f hf => of_decide_eq_true (List.all_eq_true.1 table f hf)
  have tokens : IsExpressionText "x".toList "x*sin(x) ".toList := by
    have sine : "sin" ∈ knownFunctions := by decide
    refine ⟨["x".toList, ['*'], "sin".toList, ['('], "x".toList, [')'], [' ']], ?_, rfl⟩
    simp only [List.forall_mem_cons, List.not_mem_nil, false_imp_iff, implies_true, and_true]
    exact ⟨.unknown, .mark (by decide), .function sine, .mark (by decide), .unknown,
      .mark (by decide), .mark (by decide)⟩
  have found := (expressions_are_found_whole_iff letters (by decide)).2 apart "Rate of change "
    "x*sin(x) " tokens (by decide)
  exact ⟨apart, found⟩

/-- A variable that begins like a function is cut short, and so is one that ends like the words that
lead to an expression. -/
theorem the_variable_is_taken_for_a_function :
    IsExpressionText "expr".toList "expr+1".toList ∧
      extractExpression "of expr+1" "expr" = "exp" ∧
      IsExpressionText "o".toList "1".toList ∧ extractExpression "of of 1" "o" = "o" := by
  refine ⟨⟨["expr".toList, ['+'], ['1']], ?_, rfl⟩, by decide +kernel, ⟨[['1']], ?_, rfl⟩,
    by decide +kernel⟩
  · simp only [List.forall_mem_cons, List.not_mem_nil, false_imp_iff, implies_true, and_true]
    exact ⟨.unknown, .mark (by decide), .mark (by decide)⟩
  · simp only [List.forall_mem_cons, List.not_mem_nil, false_imp_iff, implies_true, and_true]
    exact .mark (by decide)

end Reckoner
