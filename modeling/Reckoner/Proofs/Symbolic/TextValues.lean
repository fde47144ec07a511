-- Texts as the values of symbols. They are read without the checks that the text of an expression
-- passes. Where no check refuses one, it stands for the expression that is read from it, unless it
-- has several lines or a letter with a meaning of its own.
import Mathlib
import Reckoner.Proofs.Reading.KnownNames
import Reckoner.Proofs.Reading.PhraseValues
import Reckoner.Proofs.Reading.WholeTokens
import Reckoner.Symbolic.Evaluation

namespace Reckoner

/-! ## Meanings among other symbols -/

section Others

variable {symbols others : List String}

theorem nameMeaning_congr {s : String} (h : s ∈ symbols ↔ s ∈ others) :
    nameMeaning symbols s = nameMeaning others s := by
  have same : symbols.contains s = others.contains s := by
    rw [Bool.eq_iff_iff, List.contains_iff_mem, List.contains_iff_mem, h]
  unfold nameMeaning
  rw [same]

/-- A tree means the same among symbols that have the same of its names. -/
theorem Tree.meaning_congr {t : Tree} (h : ∀ s ∈ t.mentions, s ∈ symbols ↔ s ∈ others) :
    t.meaning symbols = t.meaning others := by
  induction t with
  | name s => exact nameMeaning_congr (h s (List.mem_singleton_self s))
  | whole s | decimal s | nothing => rfl
  | call f a ih =>
    obtain ⟨called, inner⟩ := List.forall_mem_cons.1 h
    have same : symbols.contains f = others.contains f := by
      rw [Bool.eq_iff_iff, List.contains_iff_mem, List.contains_iff_mem, called]
    rw [Tree.meaning, Tree.meaning, same, ih inner]
  | positive a ih | negative a ih => rw [Tree.meaning, Tree.meaning, ih h]
  | binary o a b iha ihb =>
    obtain ⟨left, right⟩ := List.forall_mem_append.1 h
    rw [Tree.meaning, Tree.meaning, iha left, ihb right]

theorem combine_ne_absent {o : BinaryOperator} {a b : Meaning} : combine o a b ≠ some .absent := by
  cases a <;> cases b <;> simp [combine, Meaning.count?, Option.bind_eq_some_iff]

/-- Only the word for no value means none. -/
theorem Tree.meaning_ne_absent {t : Tree} (h : "None" ∉ t.names) :
    t.meaning symbols ≠ some .absent := by
  intro absent
  cases t with
  | name s =>
    have other : s ≠ "None" := fun same => h (by simp [Tree.names, same])
    unfold Tree.meaning nameMeaning at absent
    rw [if_neg other] at absent
    repeat' split at absent
    all_goals cases absent
  | whole s => simp [Tree.meaning] at absent
  | decimal s | nothing => cases absent
  | call f a =>
    unfold Tree.meaning at absent
    repeat' split at absent
    all_goals cases absent
  | positive a | negative a =>
    unfold Tree.meaning at absent
    split at absent
    · cases absent
    · simp at absent
    · cases absent
  | binary o a b =>
    unfold Tree.meaning at absent
    split at absent
    · exact combine_ne_absent absent
    · cases absent

end Others

/-! ## Both ways to read a text -/

namespace Symbolic

/-- The letters that mean more than a symbol where a text stands for a value. -/
def ownLetters : List String := ["E", "I", "N", "O", "Q", "S"]

/-- A text of one line, in which no letter by itself means more than a symbol. -/
structure IsUnambiguous (text : String) : Prop where
  line : ∀ c ∈ text.toList, c ≠ '\n' ∧ c ≠ '\x0d'
  letters : ∀ s ∈ textNames text.toList, s ∉ ownLetters

theorem meaningOfText?_eq_some {text : String} {m : Meaning} (plain : IsUnambiguous text)
    (h : meaningOfText? text = some m) :
    ∃ tokens tree, tokensOf text = some tokens ∧ treeOf (caretsAsPowers tokens) = some tree ∧
      tree.meaning (textSymbols tokens) = some m := by
  have whole : String.ofList (text.toList.filter (· != '\n')) = text := by
    rw [List.filter_eq_self.2 fun c hc => by simpa using (plain.line c hc).1, String.ofList_toList]
  unfold meaningOfText? at h
  simp only [whole, bind, Option.bind_eq_some_iff] at h
  obtain ⟨tokens, htokens, tree, htree, h⟩ := h
  exact ⟨tokens, tree, htokens, htree, h⟩

theorem mem_textSymbols {tokens : List Token} {s : String} :
    s ∈ textSymbols tokens ↔ s ∈ namesAmong tokens ∧ s ≠ "Integer" ∧ s ≠ "Float" ∧
      functionOf? s = none ∧ constantOf? s = none := by
  unfold textSymbols namesAmong
  rw [List.mem_filterMap, List.mem_filterMap]
  constructor
  · rintro ⟨t, ht, hs⟩
    cases t with
    | name name =>
      dsimp only at hs
      split_ifs at hs with other
      obtain rfl := Option.some.inj hs
      exact ⟨⟨_, ht, rfl⟩, by simpa [and_assoc] using other⟩
    | _ => cases hs
  · rintro ⟨⟨t, ht, hs⟩, plain⟩
    cases t with
    | name name =>
      obtain rfl := Option.some.inj hs
      exact ⟨_, ht, by simp [plain]⟩
    | _ => cases hs

/-- A known name is a constant to both ways of reading, unless it is a letter of its own. -/
theorem constantOf?_eq_none_iff {s : String} (known : IsKnown s) (other : s ∉ ownLetters) :
    constantOf? s = none ↔ s ∉ constantNames := by
  constructor
  · intro none constant
    obtain rfl := List.mem_singleton.1 constant
    cases none
  · intro free
    unfold constantOf?
    split
    · exact absurd (List.mem_singleton_self _) free
    · exact absurd (by decide) other
    · exact absurd (by decide) other
    all_goals first
      | rfl
      | exact absurd known (by decide)

theorem mention_of_treeOf {tokens : List Token} {tree : Tree}
    (parsed : treeOf (caretsAsPowers tokens) = some tree) {s : String} (hs : s ∈ tree.mentions) :
    s ∈ namesAmong tokens ∨ s = "Integer" ∨ s = "Float" := by
  by_cases kind : s = "Integer" ∨ s = "Float"
  · exact .inr kind
  · have kept : s ∈ withoutKinds tree.mentions := List.mem_filter.2 ⟨hs, by simpa using kind⟩
    rw [treeOf_mentions parsed, caretsAsPowers_names] at kept
    exact .inl (List.mem_of_mem_filter kept)

/-! ## Texts that pass the first reading -/

section Checked

variable {text : String} {names : List String} (checked : symbolNames text [] = .ok names)
include checked

theorem singleLetters_of_symbolNames : SingleLetters names := by
  obtain ⟨pieces, passes, sorted⟩ := passes_of_symbolNames checked
  intro s hs
  obtain ⟨stands, function, constant⟩ := (mem_names_iff passes sorted s).1 hs
  have single := ((passes.knownNames s stands).resolve_left function).resolve_left constant
  obtain ⟨c, rest, letter, rfl⟩ := exists_letter_of_mem stands
  cases rest with
  | nil => exact ⟨c, letter, rfl⟩
  | cons d rest => simp at single

variable {tokens : List Token} (split : tokensOf text = some tokens)
include split

/-- The names of the tokens are known, or they stand for numbers. -/
theorem known_of_token {s : String} (hs : s ∈ namesAmong tokens) : s ∈ numberNames ∨ IsKnown s := by
  obtain ⟨pieces, passes, -⟩ := passes_of_symbolNames checked
  have known := passes.knownNames
  exact (tokensOf_known split known s hs).imp_right (known s)

theorem splitNames_of_checked (symbols : List String) :
    splitNames symbols tokens [] ⟨false, false⟩ = some tokens := by
  refine splitNames_of_no_word fun s hs word => ?_
  rcases known_of_token checked split hs with number | known
  · fin_cases number <;> exact absurd word (by decide)
  · fin_cases word <;> exact absurd known (by decide)

variable {tree : Tree} (parsed : treeOf (caretsAsPowers tokens) = some tree)
include parsed

theorem known_of_treeOf : ∀ s ∈ tree.names, s ∈ numberNames ∨ IsKnown s := by
  intro s hs
  rcases mention_of_treeOf parsed (Tree.mem_mentions_of_mem_names hs) with among | rfl | rfl
  · exact known_of_token checked split among
  · exact .inl (by decide)
  · exact .inl (by decide)

theorem truthOf?_of_treeOf : ∀ s ∈ tree.names, truthOf? s = none := by
  intro s hs
  rcases known_of_treeOf checked split parsed s hs with number | known
  · fin_cases number <;> rfl
  · exact truthOf?_of_known known

/-- The tree of the text means an expression if it means anything that stands for a value. -/
theorem meaning_of_treeOf {symbols : List String} {m : Meaning} (means : tree.meaning symbols = some m)
    (stands : m ≠ .function ∧ m ≠ .nothing) : ∃ x, m = .value x := by
  have uncounted := meaning_count (truthOf?_of_treeOf checked split parsed) means
  have word : "None" ∉ tree.names := fun hs =>
    absurd (known_of_treeOf checked split parsed _ hs) (by decide)
  cases m with
  | value x => exact ⟨x, rfl⟩
  | function => exact absurd rfl stands.1
  | nothing => exact absurd rfl stands.2
  | absent => exact absurd means (Tree.meaning_ne_absent word)
  | truth b | count n => cases uncounted

variable (plain : IsUnambiguous text)
include plain

omit parsed in
/-- The names of the tokens are symbols to both ways of reading or to neither of them, and so are the
kinds of numbers. -/
theorem mem_textSymbols_iff {s : String}
    (hs : s ∈ namesAmong tokens ∨ s = "Integer" ∨ s = "Float") :
    s ∈ textSymbols tokens ↔ s ∈ names := by
  obtain ⟨pieces, passes, sorted⟩ := passes_of_symbolNames checked
  have known := passes.knownNames
  rw [mem_textSymbols, mem_names_iff passes sorted, mem_functionNames_iff]
  by_cases stands : s ∈ textNames text.toList
  · have kinds : s ≠ "Integer" ∧ s ≠ "Float" := by
      constructor <;> (rintro rfl; exact absurd (known _ stands) (by decide))
    have among : s ∈ namesAmong tokens := hs.resolve_right (not_or.2 kinds)
    simp [stands, kinds, among, constantOf?_eq_none_iff (known s stands) (plain.letters s stands)]
  · -- a name that does not stand in the text is there for a number
    have number : s ∈ numberNames := by
      rcases hs with among | rfl | rfl
      · exact (tokensOf_known split known s among).resolve_right stands
      · decide
      · decide
    refine iff_of_false (fun symbol => ?_) fun symbol => stands symbol.1
    obtain ⟨-, integer, float, -, constant⟩ := symbol
    simp only [numberNames, List.mem_cons, integer, float, List.not_mem_nil, or_false, false_or] at number
    subst number
    cases constant

theorem meaning_textSymbols : tree.meaning (textSymbols tokens) = tree.meaning names :=
  Tree.meaning_congr fun _ hs =>
    mem_textSymbols_iff checked split plain (mention_of_treeOf parsed hs)

/-- The text of an expression has the same tree if nothing is left out. -/
theorem parseTree_of_treeOf (sound : tree.IsSound names) : parseTree names text = some tree := by
  have whole := splitNames_of_checked checked split names
  have single := singleLetters_of_symbolNames checked
  obtain ⟨body, rfl, marks⟩ := (cutInto_of_tokensFrom split).oneLine fun c hc =>
    plain.line c ((stripBlank_inside _).subset hc)
  have complete := completeTokens_of_treeOf
    ⟨single.not_mem (by decide), single.not_mem (by decide)⟩ marks parsed sound
  unfold parseTree
  rw [split]
  simp [whole, complete, parsed]

/-- Only the powers of the text are left to check. -/
theorem readExpression_of_treeOf {x : Expr} (nonblank : namesOutcome text [] = .ok names)
    (means : tree.meaning names = some (.value x)) :
    ∃ z, readExpression text [] = (checkPowers z).map fun _ => x := by
  have truths := truthOf?_of_treeOf checked split parsed
  have sound := isSound_of_meaning truths means
  obtain ⟨w, written, algebraic⟩ :=
    sound.exists_written (singleLetters_of_symbolNames checked) means
  obtain ⟨z, -, -, hz, -⟩ := Written.exists_parts algebraic
  refine ⟨z, ?_⟩
  have tree := parseTree_of_treeOf checked split parsed plain sound
  rw [readExpression_of_tree nonblank (by rwa [List.append_nil]), List.append_nil, workOut_eq]
  simp only [Tree.writtenOutcome, Tree.meaningOutcome, written, algebraic, hz, means,
    checkTruths_of_no_truth truths, ↓reduceIte, ok_bind]
  cases checkPowers z <;> rfl

end Checked

/-! ## Refusals -/

/-- A check refuses the text of an expression. -/
def IsRefused (text : String) : Prop :=
  ∃ f : ReadFault, f.IsRefusal ∧ readExpression text [] = .error f

/-- What a text stands for, other than a function or nothing in brackets, is the expression that is
read from the text, unless a check refuses it. -/
theorem read_or_refused {text : String} {m : Meaning} (plain : IsUnambiguous text)
    (h : meaningOfText? text = some m) (stands : m ≠ .function ∧ m ≠ .nothing) :
    (∃ x, m = .value x ∧ readExpression text [] = .ok x) ∨ IsRefused text := by
  obtain ⟨tokens, tree, split, parsed, means⟩ := meaningOfText?_eq_some plain h
  have nonblank : ¬ (stripBlank text.toList).isEmpty := by
    intro blank
    rw [tokensOf, List.isEmpty_iff.1 blank] at split
    obtain rfl := Option.some.inj split
    cases parsed
  have outcome : namesOutcome text [] = symbolNames text [] := by
    rw [namesOutcome, List.find?_nil]
    exact if_neg nonblank
  cases checked : symbolNames text [] with
  | error f =>
    refine .inr ⟨f, symbolNames_refusal checked, ?_⟩
    rw [readExpression_eq, outcome, checked]
    rfl
  | ok names =>
    obtain ⟨x, rfl⟩ := meaning_of_treeOf checked split parsed means stands
    rw [meaning_textSymbols checked split parsed plain] at means
    obtain ⟨z, read⟩ :=
      readExpression_of_treeOf checked split parsed plain (outcome.trans checked) means
    cases powers : checkPowers z with
    | ok _ =>
      rw [powers] at read
      exact .inl ⟨x, rfl, read⟩
    | error f =>
      rw [powers] at read
      exact .inr ⟨f, checkPowers_refusal powers, read⟩

end Symbolic

end Reckoner
