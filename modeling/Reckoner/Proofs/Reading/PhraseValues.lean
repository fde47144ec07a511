-- What phrases denote. The tree of a phrase has the value of the phrase, and the text of it is read
-- unless the powers in it are refused.
import Mathlib
import Reckoner.Proofs.Reading.Phrases

namespace Reckoner

/-! ## What is written -/

section Written

variable {symbols : List String}

/-- A written expression of algebra is a list of terms and of factors. -/
theorem Written.exists_parts {w : Written} (h : w.isAlgebraic = true) :
    ∃ x terms factors, w.expr? = some x ∧ w.terms? = some terms ∧ w.factors? = some factors := by
  cases w with
  | other m => cases m <;> first | exact ⟨_, _, _, rfl, rfl, rfl⟩ | cases h
  | _ => exact ⟨_, _, _, rfl, rfl, rfl⟩

/-- No name of an operation is a single letter. -/
theorem SingleLetters.free_names (single : SingleLetters symbols) (o : BinaryOperator) :
    o.names.any symbols.contains = false := by
  have free : ∀ name ∈ ["Add", "Mul", "Pow"], name ∉ symbols := by
    intro name hname
    refine single.not_mem ?_
    fin_cases hname <;> decide
  cases o <;> simp [BinaryOperator.names, free]

/-- An operation between expressions of algebra is written as one, unless it is worked out. -/
theorem SingleLetters.written_binary (single : SingleLetters symbols) {o : BinaryOperator} {a b : Tree}
    (ho : o ≠ .wholeOver) (ha : ∃ w, a.written symbols = some w ∧ w.isAlgebraic = true)
    (hb : ∃ w, b.written symbols = some w ∧ w.isAlgebraic = true) :
    ∃ w, (Tree.binary o a b).written symbols = some w ∧ w.isAlgebraic = true := by
  obtain ⟨v, hv, first⟩ := ha
  obtain ⟨w, hw, second⟩ := hb
  obtain ⟨x, terms, factors, hx, hterms, hfactors⟩ := Written.exists_parts first
  obtain ⟨y, terms', factors', hy, hterms', hfactors'⟩ := Written.exists_parts second
  have free := single.free_names o
  match o with
  | .plus => exact ⟨.sum (terms ++ terms'), by simp [Tree.written, free, hv, hw, hterms, hterms'], rfl⟩
  | .minus =>
    exact ⟨.sum (terms ++ [.prod [.negOne, y]]), by simp [Tree.written, free, hv, hw, hterms, hy], rfl⟩
  | .times =>
    exact ⟨.product (factors ++ factors'), by simp [Tree.written, free, hv, hw, hfactors, hfactors'], rfl⟩
  | .over =>
    exact ⟨.product (factors ++ [.pow y .negOne]), by simp [Tree.written, free, hv, hw, hfactors, hy],
      rfl⟩
  | .power => exact ⟨.other (.value (.pow x y)), by simp [Tree.written, free, hv, hw, hx, hy], rfl⟩
  | .wholeOver => exact absurd rfl ho

/-- The opposite of an expression of algebra is written as one. -/
theorem written_negative_of {a : Tree} (ha : ∃ w, a.written symbols = some w ∧ w.isAlgebraic = true) :
    ∃ w, (Tree.negative a).written symbols = some w ∧ w.isAlgebraic = true := by
  obtain ⟨w, hw, algebraic⟩ := ha
  obtain ⟨x, -, -, hx, -⟩ := Written.exists_parts algebraic
  refine ⟨.other (.value (Expr.neg x)), ?_, rfl⟩
  cases w with
  | other m => cases m <;> first | (simp [Tree.written, hw, hx]; done) | cases algebraic
  | _ => simp [Tree.written, hw, hx]

theorem written_positive_of {a : Tree} (ha : ∃ w, a.written symbols = some w ∧ w.isAlgebraic = true) :
    ∃ w, (Tree.positive a).written symbols = some w ∧ w.isAlgebraic = true := by
  obtain ⟨w, hw, algebraic⟩ := ha
  obtain ⟨x, -, -, hx, -⟩ := Written.exists_parts algebraic
  refine ⟨.other (.value x), ?_, rfl⟩
  cases w with
  | other m => cases m <;> first | (simp [Tree.written, hw, hx]; done) | cases algebraic
  | _ => simp [Tree.written, hw, hx]

/-- A tree that means an expression is written as one of algebra. -/
theorem Tree.IsSound.exists_written {t : Tree} {x : Expr} (sound : t.IsSound symbols)
    (single : SingleLetters symbols) (h : t.meaning symbols = some (.value x)) :
    ∃ w, t.written symbols = some w ∧ w.isAlgebraic = true := by
  induction t generalizing x with
  | name s | whole s | decimal s => exact ⟨_, congrArg (Option.map Written.other) h, rfl⟩
  | nothing => exact sound.elim
  | call f a ih =>
    unfold Tree.meaning at h
    split_ifs at h with free
    split at h
    · rename_i g y hg hy
      obtain ⟨w, hw, algebraic⟩ := ih sound.2.2 hy
      obtain ⟨z, -, -, hz, -⟩ := Written.exists_parts algebraic
      refine ⟨.other (.value (g.elim (.pow z .half) (.app · z))), ?_, rfl⟩
      cases g <;> simp_all [Tree.written]
    · cases h
  | positive a ih | negative a ih =>
    cases hm : a.meaning symbols with
    | none => simp [Tree.meaning, hm] at h
    | some m =>
      obtain ⟨y, rfl⟩ := Tree.IsSound.meaning_value (t := a) sound hm
      first
        | exact written_positive_of (ih sound hm)
        | exact written_negative_of (ih sound hm)
  | binary o a b iha ihb =>
    cases hm : a.meaning symbols with
    | none => simp [Tree.meaning, hm] at h
    | some m =>
      cases hn : b.meaning symbols with
      | none => simp [Tree.meaning, hm, hn] at h
      | some n =>
        obtain ⟨y, rfl⟩ := sound.1.meaning_value hm
        obtain ⟨z, rfl⟩ := sound.2.meaning_value hn
        by_cases whole : o = .wholeOver
        · subst whole
          simp only [Tree.meaning, hm, hn] at h
          exact ⟨.other (.value x), by simp [Tree.written, BinaryOperator.names, hm, hn, h], rfl⟩
        · exact single.written_binary whole (iha sound.1 hm) (ihb sound.2 hn)

end Written

namespace Phrase

variable {l : Level} {symbols : List String}

/-! ## Names -/

theorem nameMeaning_letter {c : Char} (hc : isAsciiLetter c = true)
    (h : String.ofList [c] ∈ symbols) :
    nameMeaning symbols (String.ofList [c]) = some (.value (.sym (String.ofList [c]))) := by
  have table : alphabet.all (fun c => String.ofList [c] != "None" &&
      !reservedWords.contains (String.ofList [c]) && (truthOf? (String.ofList [c])).isNone) = true := by
    rfl
  have plain := of_alphabet table hc
  simp only [Bool.and_eq_true, bne_iff_ne, Bool.not_eq_true', Option.isNone_iff_eq_none] at plain
  obtain ⟨⟨some, word⟩, truth⟩ := plain
  unfold nameMeaning
  rw [if_neg some, word, truth]
  simp only [Bool.false_eq_true, ↓reduceIte, List.contains_iff_mem, h]

theorem nameMeaning_pi (single : SingleLetters symbols) :
    nameMeaning symbols "pi" = some (.value .pi) := by
  have free : "pi" ∉ symbols := single.not_mem (by decide)
  have plain : "pi" ∉ reservedWords := by decide
  simp [nameMeaning, free, plain, truthOf?, functionOf?, constantOf?]

/-- The names in the tree of a phrase. -/
theorem names_tree (p : Phrase l) (negative : Bool) :
    ∀ s ∈ (p.tree negative).names, s ∈ p.letters ∨ s = "pi" := by
  induction p generalizing negative with
  | factor p ih =>
    cases negative
    · exact ih false
    · exact ih false
  | number n | letter c h | pi => simp [tree, letters, Tree.names]
  | call f g h a ih => exact ih false
  | brackets a ih | alone a ih => exact ih false
  | term sign a ih => exact ih sign
  | raised a b iha ihb | times a b iha ihb | «over» a b iha ihb | plus a b iha ihb
  | minus a b iha ihb =>
    refine List.forall_mem_append.2 ⟨fun s hs => ?_, fun s hs => ?_⟩
    · exact (iha _ s hs).imp_left (List.mem_append_left _)
    · exact (ihb _ s hs).imp_left (List.mem_append_right _)

/-! ## Values -/

section Value

variable {K : Type} [Field K] (I : Interpretation K)

/-- The tree of a phrase has its value, and with a sign before the first factor the opposite one. -/
theorem value_tree (single : SingleLetters symbols) (p : Phrase l)
    (bound : ∀ s ∈ p.letters, s ∈ symbols) :
    (p.tree false).value I symbols = some (p.value I) ∧
      (l = .product → (p.tree true).value I symbols = some (-p.value I)) := by
  induction p with
  | number n =>
    refine ⟨?_, fun no => by cases no⟩
    rw [tree, Tree.value, wholeLiteral_digitsOf]
    rfl
  | letter c h =>
    refine ⟨?_, fun no => by cases no⟩
    rw [tree, Tree.value, nameMeaning_letter h (bound _ (List.mem_singleton_self _))]
    simp [value]
  | pi =>
    refine ⟨?_, fun no => by cases no⟩
    rw [tree, Tree.value, nameMeaning_pi single]
    simp [value, Expr.pi]
  | call f g h a ih =>
    refine ⟨?_, fun no => by cases no⟩
    simp [tree, Tree.value, single.not_mem_function h, h, (ih bound).1, value]
  | brackets a ih | alone a ih => exact ⟨(ih bound).1, fun no => by cases no⟩
  | factor a ih =>
    refine ⟨(ih bound).1, fun _ => ?_⟩
    simp [tree, Tree.value, (ih bound).1, value]
  | term negative a ih =>
    refine ⟨?_, fun no => by cases no⟩
    cases negative
    · simpa [tree, value] using (ih bound).1
    · simpa [tree, value] using (ih bound).2 rfl
  | raised a b iha ihb | plus a b iha ihb | minus a b iha ihb =>
    obtain ⟨left, right⟩ := List.forall_mem_append.1 bound
    refine ⟨?_, fun no => by cases no⟩
    simp [tree, Tree.value, (iha left).1, (ihb right).1, BinaryOperator.value, value]
  | times a b iha ihb | «over» a b iha ihb =>
    obtain ⟨left, right⟩ := List.forall_mem_append.1 bound
    constructor
    · simp [tree, Tree.value, (iha left).1, (ihb right).1, BinaryOperator.value, value]
    · simp [tree, Tree.value, (iha left).2 rfl, (ihb right).1, BinaryOperator.value, value, neg_div]

end Value

/-! ## Meanings -/

/-- The tree of a phrase means an expression. -/
theorem exists_meaning (single : SingleLetters symbols) (p : Phrase l) (negative : Bool)
    (bound : ∀ s ∈ p.letters, s ∈ symbols) :
    ∃ x, (p.tree negative).meaning symbols = some (.value x) := by
  induction p generalizing negative with
  | number n => exact ⟨_, by rw [tree, Tree.meaning, wholeLiteral_digitsOf]; rfl⟩
  | letter c h => exact ⟨_, nameMeaning_letter h (bound _ (List.mem_singleton_self _))⟩
  | pi => exact ⟨_, nameMeaning_pi single⟩
  | call f g h a ih =>
    obtain ⟨x, hx⟩ := ih false bound
    exact ⟨applyName g x, by simp [tree, Tree.meaning, single.not_mem_function h, h, hx]⟩
  | brackets a ih | alone a ih => exact ih false bound
  | factor a ih =>
    obtain ⟨x, hx⟩ := ih false bound
    cases negative
    · exact ⟨x, hx⟩
    · exact ⟨Expr.neg x, by simp [tree, Tree.meaning, hx]⟩
  | term sign a ih => exact ih sign bound
  | raised a b iha ihb | times a b iha ihb | «over» a b iha ihb | plus a b iha ihb
  | minus a b iha ihb =>
    obtain ⟨left, right⟩ := List.forall_mem_append.1 bound
    obtain ⟨x, hx⟩ := iha _ left
    obtain ⟨y, hy⟩ := ihb false right
    exact ⟨_, by rw [tree, Tree.meaning, hx, hy]; rfl⟩

theorem singleLetters (p : Phrase l) : SingleLetters p.letters := by
  induction p with
  | letter c h => exact fun s hs => ⟨c, h, List.mem_singleton.1 hs⟩
  | number n | pi => exact fun s no => by cases no
  | call f g h a ih | brackets a ih | alone a ih | factor a ih | term sign a ih => exact ih
  | raised a b iha ihb | times a b iha ihb | «over» a b iha ihb | plus a b iha ihb
  | minus a b iha ihb => exact List.forall_mem_append.2 ⟨iha, ihb⟩

theorem truthOf?_names (p : Phrase l) (negative : Bool) :
    ∀ s ∈ (p.tree negative).names, truthOf? s = none := by
  intro s hs
  rcases p.names_tree negative s hs with letter | rfl
  · obtain ⟨c, hc, rfl⟩ := p.singleLetters s letter
    have table : alphabet.all (fun c => (truthOf? (String.ofList [c])).isNone) = true := by
      rfl
    simpa only [Option.isNone_iff_eq_none] using of_alphabet table hc
  · rfl

/-- The tree of a phrase is written as an expression of algebra. -/
theorem exists_written (single : SingleLetters symbols) (p : Phrase l) (negative : Bool)
    (bound : ∀ s ∈ p.letters, s ∈ symbols) :
    ∃ w, (p.tree negative).written symbols = some w ∧ w.isAlgebraic = true := by
  obtain ⟨x, hx⟩ := p.exists_meaning single negative bound
  exact (isSound_of_meaning (p.truthOf?_names negative) hx).exists_written single hx

/-! ## Reading -/

section Reading

variable (p : Phrase .sum)

/-- A short phrase with brackets that do not nest too deep is read as its tree. It is accepted unless
a power in it is refused. -/
theorem readExpression_text (short : p.text.length ≤ 500) (deep : p.depth ≤ maxDepth) :
    ∃ w y, writtenExpression? p.text [] = some w ∧
      (p.tree false).meaning (sortNames p.letters) = some (.value y) ∧
      readExpression p.text [] = (checkPowers w).map fun _ => y := by
  have single : SingleLetters (sortNames p.letters) := fun s hs =>
    p.singleLetters s (mem_sortNames.1 hs)
  have bound : ∀ s ∈ p.letters, s ∈ sortNames p.letters := fun s => mem_sortNames.2
  have names := p.symbolNames_text short
  have parsed := p.parseTree_text single deep
  obtain ⟨y, hy⟩ := p.exists_meaning single false bound
  obtain ⟨w, hw, algebraic⟩ := p.exists_written single false bound
  obtain ⟨x, -, -, hx, -⟩ := Written.exists_parts algebraic
  refine ⟨x, y, ?_, hy, ?_⟩
  · unfold writtenExpression?
    rw [names]
    simp [Except.toOption, parsed, hw, hx]
  · have nonblank : ¬ (stripBlank p.text.toList).isEmpty := by
      obtain ⟨ws, words, chars, spaced⟩ := p.wellSpaced
      have some : ws ≠ [] := by
        rintro rfl
        exact (p.wholeWords single).ne_nil words.symm
      rw [text, String.toList_ofList, ← chars]
      simpa using spaced.stripBlank_ne_nil some
    have outcome : namesOutcome p.text [] = .ok (sortNames p.letters) := by
      rw [namesOutcome, List.find?_nil]
      simp only [nonblank, names]
      rfl
    have written : (p.tree false).writtenOutcome (sortNames p.letters) p.text = .ok x := by
      simp [Tree.writtenOutcome, hw, algebraic, hx]
    have truths : checkTruths (sortNames p.letters) (p.tree false) = .ok () :=
      checkTruths_of_no_truth (p.truthOf?_names false)
    have meaning : (p.tree false).meaningOutcome (sortNames p.letters) p.text = .ok y := by
      rw [Tree.meaningOutcome, hy]
    rw [readExpression_of_tree outcome (by rw [List.append_nil, parsed]), List.append_nil, workOut_eq,
      written, ok_bind, truths, ok_bind, meaning]
    cases checkPowers x <;> rfl

end Reading

end Phrase

end Reckoner
