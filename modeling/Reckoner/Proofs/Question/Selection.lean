-- What is taken out of a question is a part of it. An expression is found in a run of lexemes that
-- follow one another in the question, and what is left without the blanks around it still consists of
-- lexemes; the text of an equation loses only what stands before and behind it.
import Reckoner.Proofs.Question.Expressions
import Reckoner.Settings.Options

namespace Reckoner

variable {name s rest run : List Char}

/-! ## Lexemes -/

/-- A word as it is written in a text, each letter in either case. -/
abbrev SpelledAs (word part : List Char) : Prop :=
  List.Forall₂ (fun a c => sameLetter a c = true) word part

/-- A lexeme as it is written in a text: a function, the variable, or a single character. -/
inductive IsLexeme (name : List Char) : List Char → Prop where
  | function {f : String} {part : List Char} : f ∈ knownFunctions → SpelledAs f.toList part →
    IsLexeme name part
  | unknown {part : List Char} : SpelledAs name part → IsLexeme name part
  | mark {c : Char} : isExpressionChar c → IsLexeme name [c]

/-- A text of lexemes, one after the other, of which there are at least so many. -/
def IsRun (name : List Char) (least : ℕ) (s : List Char) : Prop :=
  ∃ lexemes : List (List Char), least ≤ lexemes.length ∧ (∀ l ∈ lexemes, IsLexeme name l) ∧
    s = lexemes.flatten

theorem exists_lexeme (h : rest ∈ afterLexeme name s) : ∃ part, s = part ++ rest ∧ IsLexeme name part := by
  rcases mem_afterLexeme_iff.1 h with ⟨f, hf, found⟩ | found | ⟨c, rfl, hc⟩
  · obtain ⟨part, split, spelled⟩ := dropWord?_eq_some_iff.1 found
    exact ⟨part, split, .function hf spelled⟩
  · obtain ⟨part, split, spelled⟩ := dropWord?_eq_some_iff.1 found
    exact ⟨part, split, .unknown spelled⟩
  · exact ⟨[c], rfl, .mark hc⟩

theorem IsRun.nil (name : List Char) : IsRun name 0 [] := ⟨[], by simp, by simp, rfl⟩

theorem IsRun.cons {part : List Char} {least : ℕ} (h : IsLexeme name part)
    (hrun : IsRun name least run) : IsRun name (least + 1) (part ++ run) := by
  obtain ⟨lexemes, long, all, rfl⟩ := hrun
  exact ⟨part :: lexemes, by simpa using long, List.forall_mem_cons.2 ⟨h, all⟩, rfl⟩

theorem IsRun.mono {least fewer : ℕ} (h : IsRun name least run) (hf : fewer ≤ least) :
    IsRun name fewer run := by
  obtain ⟨lexemes, long, all, split⟩ := h
  exact ⟨lexemes, hf.trans long, all, split⟩

theorem IsRun.of_ne_nil {least : ℕ} (h : IsRun name least run) (ne : run ≠ []) :
    IsRun name 1 run := by
  obtain ⟨lexemes, -, all, rfl⟩ := h
  refine ⟨lexemes, List.length_pos_iff.2 ?_, all, rfl⟩
  rintro rfl
  exact ne rfl

/-! ## Blanks around a run -/

/-- A text without a blank in it. -/
def NoBlank (s : List Char) : Prop := ∀ c ∈ s, ¬ isBlank c

theorem not_isIdentifierPart_of_isBlank {c : Char} (h : isBlank c) : isIdentifierPart c = false :=
  Bool.or_eq_false_iff.2 ⟨not_inRanges_of_isBlank (by decide +kernel) h,
    not_inRanges_of_isBlank (by decide +kernel) h⟩

theorem noBlank_of_isIdentifier (h : isIdentifier s) : NoBlank s := by
  have part : ∀ c, isIdentifierPart c → ¬ isBlank c := by
    intro c hc blank
    rw [not_isIdentifierPart_of_isBlank blank] at hc
    cases hc
  cases s with
  | nil => cases h
  | cons c s =>
    rw [isIdentifier, Bool.and_eq_true, List.all_eq_true] at h
    refine List.forall_mem_cons.2 ⟨part c ?_, fun d hd => part d (h.2 d hd)⟩
    simp [isIdentifierPart, h.1]

/-- An option names an identifier. -/
theorem isIdentifier_of_variableOption {given : Value} {name : String}
    (h : variableOption given = .ok name) : isIdentifier name.toList := by
  unfold variableOption at h
  cases given with
  | text s =>
    dsimp only at h
    split_ifs at h with identifier
    cases h
    exact identifier
  | _ => cases h

theorem SpelledAs.noBlank {word part : List Char} (h : SpelledAs word part) (hw : NoBlank word) :
    NoBlank part := by
  induction h with
  | nil => simp [NoBlank]
  | cons same _ ih =>
    obtain ⟨first, others⟩ := List.forall_mem_cons.1 hw
    refine List.forall_mem_cons.2 ⟨fun blank => ?_, ih others⟩
    rw [not_sameLetter_of_not_isBlank first blank] at same
    cases same

/-- A lexeme is a blank, or there is no blank in it. -/
theorem IsLexeme.blank_or_noBlank {part : List Char} (h : IsLexeme name part) (hn : NoBlank name) :
    (∀ c ∈ part, isBlank c) ∨ NoBlank part := by
  cases h with
  | function hf spelled =>
    exact .inr (spelled.noBlank fun c hc => not_isBlank_of_isAsciiLetter ((function_letters hf).1 c hc))
  | unknown spelled => exact .inr (spelled.noBlank hn)
  | @mark c _ =>
    by_cases hc : isBlank c
    · exact .inl (by simpa using hc)
    · exact .inr (by simpa [NoBlank] using hc)

/-- Without the blanks that begin it a text of parts consists of the last of these parts, where each
of them is blank or has no blanks. -/
theorem dropBlank_flatten {parts : List (List Char)}
    (h : ∀ p ∈ parts, (∀ c ∈ p, isBlank c) ∨ NoBlank p) :
    ∃ kept, kept <:+ parts ∧ dropBlank parts.flatten = kept.flatten := by
  induction parts with
  | nil => exact ⟨[], List.suffix_rfl, rfl⟩
  | cons p parts ih =>
    obtain ⟨first, others⟩ := List.forall_mem_cons.1 h
    by_cases blank : ∀ c ∈ p, isBlank c
    · obtain ⟨kept, suffix, same⟩ := ih others
      refine ⟨kept, suffix.trans (List.suffix_cons _ _), ?_⟩
      rw [List.flatten_cons, dropBlank, List.dropWhile_append_of_pos blank]
      exact same
    · have none := first.resolve_left blank
      refine ⟨p :: parts, List.suffix_rfl, ?_⟩
      obtain ⟨c, rest, rfl⟩ := List.exists_cons_of_ne_nil (l := p) (by rintro rfl; simp at blank)
      rw [List.flatten_cons, List.cons_append, dropBlank,
        List.dropWhile_cons_of_neg (by simpa using none c List.mem_cons_self)]

/-- Without the blanks around it a run consists of lexemes still. -/
theorem IsRun.stripBlank {least : ℕ} (h : IsRun name least run) (hn : NoBlank name) :
    IsRun name 0 (stripBlank run) := by
  obtain ⟨lexemes, -, all, rfl⟩ := h
  obtain ⟨kept, suffix, front⟩ :=
    dropBlank_flatten fun p hp => (all p hp).blank_or_noBlank hn
  have all_kept : ∀ p ∈ kept, IsLexeme name p := fun p hp => all p (suffix.subset hp)
  have backwards : ∀ p ∈ (kept.map List.reverse).reverse, (∀ c ∈ p, isBlank c) ∨ NoBlank p := by
    intro p hp
    obtain ⟨q, hq, rfl⟩ := List.mem_map.1 (List.mem_reverse.1 hp)
    simpa [NoBlank] using (all_kept q hq).blank_or_noBlank hn
  obtain ⟨kept', suffix', back⟩ := dropBlank_flatten backwards
  refine ⟨(kept'.map List.reverse).reverse, Nat.zero_le _, fun p hp => ?_, ?_⟩
  · obtain ⟨q, hq, rfl⟩ := List.mem_map.1 (List.mem_reverse.1 hp)
    obtain ⟨r, hr, rfl⟩ := List.mem_map.1 (List.mem_reverse.1 (suffix'.subset hq))
    rw [List.reverse_reverse]
    exact all_kept r hr
  · rw [Reckoner.stripBlank, front, List.reverse_flatten, back, List.reverse_flatten]

/-! ## Runs -/

theorem isRun_of_afterRun {ends : List Char → Bool} {fuel least : ℕ} {last : Option ℕ}
    (h : afterRun name ends fuel least last s = some rest) :
    ∃ run, s = run ++ rest ∧ IsRun name least run := by
  induction fuel generalizing least last s with
  | zero => cases h
  | succ fuel ih =>
    have further : ∀ {fewer : ℕ} {at? : Option ℕ},
        (afterLexeme name s).findSome? (afterRun name ends fuel fewer at?) = some rest →
        ∃ run, s = run ++ rest ∧ IsRun name (fewer + 1) run := by
      intro fewer at? found
      obtain ⟨next, mem, later⟩ := List.exists_of_findSome?_eq_some found
      obtain ⟨part, rfl, lexeme⟩ := exists_lexeme mem
      obtain ⟨run, rfl, hrun⟩ := ih later
      exact ⟨part ++ run, (List.append_assoc ..).symm, hrun.cons lexeme⟩
    cases least with
    | succ least => exact further h
    | zero =>
      rw [afterRun] at h
      cases longer : (if last = some s.length then none else
          (afterLexeme name s).findSome? (afterRun name ends fuel 0 (some s.length))) with
      | some place =>
        simp only [longer, Option.some_inj] at h
        subst h
        split_ifs at longer
        obtain ⟨run, split, hrun⟩ := further longer
        exact ⟨run, split, hrun.mono (Nat.zero_le _)⟩
      | none =>
        simp only [longer] at h
        split_ifs at h
        cases h
        exact ⟨[], rfl, .nil name⟩

theorem before_append (run rest : List Char) : before (run ++ rest) rest = run := by
  simp [before]

theorem isRun_of_afterFullRun {ends : List Char → Bool} {least : ℕ}
    (h : afterFullRun name least ends s = some rest) :
    s = before s rest ++ rest ∧ IsRun name least (before s rest) := by
  obtain ⟨run, rfl, hrun⟩ := isRun_of_afterRun h
  rw [before_append]
  exact ⟨rfl, hrun⟩

/-- The words that lead to an expression, as they are written in a text. -/
def IsLead (part : List Char) : Prop :=
  SpelledAs ['o', 'f', ' '] part ∨ SpelledAs [':', ' '] part

theorem exists_lead (h : afterLead? s = some rest) : ∃ lead, s = lead ++ rest ∧ IsLead lead := by
  unfold afterLead? at h
  cases first : dropWord? ['o', 'f', ' '] s with
  | some place =>
    rw [first] at h
    obtain rfl : place = rest := Option.some.inj h
    obtain ⟨lead, split, spelled⟩ := dropWord?_eq_some_iff.1 first
    exact ⟨lead, split, .inl spelled⟩
  | none =>
    rw [first] at h
    obtain ⟨lead, split, spelled⟩ := dropWord?_eq_some_iff.1 h
    exact ⟨lead, split, .inr spelled⟩

/-- A run that is found in a text: behind words that lead to it, or one of three lexemes at least. -/
inductive RunIn (name s run : List Char) : Prop where
  | led {front lead back : List Char} : s = front ++ (lead ++ (run ++ back)) → IsLead lead →
    IsRun name 1 run → RunIn name s run
  | long {front back : List Char} : s = front ++ (run ++ back) → IsRun name 3 run → RunIn name s run

theorem RunIn.append (h : RunIn name s run) (front : List Char) : RunIn name (front ++ s) run := by
  cases h with
  | led split lead hrun => exact .led (by rw [split, ← List.append_assoc]) lead hrun
  | long split hrun => exact .long (by rw [split, ← List.append_assoc]) hrun

theorem RunIn.inside (h : RunIn name s run) : run <:+: s := by
  cases h with
  | @led front lead back split _ _ => exact ⟨front ++ lead, back, by simp [split]⟩
  | @long front back split _ => exact ⟨front, back, by simp [split]⟩

theorem RunIn.isRun (h : RunIn name s run) : IsRun name 1 run := by
  cases h with
  | led _ _ hrun => exact hrun
  | long _ hrun => exact hrun.mono (by omega)

theorem runIn_of_mem_leadRuns {fuel : ℕ} (h : run ∈ leadRuns name fuel s) : RunIn name s run := by
  induction fuel generalizing s with
  | zero => cases h
  | succ fuel ih =>
    cases s with
    | nil => cases h
    | cons c s =>
      rw [leadRuns] at h
      cases lead : afterLead? (c :: s) with
      | none =>
        rw [lead] at h
        exact (ih h).append [c]
      | some start =>
        rw [lead, Option.bind_some] at h
        obtain ⟨words, split, hlead⟩ := exists_lead lead
        cases found : afterFullRun name 1 (fun _ => true) start with
        | none =>
          rw [found] at h
          exact (ih h).append [c]
        | some more =>
          rw [found] at h
          obtain ⟨split', hrun⟩ := isRun_of_afterFullRun found
          rw [split, split']
          rcases List.mem_cons.1 h with rfl | h
          · exact .led (List.nil_append _).symm hlead hrun
          · rw [← List.append_assoc]
            exact (ih h).append _

theorem runIn_of_firstRun? {fuel : ℕ} {mustAdvance : Bool} {found : List Char}
    (h : firstRun? name fuel mustAdvance s = some found) :
    ∃ run, RunIn name s run ∧ found = stripBlank run ∧ found ≠ [] := by
  induction fuel generalizing mustAdvance s with
  | zero => cases h
  | succ fuel ih =>
    rw [firstRun?.eq_def] at h
    dsimp only at h
    cases place : afterFullRun name 3 (fun rest => !mustAdvance || rest.length != s.length) s with
    | some rest =>
      obtain ⟨split, hrun⟩ := isRun_of_afterFullRun place
      simp only [place] at h
      split_ifs at h with empty
      · obtain ⟨run, inside, same⟩ := ih h
        refine ⟨run, ?_, same⟩
        rw [split]
        exact inside.append _
      · cases h
        exact ⟨_, .long (split.trans (List.nil_append _).symm) hrun, rfl, by simpa using empty⟩
    | none =>
      simp only [place] at h
      cases s with
      | nil => cases h
      | cons c s =>
        obtain ⟨run, inside, same⟩ := ih h
        exact ⟨run, inside.append [c], same⟩

/-! ## Expressions -/

/-- The expression of a question is the question, or the text of a run in it. -/
theorem extractExpression_cases (question name : String) :
    extractExpression question name = question ∨
      ∃ run, RunIn name.toList question.toList run ∧
        (extractExpression question name).toList = stripBlank run ∧ stripBlank run ≠ [] := by
  unfold extractExpression
  dsimp only
  cases led : List.getLast? _ with
  | some found =>
    obtain ⟨mem, nonempty⟩ := List.mem_filter.1 (List.mem_of_getLast? led)
    obtain ⟨run, hrun, rfl⟩ := List.mem_map.1 mem
    exact .inr ⟨run, runIn_of_mem_leadRuns hrun, String.toList_ofList, by simpa using nonempty⟩
  | none =>
    cases first : firstRun? _ _ _ _ with
    | some found =>
      obtain ⟨run, inside, rfl, nonempty⟩ := runIn_of_firstRun? first
      exact .inr ⟨run, inside, String.toList_ofList, nonempty⟩
    | none => exact .inl rfl

/-! ## Equations -/

theorem Pattern.splitAt?_split {p : Pattern} {prev : Option Char} {front : List Char}
    (h : p.splitAt? prev s = some (front, rest)) : s = front ++ rest := by
  induction s generalizing prev front with
  | nil =>
    rw [Pattern.splitAt?] at h
    split_ifs at h
    cases h
    rfl
  | cons c s ih =>
    rw [Pattern.splitAt?] at h
    split_ifs at h
    · cases h
      rfl
    · obtain ⟨⟨front, rest⟩, later, same⟩ := Option.map_eq_some_iff.1 h
      cases same
      rw [List.cons_append, ih later]

theorem afterSolve_suffix (s : List Char) : afterSolve s <:+ s := by
  unfold afterSolve
  cases found : Pattern.splitAt? _ none s with
  | none => exact List.suffix_rfl
  | some parts =>
    dsimp only
    split_ifs
    · exact List.suffix_rfl
    · rw [Pattern.splitAt?_split found]
      exact (List.drop_suffix _ _).trans (List.suffix_append _ _)

theorem dropBlank_suffix (s : List Char) : dropBlank s <:+ s := List.dropWhile_suffix _

theorem afterLeadingWord?_suffix (h : afterLeadingWord? s = some rest) : rest <:+ s := by
  unfold afterLeadingWord? at h
  dsimp only at h
  split_ifs at h
  cases h
  refine (dropBlank_suffix _).trans (List.IsSuffix.trans ?_ (List.dropWhile_suffix isPlainLetter))
  cases s.dropWhile isPlainLetter with
  | nil => exact List.suffix_rfl
  | cons c more =>
    dsimp only
    split_ifs
    · exact List.suffix_cons _ _
    · exact List.suffix_rfl

theorem dropLeadingWords_suffix (fuel : ℕ) (s : List Char) : dropLeadingWords fuel s <:+ s := by
  induction fuel generalizing s with
  | zero => exact List.suffix_rfl
  | succ fuel ih =>
    rw [dropLeadingWords]
    cases word : afterLeadingWord? s with
    | some rest => exact (ih rest).trans (afterLeadingWord?_suffix word)
    | none => exact List.suffix_rfl

theorem withoutLeadingWords_suffix (s : List Char) : withoutLeadingWords s <:+ s := by
  unfold withoutLeadingWords
  cases word : afterLeadingWord? (dropBlank s) with
  | some rest =>
    exact (dropLeadingWords_suffix _ _).trans
      ((afterLeadingWord?_suffix word).trans (dropBlank_suffix s))
  | none => exact List.suffix_rfl

theorem withoutLabel_suffix (s : List Char) : withoutLabel s <:+ s := by
  unfold withoutLabel
  cases first : dropBlank s with
  | nil => exact List.suffix_rfl
  | cons c rest =>
    dsimp only
    cases second : dropBlank rest with
    | nil => exact List.suffix_rfl
    | cons mark more =>
      dsimp only
      split_ifs
      · have inside : rest <:+ s := (List.suffix_cons c rest).trans (first ▸ dropBlank_suffix s)
        have label : more <:+ rest := (List.suffix_cons mark more).trans (second ▸ dropBlank_suffix rest)
        exact (dropBlank_suffix more).trans (label.trans inside)
      · exact List.suffix_rfl

theorem dropMarks_front (s : List Char) : dropMarks s <+: s := by
  unfold dropMarks
  rw [← List.reverse_suffix, List.reverse_reverse]
  exact List.dropWhile_suffix _

theorem withoutForVariable_front (s : List Char) : withoutForVariable s <+: s := by
  unfold withoutForVariable
  cases found : forVariable.splitAt? none s with
  | some parts => exact ⟨parts.2, (Pattern.splitAt?_split found).symm⟩
  | none => exact List.prefix_rfl

/-- The equation of a question stands in it. -/
theorem equationText_inside (question : String) :
    (equationText question).toList <:+: question.toList := by
  unfold equationText
  dsimp only
  rw [String.toList_ofList]
  set s := withoutLabel (withoutLeadingWords (afterSolve question.toList)) with hs
  have behind : s <:+ question.toList :=
    (withoutLabel_suffix _).trans ((withoutLeadingWords_suffix _).trans (afterSolve_suffix _))
  have front : withoutForVariable (dropMarks (stripBlank s)) <+: stripBlank s :=
    (withoutForVariable_front _).trans (dropMarks_front _)
  exact (stripBlank_inside _).trans
    (front.isInfix.trans ((stripBlank_inside s).trans behind.isInfix))

theorem trimmed_equationText (question : String) : Trimmed (equationText question).toList := by
  unfold equationText
  rw [String.toList_ofList]
  exact trimmed_stripBlank _

/-! ## Selected texts -/

/-- What is found in a question is a part of it. The expression is the question, or a run of lexemes
in it without the blanks around it, which is not empty and consists of lexemes itself; the text of the
equation has no blanks around it. -/
theorem extraction_selects_a_part_of_the_question (question : String) :
    (∀ (given : Value) (name : String), variableOption given = .ok name →
      (extractExpression question name).toList <:+: question.toList ∧
        (extractExpression question name = question ∨
          ∃ run, RunIn name.toList question.toList run ∧
            (extractExpression question name).toList <:+: run ∧
            (extractExpression question name).toList ≠ [] ∧
            Trimmed (extractExpression question name).toList ∧
            IsRun name.toList 1 (extractExpression question name).toList)) ∧
      (equationText question).toList <:+: question.toList ∧
      Trimmed (equationText question).toList := by
  refine ⟨fun given name accepted => ?_, equationText_inside question, trimmed_equationText question⟩
  have noBlank := noBlank_of_isIdentifier (isIdentifier_of_variableOption accepted)
  rcases extractExpression_cases question name with whole | ⟨run, inside, found, nonempty⟩
  · rw [whole]
    exact ⟨List.infix_rfl, .inl rfl⟩
  · rw [found]
    have piece := stripBlank_inside run
    exact ⟨piece.trans inside.inside, .inr ⟨run, inside, piece, nonempty, trimmed_stripBlank run,
      (inside.isRun.stripBlank noBlank).of_ne_nil nonempty⟩⟩

/-- The words around an expression stay behind, in whichever case they lead to it. -/
theorem a_derivative_is_selected :
    variableOption (.text " x ") = .ok "x" ∧
    extractExpression "The derivative OF 2 X^2 please" "x" = "2 X^2" ∧
    (∃ run, RunIn "x".toList "The derivative OF 2 X^2 please".toList run ∧
      "2 X^2".toList <:+: run ∧ IsRun "x".toList 1 "2 X^2".toList) ∧
    equationText "Solve y: 2y = 4 for y?" = "2y = 4" ∧
      "2y = 4".toList <:+: "Solve y: 2y = 4 for y?".toList := by
  have accepted : variableOption (.text " x ") = .ok "x" := rfl
  have selected : extractExpression "The derivative OF 2 X^2 please" "x" = "2 X^2" := by
    decide +kernel
  have equation : equationText "Solve y: 2y = 4 for y?" = "2y = 4" := by decide +kernel
  obtain ⟨-, whole | ⟨run, inside, piece, -, -, lexemes⟩⟩ :=
    (extraction_selects_a_part_of_the_question "The derivative OF 2 X^2 please").1 _ _ accepted
  · rw [selected] at whole
    exact absurd whole (by decide)
  · rw [selected] at piece lexemes
    have part := (extraction_selects_a_part_of_the_question "Solve y: 2y = 4 for y?").2.1
    rw [equation] at part
    exact ⟨accepted, selected, ⟨run, inside, piece, lexemes⟩, equation, part⟩

end Reckoner
