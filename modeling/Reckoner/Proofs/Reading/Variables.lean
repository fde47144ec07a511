-- Which names of variables are accepted, and what becomes of them. The settings and the options
-- take every identifier, and the reader takes the names of letters and digits. A word of the
-- grammar is such a name, and it stands for no symbol.
import Mathlib
import Reckoner.Proofs.Question.Selection
import Reckoner.Proofs.Reading.Completing
import Reckoner.Proofs.Reading.SameNames
import Reckoner.Proofs.Symbolic.Reporting
import Reckoner.Settings.Options

namespace Reckoner

/-! ## Names that are accepted -/

/-- The settings or the options accept a text for the variable, under a name. -/
inductive AcceptsVariable (text name : String) : Prop where
  | settings {env : Environment} {s : Settings}
      (given : lookupEntry SettingKey.defaultVariable.variable env = some text)
      (read : Settings.ofEnvironment env = .ok s) (named : s.defaultVariable = name)
  | options {fields : List (String × Value)} {store : SettingStore} {o : Options}
      (given : Value.field? "variable" fields = some (.text text))
      (read : (Options.ofValue (.record fields) store).1 = .ok o) (named : o.name = name)

variable {text name : String}

/-- A check for identifiers lets a text pass under the name without the blanks around it. -/
theorem identifier_check_eq_ok_iff {ε : Type} (fault : ε) :
    (if isIdentifier (stripText text).toList then .ok (stripText text) else .error fault :
        Except ε String) = .ok name ↔
      name = stripText text ∧ isIdentifier name.toList = true := by
  split_ifs with h
  · rw [Except.ok.injEq]
    exact ⟨fun same => same ▸ ⟨rfl, h⟩, fun both => both.1.symm⟩
  · refine ⟨(fun no => by cases no), ?_⟩
    rintro ⟨rfl, identifier⟩
    exact absurd identifier h

theorem readVariable_eq_ok_iff :
    readVariable text = .ok name ↔ name = stripText text ∧ isIdentifier name.toList = true :=
  identifier_check_eq_ok_iff (SettingFault.notIdentifier (stripText text))

theorem variableOption_eq_ok_iff : variableOption (.text text) = .ok name ↔
    name = stripText text ∧ isIdentifier name.toList = true :=
  identifier_check_eq_ok_iff OptionFault.notIdentifier

theorem name_of_ofChecks {given language : Except OptionFault String} {o : Options}
    (h : Options.ofChecks given language = .ok o) : given = .ok o.name := by
  cases given <;> cases language <;> cases h
  rfl

/-- The settings and the options accept the same texts: those that are an identifier without the
blanks around it, which is the name. -/
theorem acceptsVariable_iff :
    AcceptsVariable text name ↔ name = stripText text ∧ isIdentifier name.toList = true := by
  constructor
  · rintro (⟨given, read, rfl⟩ | ⟨given, read, rfl⟩)
    · unfold Settings.ofEnvironment at read
      obtain ⟨level, -, read⟩ := ok_of_bind read
      obtain ⟨json, -, read⟩ := ok_of_bind read
      obtain ⟨n, accepted, read⟩ := ok_of_bind read
      obtain rfl := Except.ok.inj read
      rw [Environment.get, given, Option.getD_some] at accepted
      exact readVariable_eq_ok_iff.1 accepted
    · simp only [Options.ofValue, given] at read
      exact variableOption_eq_ok_iff.1 (name_of_ofChecks read)
  · intro h
    have accepted := variableOption_eq_ok_iff.2 h
    have given : Value.field? "variable" [("variable", .text text)] = some (.text text) := by
      simp [Value.field?, lookupEntry]
    have language : Value.field? "language" [("variable", .text text)] = none := by
      simp [Value.field?, lookupEntry]
    have read : (Options.ofValue (.record [("variable", .text text)]) {}).1 =
        .ok ⟨name, "en"⟩ := by
      simp only [Options.ofValue, given, language, accepted]
      rfl
    exact .options given read rfl

/-- An identifier of letters and digits begins with a letter. -/
theorem isName_iff_of_isIdentifier {s : List Char} (h : isIdentifier s = true) :
    isName s = true ↔ s.all isNameChar = true := by
  cases s with
  | nil => cases h
  | cons c s =>
    rw [isIdentifier, Bool.and_eq_true] at h
    rw [isName, List.all_cons, Bool.and_eq_true, Bool.and_eq_true]
    refine and_congr_left fun _ => ⟨fun letter => by simp [isNameChar, letter], fun part => ?_⟩
    rcases Bool.or_eq_true_iff.1 part with letter | digit
    · exact letter
    · have table : (charsBetween 48 57).all (fun c => !isIdentifierStart c) = true := by
        decide +kernel
      obtain ⟨low, high⟩ := toNat_of_isAsciiDigit digit
      have no := List.all_eq_true.1 table c (mem_charsBetween low high)
      rw [h.1] at no
      cases no

/-! ## The name of the variable for a text -/

/-- The words that the grammar keeps for itself. -/
def keywords : List String := "None" :: "True" :: "False" :: reservedWords

theorem parseTree_name {symbols : List String} (h : isName name.toList = true)
    (known : name ∈ symbols) : parseTree symbols name = some (.name name) := by
  have words : WellSpaced symbols [(0, .name name.toList)] :=
    ⟨List.isChain_singleton _, List.forall_mem_singleton.2
      ⟨h, .inr (.inl (by rwa [String.ofList_toList]))⟩⟩
  have text : String.ofList (wordsText [(0, .name name.toList)]) = name := by
    simp [wordsText, Word.chars]
  have tokens : tokensOf name = some [.name name, .finish, .finish] := by
    have found := words.tokensOf
    rw [text] at found
    rw [found]
    simp [wordsTokens, Word.tokens]
  have whole : splitNames symbols [.name name, .finish, .finish] [] ⟨false, false⟩ =
      some [.name name, .finish, .finish] := by
    simp [splitNames]
  have hidden : (callablesFor symbols).isCallable name = false := by
    simp [callablesFor, known]
  have complete : Token.Complete (callablesFor symbols) [.name name, .finish, .finish] := by
    refine List.isChain_cons_cons.2 ⟨⟨by simp [leavesOutTimes], fun f hf called => ?_, by simp⟩,
      List.isChain_pair.2 ⟨rfl, (fun _ no => by cases no), by simp⟩⟩
    obtain rfl := Token.name.inj hf
    rw [hidden] at called
    cases called
  have balanced : Balanced [.name name, .finish, .finish] :=
    ((balanced_token (t := .name name) (by simp) (by simp)).append
      (balanced_token (t := .finish) (by simp) (by simp))).append
        (balanced_token (t := .finish) (by simp) (by simp))
  unfold parseTree
  rw [tokens]
  simp only [Option.bind_eq_bind, Option.bind_some]
  rw [whole, Option.bind_some, completeTokens_eq balanced complete (by simp)]
  rfl

/-- What a name that is bound stands for by itself: a symbol, if it is no word of the grammar. -/
theorem workOut_name {symbols : List String} (known : name ∈ symbols) :
    workOut symbols name (.name name) =
      if name ∈ reservedWords then .error (.malformed name)
      else if name ∈ keywords then .error (.notAlgebraic name)
      else .ok (.sym name) := by
  by_cases reserved : name ∈ reservedWords
  · have other : name ≠ "None" := by
      rintro rfl
      exact absurd reserved (by decide)
    have meaning : nameMeaning symbols name = none := by simp [nameMeaning, other, reserved]
    rw [workOut_eq, if_pos reserved]
    simp only [Tree.writtenOutcome, Tree.written, Tree.meaning, meaning]
    rfl
  · rw [if_neg reserved]
    by_cases word : name ∈ keywords
    · obtain rfl | rfl | rfl : name = "None" ∨ name = "True" ∨ name = "False" := by
        simpa [keywords, reserved] using word
      all_goals rfl
    · rw [if_neg word]
      obtain ⟨absent, true, false⟩ : name ≠ "None" ∧ name ≠ "True" ∧ name ≠ "False" := by
        simpa [keywords, reserved] using word
      have truth : truthOf? name = none := by
        unfold truthOf?
        split
        · exact absurd rfl true
        · exact absurd rfl false
        · rfl
      have meaning : nameMeaning symbols name = some (.value (.sym name)) := by
        simp [nameMeaning, absent, reserved, truth, known]
      rw [workOut_eq]
      simp only [Tree.writtenOutcome, Tree.meaningOutcome, Tree.written, Tree.meaning, meaning]
      rfl

/-- What the name of a variable gives by itself: a symbol, unless it is a word of the grammar or
longer than the reader takes. -/
def nameOutcome (name : String) : Except ReadFault Expr :=
  if maxTextLength < name.toList.length then .error (.tooLong name.toList.length)
  else if name ∈ reservedWords then .error (.malformed name)
  else if name ∈ keywords then .error (.notAlgebraic name)
  else .ok (.sym name)

/-- What is read of the name of a variable, where it is bound. -/
theorem readExpression_name (h : isName name.toList = true) :
    readExpression name [name] = nameOutcome name := by
  have words : WellSpaced [name] [(0, .name name.toList)] :=
    ⟨List.isChain_singleton _, List.forall_mem_singleton.2 ⟨h, .inr (.inl (by simp))⟩⟩
  have text : String.ofList (wordsText [(0, .name name.toList)]) = name := by
    simp [wordsText, Word.chars]
  have notBlank : (stripBlank name.toList).isEmpty = false := by
    simpa [wordsText, Word.chars] using words.stripBlank_ne_nil (List.cons_ne_nil _ _)
  have outcome : namesOutcome name [name] = symbolNames name [name] := by
    simp [namesOutcome, h, notBlank]
  unfold nameOutcome
  by_cases long : maxTextLength < name.toList.length
  · rw [if_pos long, readExpression_eq, outcome, symbolNames, if_pos long]
    rfl
  · rw [if_neg long]
    have names := words.symbolNames (by simpa [wordsText, Word.chars, maxTextLength] using long)
    rw [text] at names
    rw [readExpression_of_tree (outcome.trans names) (parseTree_name h (by simp))]
    exact workOut_name (List.mem_append_right _ (List.mem_singleton_self name))

/-! ## The name of the variable in other texts -/

/-- The fault is about something else than the name of a variable. -/
def ReadFault.BlamesNoName (f : ReadFault) : Prop := ∀ name, f ≠ .badVariable name

theorem ReadFault.IsRefusal.blamesNoName {f : ReadFault} (h : f.IsRefusal) : f.BlamesNoName := by
  rintro name rfl
  exact h

theorem namesOutcome_blamesNoName {t : String} {bound : List String}
    (h : ∀ name ∈ bound, isName name.toList = true) :
    FailsOnly ReadFault.BlamesNoName (namesOutcome t bound) := by
  have names : bound.find? (fun name => !isName name.toList) = none :=
    List.find?_eq_none.2 fun name hname => by simp [h name hname]
  unfold namesOutcome
  rw [names]
  dsimp only
  split_ifs
  · exact .error (by simp [ReadFault.BlamesNoName])
  · exact fun f hf => (symbolNames_refusal hf).blamesNoName

theorem treeOutcome_blamesNoName (symbols : List String) (t : String) :
    FailsOnly ReadFault.BlamesNoName (treeOutcome symbols t) := by
  unfold treeOutcome
  split
  · exact .error (by simp [ReadFault.BlamesNoName])
  · exact .ok _

theorem checkSize_blamesNoName (symbols : List String) (t : Tree) :
    FailsOnly ReadFault.BlamesNoName (checkSize symbols t) := by
  unfold checkSize
  split_ifs
  · exact .ok _
  · split
    · exact .ok _
    · exact .error (by simp [ReadFault.BlamesNoName])

theorem checkTruths_blamesNoName (symbols : List String) (t : Tree) :
    FailsOnly ReadFault.BlamesNoName (checkTruths symbols t) := by
  have size := checkSize_blamesNoName symbols
  have done : FailsOnly ReadFault.BlamesNoName (.ok () : Except ReadFault Unit) := .ok ()
  induction t with
  | name _ | whole _ | decimal _ | nothing => exact done
  | call f a ih =>
    refine ih.bind fun _ => ?_
    split_ifs
    · exact size a
    · exact done
  | positive a ih | negative a ih => exact ih
  | binary o a b iha ihb =>
    refine iha.bind fun _ => ihb.bind fun _ => ?_
    dsimp only
    split_ifs
    · exact (size b).bind fun _ => (size a).bind fun _ => size b
    · exact (size b).bind fun _ => (size a).bind fun _ => done
    · exact (size b).bind fun _ => size b
    · exact (size b).bind fun _ => done
    · exact size b
    · exact done

theorem writtenOutcome_blamesNoName (symbols : List String) (t : String) (tree : Tree) :
    FailsOnly ReadFault.BlamesNoName (tree.writtenOutcome symbols t) := by
  unfold Tree.writtenOutcome
  repeat' split
  all_goals first
    | exact .ok _
    | exact .error (by simp [ReadFault.BlamesNoName])

theorem meaningOutcome_blamesNoName (symbols : List String) (t : String) (tree : Tree) :
    FailsOnly ReadFault.BlamesNoName (tree.meaningOutcome symbols t) := by
  unfold Tree.meaningOutcome
  split
  all_goals first
    | exact .ok _
    | exact .error (by simp [ReadFault.BlamesNoName])

/-- With names of letters and digits for the variables, no text is refused for a name of them. -/
theorem readExpression_blamesNoName {t : String} {bound : List String}
    (h : ∀ name ∈ bound, isName name.toList = true) :
    FailsOnly ReadFault.BlamesNoName (readExpression t bound) := by
  rw [readExpression_eq]
  refine (namesOutcome_blamesNoName h).bind fun names =>
    (treeOutcome_blamesNoName _ t).bind fun tree => ?_
  rw [workOut_eq]
  exact (writtenOutcome_blamesNoName _ t tree).bind fun x =>
    (checkTruths_blamesNoName _ tree).bind fun _ =>
      FailsOnly.bind (fun f hf => (checkPowers_refusal hf).blamesNoName) fun _ =>
        meaningOutcome_blamesNoName _ t tree

/-- A name with another character in it is refused with every text. -/
theorem readExpression_badVariable (h : isName name.toList = false) (t : String) :
    readExpression t [name] = .error (.badVariable name) := by
  have bad : [name].find? (fun name => !isName name.toList) = some name := by simp [h]
  rw [readExpression_eq, namesOutcome, bad]
  rfl

/-! ## The validators of names and the reader -/

/-- The settings and the options accept the same texts. The name, which is the text without the
blanks around it, is refused by the reader with every text where it has a character that is no
letter of the alphabet and no digit. Otherwise it is refused with no text, and by itself it is the
symbol of this name, unless it is a word of the grammar or longer than the reader takes. -/
theorem accepted_variables_are_symbols_up_to_keywords (text name : String)
    (h : AcceptsVariable text name) :
    name = stripText text ∧
      readVariable text = .ok name ∧ variableOption (.text text) = .ok name ∧
      if name.toList.all isNameChar then
        (∀ t bad, readExpression t [name] ≠ .error (.badVariable bad)) ∧
          readExpression name [name] = nameOutcome name
      else ∀ t, readExpression t [name] = .error (.badVariable name) := by
  obtain ⟨trimmed, identifier⟩ := acceptsVariable_iff.1 h
  refine ⟨trimmed, readVariable_eq_ok_iff.2 ⟨trimmed, identifier⟩,
    variableOption_eq_ok_iff.2 ⟨trimmed, identifier⟩, ?_⟩
  by_cases plain : name.toList.all isNameChar = true
  · rw [if_pos plain]
    have isName := (isName_iff_of_isIdentifier identifier).2 plain
    exact ⟨fun t bad refused =>
      readExpression_blamesNoName (List.forall_mem_singleton.2 isName) _ refused bad rfl,
      readExpression_name isName⟩
  · rw [if_neg plain]
    refine readExpression_badVariable (Bool.eq_false_iff.2 fun isName => plain ?_)
    exact (isName_iff_of_isIdentifier identifier).1 isName

/-- A name of a letter and a digit with blanks around it is accepted as a symbol. -/
theorem a_letter_with_a_digit_is_a_variable :
    AcceptsVariable " x1 " "x1" ∧ ("x1".toList.all isNameChar = true) ∧
      readExpression "x1" ["x1"] = .ok (.sym "x1") := by
  have accepted : AcceptsVariable " x1 " "x1" :=
    acceptsVariable_iff.2 ⟨by decide +kernel, by decide +kernel⟩
  have plain : "x1".toList.all isNameChar = true := by decide +kernel
  obtain ⟨-, -, -, read⟩ := accepted_variables_are_symbols_up_to_keywords " x1 " "x1" accepted
  rw [if_pos plain] at read
  exact ⟨accepted, plain, read.2.trans rfl⟩

/-- A name with an underscore is accepted as a variable and refused in every text, and so is a word
of the grammar by itself. -/
theorem an_underscore_is_accepted_and_refused :
    AcceptsVariable "x_1" "x_1" ∧ (∃ x, readExpression "2*x" [] = .ok x) ∧
      readExpression "2*x" ["x_1"] = .error (.badVariable "x_1") ∧
      AcceptsVariable "lambda" "lambda" ∧
      readExpression "lambda" ["lambda"] = .error (.malformed "lambda") := by
  refine ⟨acceptsVariable_iff.2 ⟨by decide +kernel, by decide +kernel⟩, ?_,
    readExpression_badVariable (by decide +kernel) _,
    acceptsVariable_iff.2 ⟨by decide +kernel, by decide +kernel⟩, ?_⟩
  · have names : namesOutcome "2*x" [] = .ok ["x"] := rfl
    have parsed : parseTree ["x"] "2*x" = some (.binary .times (.whole "2") (.name "x")) := by cbv
    exact exists_read names parsed (by decide +kernel)
  · exact readExpression_name (by decide +kernel)

end Reckoner
