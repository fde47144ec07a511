-- Tokens that leave nothing out. Where operands and signs take turns, no sign of multiplication and
-- no bracket is put in, and no exponent moves: only carets become signs of powers.
import Mathlib
import Reckoner.Proofs.Reading.Words

namespace Reckoner

/-! ## Brackets -/

mutual
/-- The tokens of a group. -/
def Group.tokens : Group → List Token
  | .token t => [t]
  | .inner l => .op .opening :: (groupTokens l ++ [.op .closing])
def groupTokens : List Group → List Token
  | [] => []
  | g :: rest => g.tokens ++ groupTokens rest
end

@[simp]
theorem groupTokens_append (l m : List Group) :
    groupTokens (l ++ m) = groupTokens l ++ groupTokens m := by
  induction l with
  | nil => rfl
  | cons g rest ih => rw [List.cons_append, groupTokens, groupTokens, ih, List.append_assoc]

/-- The tokens up to the last open bracket. -/
def openTokens : List (List Group) → List Token
  | [] => []
  | before :: rest => openTokens rest ++ groupTokens before.reverse ++ [.op .opening]

/-- Pairing brackets loses no token. -/
theorem pairBrackets_tokens {l : List Token} {stack : List (List Group)} {acc groups : List Group}
    (h : pairBrackets l stack acc = some groups) :
    groupTokens groups = openTokens stack ++ groupTokens acc.reverse ++ l := by
  induction l, stack, acc using pairBrackets.induct with
  | case1 acc =>
    obtain rfl := Option.some.inj h
    simp [openTokens]
  | case2 => cases h
  | case3 rest stack acc ih =>
    rw [pairBrackets] at h
    simp [ih h, openTokens, groupTokens]
  | case4 rest before stack acc ih =>
    rw [pairBrackets] at h
    simp [ih h, openTokens, groupTokens, Group.tokens]
  | case5 => cases h
  | case6 t rest stack acc hopening hclosing hlast ih =>
    rw [pairBrackets] at h
    · rw [ih h]
      simp [groupTokens, Group.tokens]
    all_goals assumption

/-- The brackets of the tokens are pairs. -/
def Balanced (l : List Token) : Prop :=
  ∃ groups, ∀ rest stack acc,
    pairBrackets (l ++ rest) stack acc = pairBrackets rest stack (groups ++ acc)

theorem Balanced.append {l m : List Token} (hl : Balanced l) (hm : Balanced m) :
    Balanced (l ++ m) := by
  obtain ⟨groups, first⟩ := hl
  obtain ⟨more, second⟩ := hm
  refine ⟨more ++ groups, fun rest stack acc => ?_⟩
  rw [List.append_assoc, first, second, List.append_assoc]

theorem Balanced.brackets {l : List Token} (h : Balanced l) :
    Balanced (.op .opening :: (l ++ [.op .closing])) := by
  obtain ⟨groups, paired⟩ := h
  refine ⟨[.inner groups.reverse], fun rest stack acc => ?_⟩
  rw [List.cons_append, List.append_assoc, pairBrackets, paired, List.append_nil]
  rfl

theorem balanced_token {t : Token} (opening : t ≠ .op .opening) (closing : t ≠ .op .closing) :
    Balanced [t] := by
  refine ⟨[.token t], fun rest stack acc => ?_⟩
  rw [List.singleton_append, pairBrackets]
  · rfl
  · exact opening
  · exact fun _ _ _ h => closing h
  · exact fun _ h => closing h

/-! ## Lists that stay as they are -/

/-- Nothing is put in between the tokens, nothing is moved there, and they do not read as one. -/
structure Token.StandsBefore (calls : Callables) (a b : Token) : Prop where
  times : leavesOutTimes calls (.token a) (.token b) = false
  call : ∀ f, a = .name f → calls.isCallable f = true → b = .op .opening
  apart : ¬ (a = b ∧ (a = .op .times ∨ a = .op .over))

/-- Nothing is left out in the tokens. -/
abbrev Token.Complete (calls : Callables) (l : List Token) : Prop :=
  l.IsChain (Token.StandsBefore calls)

section Stays

variable {calls : Callables} {change : List Item → List Item}

/-- A change of single levels that keeps what leaves nothing out keeps all levels of it. -/
theorem mapLevels_tokens
    (keeps : ∀ l : List Item, Token.Complete calls (l.flatMap Item.tokens) → change l = l)
    {groups : List Group} (h : Token.Complete calls (groupTokens groups)) :
    (mapLevels calls change groups).flatMap Item.tokens = groupTokens groups := by
  have inner : ∀ {l : List Group}, Token.Complete calls (groupTokens l) →
      (Token.Complete calls (groupTokens l) →
        (mapLevels calls change l).flatMap Item.tokens = groupTokens l) →
      (change (mapLevels calls change l)).flatMap Item.tokens = groupTokens l := by
    intro l complete ih
    rw [keeps _ (by rwa [ih complete]), ih complete]
  induction groups using mapLevels.induct calls change with
  | case1 => simp [mapLevels, groupTokens]
  | case2 f l rest known ihl ihrest | case3 f l rest known ihl ihrest =>
    rw [groupTokens, groupTokens, Group.tokens, Group.tokens] at h
    have argument : Token.Complete calls (groupTokens l) :=
      h.infix ⟨[.name f, .op .opening], .op .closing :: groupTokens rest, by simp⟩
    have behind : Token.Complete calls (groupTokens rest) :=
      h.infix ⟨.name f :: .op .opening :: (groupTokens l ++ [.op .closing]), [], by simp⟩
    simp [mapLevels, known, Item.tokens, groupTokens, Group.tokens, inner argument ihl,
      ihrest behind, List.flatMap_map]
  | case4 l rest ihl ihrest =>
    rw [groupTokens, Group.tokens] at h
    have argument : Token.Complete calls (groupTokens l) :=
      h.infix ⟨[.op .opening], .op .closing :: groupTokens rest, by simp⟩
    have behind : Token.Complete calls (groupTokens rest) :=
      h.infix ⟨.op .opening :: (groupTokens l ++ [.op .closing]), [], by simp⟩
    simp [mapLevels, Item.tokens, groupTokens, Group.tokens, inner argument ihl, ihrest behind,
      List.flatMap_map]
  | case5 t rest plain ihrest =>
    rw [mapLevels]
    · rw [List.flatMap_cons, ihrest (List.isChain_append.1 h).2.1]
      rfl
    · exact plain

theorem Balanced.mapTokens {l : List Token} (h : Balanced l)
    (keeps : ∀ l : List Item, Token.Complete calls (l.flatMap Item.tokens) → change l = l)
    (complete : Token.Complete calls l) : mapTokens calls change l = some l := by
  obtain ⟨groups, paired⟩ := h
  have pairs : pairBrackets l [] [] = some groups.reverse := by
    simpa [pairBrackets] using paired [] [] []
  have whole : groupTokens groups.reverse = l := pairBrackets_tokens pairs
  have levels := mapLevels_tokens keeps (whole.symm ▸ complete)
  rw [whole] at levels
  rw [Reckoner.mapTokens, pairs, Option.map_some, keeps _ (by rwa [levels]), levels]

/-- Items that follow one another do so by the last token of one and the first of the other. -/
theorem isChain_of_tokens {R : Token → Token → Prop} {l : List Item}
    (h : (l.flatMap Item.tokens).IsChain R) :
    l.IsChain fun a b => ∀ x ∈ a.tokens.getLast?, ∀ y ∈ b.tokens.head?, R x y := by
  have some : [] ∉ l.map Item.tokens := by
    rintro empty
    obtain ⟨a, -, none⟩ := List.mem_map.1 empty
    cases a <;> cases none
  rw [List.flatMap_def, List.isChain_flatten some] at h
  exact (List.isChain_map _).1 h.2

/-- Whether a sign of multiplication is left out shows at the tokens that meet. -/
theorem leavesOutTimes_tokens {a b : Item} (h : ∀ x ∈ a.tokens.getLast?, ∀ y ∈ b.tokens.head?,
    leavesOutTimes calls (.token x) (.token y) = false) : leavesOutTimes calls a b = false := by
  cases a with
  | token t =>
    cases b with
    | token s => exact h t rfl s rfl
    | applied f inner =>
      have meets := h t rfl (.name f) rfl
      cases t with
      | op o => cases o <;> first | rfl | cases meets
      | _ => exact meets
  | applied g more =>
    have last : Token.op .closing ∈ (Item.applied g more).tokens.getLast? :=
      show ((Token.name g :: Token.op .opening :: more) ++ [Token.op .closing]).getLast? = _ from
        List.getLast?_concat
    cases b with
    | token s =>
      have meets := h _ last s rfl
      cases s with
      | op o => cases o <;> first | rfl | cases meets
      | _ => first | rfl | cases meets
    | applied f inner => cases h _ last (.name f) rfl

theorem insertTimes_eq {l : List Item} (h : Token.Complete calls (l.flatMap Item.tokens)) :
    insertTimes calls l = l := by
  have chain := (isChain_of_tokens h).imp fun a b meets =>
    leavesOutTimes_tokens fun x hx y hy => (meets x hx y hy).times
  clear h
  induction l with
  | nil => rfl
  | cons a l ih =>
    cases l with
    | nil => rfl
    | cons b l =>
      obtain ⟨first, later⟩ := List.isChain_cons_cons.1 chain
      rw [insertTimes, first, ih later]
      rfl

/-- Where each function stands before a bracket, no argument is without brackets. -/
theorem insertBrackets_eq {l : List Item} (h : Token.Complete calls (l.flatMap Item.tokens)) :
    insertBrackets calls l ⟨0, false, false⟩ = l := by
  have chain := isChain_of_tokens h
  clear h
  induction l with
  | nil => rfl
  | cons a l ih =>
    cases l with
    | nil => rfl
    | cons b l =>
      obtain ⟨first, later⟩ := List.isChain_cons_cons.1 chain
      have next := ih later
      cases a with
      | applied f inner => simp [insertBrackets, next]
      | token t =>
        cases t with
        | name f =>
          cases known : calls.isCallable f with
          | false => simp [insertBrackets, next, known]
          | true =>
            obtain rfl : b = .token (.op .opening) := by
              cases b with
              | token s => rw [(first (.name f) rfl s rfl).call f rfl known]
              | applied g inner => cases (first (.name f) rfl (.name g) rfl).call f rfl known
            simp [insertBrackets, next, endsCall]
        | _ => simp [insertBrackets, next]

/-- Where each function stands before a bracket, no function has an exponent. -/
theorem moveExponents_eq {l : List Token} (h : Token.Complete calls l) :
    moveExponents calls l ⟨[], false, 0⟩ = l := by
  induction l with
  | nil => rfl
  | cons a l ih =>
    cases l with
    | nil => rfl
    | cons b l =>
      obtain ⟨first, later⟩ := List.isChain_cons_cons.1 h
      have next := ih later
      cases a with
      | name f =>
        cases known : calls.isCallable f with
        | false => simp [moveExponents, next, known]
        | true =>
          obtain rfl := first.call f rfl known
          simp [moveExponents, next]
      | _ => simp [moveExponents, next]

end Stays

/-! ## Signs that read as one -/

theorem joinSigns_eq {l : List Token}
    (h : l.IsChain fun a b => ¬ (a = b ∧ (a = .op .times ∨ a = .op .over))) : joinSigns l = l := by
  induction l with
  | nil => rfl
  | cons a l ih =>
    have later := ih h.tail
    have apart : ∀ {t : Token} {rest : List Token}, t = .op .times ∨ t = .op .over → a = t →
        l ≠ t :: rest := by
      rintro t rest ht rfl rfl
      exact (List.isChain_cons_cons.1 h).1 ⟨rfl, ht⟩
    rw [joinSigns, later]
    · exact fun rest ha hl => apart (.inl rfl) ha hl
    · exact fun rest ha hl => apart (.inr rfl) ha hl

theorem breaksInside_eq {l : List Token} (h : .newline ∉ l) (depth : ℕ) :
    breaksInside l depth = true := by
  induction l generalizing depth with
  | nil => rfl
  | cons t l ih =>
    obtain ⟨first, later⟩ := not_or.1 (mt List.mem_cons.2 h)
    cases t with
    | newline => exact absurd rfl first
    | op o => cases o <;> exact ih later _
    | _ => exact ih later _

/-- Nothing is put into tokens that leave nothing out. -/
theorem completeTokens_eq {calls : Callables} {l : List Token} (balanced : Balanced l)
    (complete : Token.Complete calls l) (plain : .newline ∉ l) :
    completeTokens calls l = some (caretsAsPowers l) := by
  have apart : (caretsAsPowers l).IsChain
      fun a b => ¬ (a = b ∧ (a = .op .times ∨ a = .op .over)) := by
    refine (List.isChain_map _).2 (complete.imp fun a b meets both => meets.apart ?_)
    obtain ⟨same, kind⟩ := both
    split_ifs at same kind with ha hb
    · simp at kind
    · simp at kind
    · subst same
      simp at kind
    · exact ⟨same, kind⟩
  unfold completeTokens
  rw [breaksInside_eq plain, balanced.mapTokens (fun _ => insertTimes_eq) complete]
  dsimp only [Bool.not_true, Bool.false_eq_true, ↓reduceIte, Option.bind_eq_bind, Option.bind_some]
  rw [balanced.mapTokens (fun _ => insertBrackets_eq) complete]
  simp only [Option.bind_some]
  rw [moveExponents_eq complete, joinSigns_eq apart]
  rfl

/-! ## Words -/

namespace Word

/-- The word begins an operand. -/
def opens : Word → Bool
  | number _ | name _ => true
  | sign o => o = .opening

/-- The word ends an operand. -/
def closes (calls : Callables) : Word → Bool
  | number _ => true
  | name s => !calls.isCallable (String.ofList s)
  | sign o => o = .closing

/-- Nothing is left out between two words. -/
structure Follows (calls : Callables) (a b : Word) : Prop where
  apart : a.Apart b
  call : ∀ s, a = name s → calls.isCallable (String.ofList s) = true → b = sign .opening
  operand : a.closes calls = true → b.opens = false

end Word

section Words

variable {calls : Callables} {a b : Word} {ws : List Word}

theorem wordsTokens_cons (w : Word) (ws : List Word) :
    wordsTokens (w :: ws) = w.tokens ++ wordsTokens ws := by simp [wordsTokens]

/-- A word that begins no operand begins with a sign other than an open bracket. -/
theorem Word.head_of_not_opens (h : b.opens = false) {y : Token} (hy : y ∈ b.tokens.head?) :
    ∃ o, y = .op o ∧ o ≠ .opening := by
  cases b with
  | sign o => exact ⟨o, (Option.some.inj hy).symm, by simpa [opens] using h⟩
  | _ => cases h

theorem Word.Follows.standsBefore (h : a.Follows calls b) {x y : Token}
    (hx : x ∈ a.tokens.getLast?) (hy : y ∈ b.tokens.head?) : x.StandsBefore calls y := by
  cases a with
  | number n =>
    obtain rfl : .op .closing = x := Option.some.inj hx
    obtain ⟨o, rfl, ho⟩ := head_of_not_opens (h.operand rfl) hy
    refine ⟨?_, (fun _ no => by cases no), by simp⟩
    cases o <;> first | rfl | exact absurd rfl ho
  | name s =>
    obtain rfl : .name (String.ofList s) = x := Option.some.inj hx
    cases known : calls.isCallable (String.ofList s) with
    | true =>
      obtain rfl := h.call s rfl known
      obtain rfl : .op .opening = y := Option.some.inj hy
      exact ⟨by simp [leavesOutTimes, known], fun _ _ _ => rfl, by simp⟩
    | false =>
      obtain ⟨o, rfl, ho⟩ := head_of_not_opens (h.operand (by simp [closes, known])) hy
      refine ⟨?_, fun f hf hk => ?_, by simp⟩
      · cases o <;> first | exact absurd rfl ho | simp [leavesOutTimes]
      · obtain rfl := Token.name.inj hf
        simp [known] at hk
  | sign o =>
    obtain rfl : .op o = x := Option.some.inj hx
    refine ⟨?_, (fun _ no => by cases no), ?_⟩
    · cases o with
      | closing =>
        obtain ⟨o, rfl, ho⟩ := head_of_not_opens (h.operand rfl) hy
        cases o <;> first | rfl | exact absurd rfl ho
      | _ => rfl
    · rintro ⟨rfl, twice⟩
      obtain rfl : b = .sign o := by
        cases b with
        | sign o' => rw [Token.op.inj (Option.some.inj hy)]
        | _ => cases hy
      have apart := h.apart
      rcases twice with same | same
      · obtain rfl := Token.op.inj same
        exact apart.1 rfl
      · obtain rfl := Token.op.inj same
        exact apart.1 rfl

theorem Word.complete_tokens (number : calls.isCallable "Integer" = true) (w : Word) :
    Token.Complete calls w.tokens := by
  cases w with
  | number n =>
    refine List.isChain_cons_cons.2 ⟨⟨by simp [leavesOutTimes, number], fun _ _ _ => rfl,
      by simp⟩, List.isChain_cons_cons.2 ⟨⟨rfl, (fun _ no => by cases no), by simp⟩,
        List.isChain_pair.2 ⟨rfl, (fun _ no => by cases no), by simp⟩⟩⟩
  | _ => exact List.isChain_singleton _

/-- Nothing is left out in words between which nothing is left out, if no function ends them. -/
theorem complete_words (number : calls.isCallable "Integer" = true)
    (follow : ws.IsChain (Word.Follows calls))
    (last : ∀ s, .name s ∈ ws.getLast? → calls.isCallable (String.ofList s) = false) :
    Token.Complete calls (wordsTokens ws) := by
  induction ws with
  | nil => exact List.isChain_pair.2 ⟨rfl, (fun _ no => by cases no), by simp⟩
  | cons w ws ih =>
    rw [wordsTokens_cons]
    refine List.isChain_append.2 ⟨w.complete_tokens number, ih follow.tail ?_, fun x hx y hy => ?_⟩
    · intro s hs
      refine last s ?_
      cases ws with
      | nil => cases hs
      | cons b ws => rwa [List.getLast?_cons_cons]
    · cases ws with
      | nil =>
        obtain rfl : .finish = y := Option.some.inj hy
        cases w with
        | number n =>
          obtain rfl : .op .closing = x := Option.some.inj hx
          exact ⟨rfl, (fun _ no => by cases no), by simp⟩
        | name s =>
          obtain rfl : .name (String.ofList s) = x := Option.some.inj hx
          refine ⟨by simp [leavesOutTimes], fun f hf hk => ?_, by simp⟩
          obtain rfl := Token.name.inj hf
          simp [last s rfl] at hk
        | sign o =>
          obtain rfl : .op o = x := Option.some.inj hx
          refine ⟨?_, (fun _ no => by cases no), by simp⟩
          cases o <;> rfl
      | cons b ws =>
        have tokens : b.tokens ≠ [] := by cases b <;> exact List.cons_ne_nil _ _
        rw [wordsTokens_cons, List.head?_append_of_ne_nil _ tokens] at hy
        exact (List.isChain_cons_cons.1 follow).1.standsBefore hx hy

theorem newline_not_mem_words (ws : List Word) : .newline ∉ wordsTokens ws := by
  induction ws with
  | nil => simp [wordsTokens]
  | cons w ws ih =>
    rw [wordsTokens_cons]
    cases w <;> simpa [Word.tokens] using ih

/-- Nothing is put into words between which nothing is left out. -/
theorem completeTokens_words (number : calls.isCallable "Integer" = true)
    (balanced : Balanced (wordsTokens ws)) (follow : ws.IsChain (Word.Follows calls))
    (last : ∀ s, .name s ∈ ws.getLast? → calls.isCallable (String.ofList s) = false) :
    completeTokens calls (wordsTokens ws) = some (caretsAsPowers (wordsTokens ws)) :=
  completeTokens_eq balanced (complete_words number follow last) (newline_not_mem_words ws)

end Words

end Reckoner
