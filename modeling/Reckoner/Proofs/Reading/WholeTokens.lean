-- Tokens that are read as a tree as they stand leave nothing out: if the tree means an expression,
-- operands and signs take turns in them, their brackets are pairs, and nothing is put in.
import Mathlib
import Reckoner.Proofs.Reading.Completing
import Reckoner.Proofs.Reading.SameNames

namespace Reckoner

/-! ## Operands -/

/-- The token begins an operand or the sign before one. -/
def Token.begins : Token → Bool
  | .name _ | .literal _ | .op .opening | .op .plus | .op .minus => true
  | _ => false

/-- The token ends an operand. The name of a function does not. -/
def Token.ends (calls : Callables) : Token → Bool
  | .name s => !calls.isCallable s
  | .literal _ | .op .closing => true
  | _ => false

/-- Every bracket in the tokens has its partner among them. -/
inductive Bracketed : List Token → Prop where
  | token {t : Token} (opening : t ≠ .op .opening) (closing : t ≠ .op .closing) : Bracketed [t]
  | append {l m : List Token} (hl : Bracketed l) (hm : Bracketed m) : Bracketed (l ++ m)
  | brackets {l : List Token} (h : Bracketed l) : Bracketed (.op .opening :: (l ++ [.op .closing]))

theorem Bracketed.balanced {l : List Token} (h : Bracketed l) : Balanced l := by
  induction h with
  | token opening closing => exact balanced_token opening closing
  | append _ _ ihl ihm => exact ihl.append ihm
  | brackets _ ih => exact ih.brackets

/-- Tokens that leave nothing out, with brackets in pairs, from the beginning of an operand or its
sign up to the end of one. -/
structure WholeTokens (calls : Callables) (l : List Token) : Prop where
  bracketed : Bracketed l
  complete : Token.Complete calls l
  first : ∃ t ∈ l.head?, t.begins = true
  last : ∃ t ∈ l.getLast?, t.ends calls = true

section Neighbours

variable {calls : Callables} {a b : Token} {o : Operator}

theorem op_standsBefore (ho : o ≠ .closing) (h : b.begins = true) :
    (Token.op o).StandsBefore calls b := by
  refine ⟨?_, (fun _ no => by cases no), ?_⟩
  · cases o <;> first | rfl | exact absurd rfl ho
  · rintro ⟨rfl, twice⟩
    rcases twice with same | same
    all_goals
      rw [same] at h
      cases h

/-- Behind an operand nothing is left out before what begins none. -/
theorem ends_standsBefore (h : a.ends calls = true) (name : ∀ s, b ≠ .name s)
    (opening : b ≠ .op .opening) : a.StandsBefore calls b := by
  have free : a ≠ .op .times ∧ a ≠ .op .over := by
    constructor <;> (rintro rfl; cases h)
  refine ⟨?_, fun f hf known => ?_, fun twice => twice.2.elim free.1 free.2⟩
  · cases a with
    | name f =>
      cases b with
      | name s => exact absurd rfl (name s)
      | op o => cases o <;> first | exact absurd rfl opening | simp [leavesOutTimes]
      | _ => simp [leavesOutTimes]
    | op o =>
      cases b with
      | name s => exact absurd rfl (name s)
      | op o' => cases o' <;> first | exact absurd rfl opening | (cases o <;> rfl)
      | _ => cases o <;> rfl
    | _ => rfl
  · subst hf
    simp [Token.ends, known] at h

theorem finish_standsBefore_finish : Token.finish.StandsBefore calls .finish :=
  ⟨rfl, (fun _ no => by cases no), by simp⟩

end Neighbours

namespace WholeTokens

variable {calls : Callables} {l m : List Token} {o : Operator}

theorem ne_nil (h : WholeTokens calls l) : l ≠ [] := by
  rintro rfl
  obtain ⟨t, ht, -⟩ := h.first
  cases ht

theorem single {t : Token} (begins : t.begins = true) (ends : t.ends calls = true) :
    WholeTokens calls [t] where
  bracketed := by
    refine .token ?_ ?_
    · rintro rfl
      cases ends
    · rintro rfl
      cases begins
  complete := List.isChain_singleton t
  first := ⟨t, rfl, begins⟩
  last := ⟨t, rfl, ends⟩

/-- A sign before an operand. -/
theorem signed (h : WholeTokens calls l) (begins : (Token.op o).begins = true)
    (opening : o ≠ .opening) : WholeTokens calls (.op o :: l) where
  bracketed := by
    refine .append (.token (by simpa using opening) ?_) h.bracketed
    rintro same
    rw [same] at begins
    cases begins
  complete := by
    refine List.isChain_cons.2 ⟨fun b hb => ?_, h.complete⟩
    obtain ⟨t, first, hbegins⟩ := h.first
    obtain rfl := Option.mem_unique first hb
    refine op_standsBefore ?_ hbegins
    rintro rfl
    cases begins
  first := ⟨_, rfl, begins⟩
  last := by
    rw [List.getLast?_cons_of_ne_nil h.ne_nil]
    exact h.last

/-- A sign between two operands. -/
theorem joined (hl : WholeTokens calls l) (hm : WholeTokens calls m) (opening : o ≠ .opening)
    (closing : o ≠ .closing) : WholeTokens calls (l ++ .op o :: m) where
  bracketed := hl.bracketed.append
    (.append (.token (by simpa using opening) (by simpa using closing)) hm.bracketed)
  complete := by
    refine List.isChain_append.2 ⟨hl.complete, List.isChain_cons.2 ⟨fun b hb => ?_, hm.complete⟩, ?_⟩
    · obtain ⟨t, first, begins⟩ := hm.first
      obtain rfl := Option.mem_unique first hb
      exact op_standsBefore closing begins
    · intro a ha b hb
      obtain ⟨t, last, ends⟩ := hl.last
      obtain rfl := Option.mem_unique last ha
      obtain rfl : .op o = b := Option.some.inj hb
      exact ends_standsBefore ends (by simp) (by simpa using opening)
  first := by
    rw [List.head?_append_of_ne_nil _ hl.ne_nil]
    exact hl.first
  last := by
    rw [List.getLast?_append_of_ne_nil _ (List.cons_ne_nil _ _),
      List.getLast?_cons_of_ne_nil hm.ne_nil]
    exact hm.last

/-- A sign and an operand, and what leaves nothing out behind an operand. -/
theorem behind {more : List Token} (hl : WholeTokens calls l) (hm : WholeTokens calls m)
    (h : ∀ before, WholeTokens calls before → WholeTokens calls (before ++ more))
    (opening : o ≠ .opening) (closing : o ≠ .closing) :
    WholeTokens calls (l ++ .op o :: (m ++ more)) := by
  have joined := h _ (hl.joined hm opening closing)
  rwa [List.append_assoc, List.cons_append] at joined

theorem inBrackets (h : WholeTokens calls l) :
    WholeTokens calls (.op .opening :: (l ++ [.op .closing])) where
  bracketed := h.bracketed.brackets
  complete := by
    refine List.isChain_cons.2 ⟨fun b hb => ?_, List.isChain_append.2
      ⟨h.complete, List.isChain_singleton _, fun a ha b hb => ?_⟩⟩
    · rw [List.head?_append_of_ne_nil _ h.ne_nil] at hb
      obtain ⟨t, first, begins⟩ := h.first
      obtain rfl := Option.mem_unique first hb
      exact op_standsBefore (by decide) begins
    · obtain ⟨t, last, ends⟩ := h.last
      obtain rfl := Option.mem_unique last ha
      obtain rfl : .op .closing = b := Option.some.inj hb
      exact ends_standsBefore ends (by simp) (by simp)
  first := ⟨_, rfl, rfl⟩
  last := ⟨.op .closing, by rw [← List.cons_append, List.getLast?_concat]; rfl, rfl⟩

/-- A function before brackets. -/
theorem called {f : String} (h : WholeTokens calls (.op .opening :: l))
    (known : calls.isCallable f = true) : WholeTokens calls (.name f :: .op .opening :: l) where
  bracketed := .append (.token (by simp) (by simp)) h.bracketed
  complete := List.isChain_cons_cons.2
    ⟨⟨by simp [leavesOutTimes, known], fun _ _ _ => rfl, by simp⟩, h.complete⟩
  first := ⟨_, rfl, rfl⟩
  last := by
    rw [List.getLast?_cons_cons]
    exact h.last

end WholeTokens

/-! ## What a stage takes -/

section Stages

variable {symbols : List String}

/-- What a stage has before it means an expression. -/
def Stage.IsSound (symbols : List String) : Stage → Prop
  | .sumRest a | .productRest a => a.IsSound symbols
  | .sum | .product | .signed | .power | .atom => True

/-- The tokens leave nothing out; those of the rest of a sum or product do so behind an operand. -/
def Stage.Takes (calls : Callables) (used : List Token) : Stage → Prop
  | .sumRest _ | .productRest _ =>
    ∀ before, WholeTokens calls before → WholeTokens calls (before ++ used)
  | .sum | .product | .signed | .power | .atom => WholeTokens calls used

/-- A name that means an expression is not called. -/
theorem not_isCallable_of_value {s : String} {x : Expr}
    (h : nameMeaning symbols s = some (.value x)) : (callablesFor symbols).isCallable s = false := by
  rcases nameMeaning_value h with ⟨symbol, -⟩ | ⟨-, none, constant | ⟨single, -⟩⟩
  · simp [callablesFor, symbol]
  · have kind : s ≠ "Integer" ∧ s ≠ "Float" := by
      constructor <;> (rintro rfl; cases constant)
    simp [callablesFor, none, kind]
  · have kind : s ≠ "Integer" ∧ s ≠ "Float" := by
      constructor <;> (rintro rfl; cases single)
    simp [callablesFor, none, kind]

variable (kinds : "Integer" ∉ symbols ∧ "Float" ∉ symbols)
include kinds

theorem numberCall_sound {f : String} {a t : Tree} (h : numberCall f a = some t)
    (sound : t.IsSound symbols) :
    a.IsSound symbols ∧ (callablesFor symbols).isCallable f = true := by
  unfold numberCall at h
  split at h
  · exact ⟨trivial, by simp [callablesFor, kinds.1]⟩
  · exact ⟨trivial, by simp [callablesFor, kinds.2]⟩
  · cases h
  · cases h
  · obtain rfl := Option.some.inj h
    obtain ⟨free, function, inner⟩ := sound
    exact ⟨inner, by simp [callablesFor, free, function]⟩

/-- Each stage of a tree that means an expression takes tokens that leave nothing out. -/
theorem Stage.Derives.takes {stage : Stage} {tokens rest : List Token} {t : Tree}
    (h : stage.Derives tokens t rest) (sound : t.IsSound symbols) :
    stage.IsSound symbols ∧
      ∃ used, tokens = used ++ rest ∧ stage.Takes (callablesFor symbols) used := by
  induction h with
  | sum _ _ first more | product _ _ first more =>
    obtain ⟨soundA, back, rfl, behind⟩ := more sound
    obtain ⟨-, front, rfl, taken⟩ := first soundA
    exact ⟨trivial, front ++ back, (List.append_assoc _ _ _).symm, behind front taken⟩
  | @sumNext o _ _ _ _ _ _ _ _ _ next more | @productNext o _ _ _ _ _ _ _ _ _ next more =>
    obtain ⟨⟨soundA, soundB⟩, back, rfl, behind⟩ := more sound
    obtain ⟨-, front, rfl, taken⟩ := next soundB
    have sign : o.sign ≠ .opening ∧ o.sign ≠ .closing := by cases o <;> decide
    exact ⟨soundA, .op o.sign :: (front ++ back), by rw [List.cons_append, List.append_assoc],
      fun before whole => WholeTokens.behind whole taken behind sign.1 sign.2⟩
  | sumEnd | productEnd =>
    exact ⟨sound, [], rfl, fun before whole => by rwa [List.append_nil]⟩
  | positive _ ih | negative _ ih =>
    obtain ⟨-, used, rfl, taken⟩ := ih sound
    exact ⟨trivial, _ :: used, rfl, taken.signed rfl (by decide)⟩
  | unsigned _ ih | alone _ ih => exact ⟨trivial, (ih sound).2⟩
  | raised _ _ base exponent =>
    obtain ⟨-, back, rfl, second⟩ := exponent sound.2
    obtain ⟨-, front, rfl, first⟩ := base sound.1
    exact ⟨trivial, _, (List.append_assoc front (_ :: back) _).symm,
      first.joined second (by decide) (by decide)⟩
  | literal => exact ⟨trivial, [_], rfl, .single rfl rfl⟩
  | nothing => exact sound.elim
  | brackets _ ih =>
    obtain ⟨-, used, rfl, taken⟩ := ih sound
    refine ⟨trivial, .op .opening :: (used ++ [.op .closing]), by simp, ?_⟩
    exact WholeTokens.inBrackets taken
  | @call f a t l r _ called ih =>
    obtain ⟨soundA, known⟩ := numberCall_sound kinds called sound
    obtain ⟨-, used, rfl, taken⟩ := ih soundA
    refine ⟨trivial, .name f :: .op .opening :: (used ++ [.op .closing]), by simp, ?_⟩
    exact (WholeTokens.inBrackets taken).called known
  | name =>
    obtain ⟨x, hx⟩ := sound
    exact ⟨trivial, [_], rfl, .single rfl (by simp [Token.ends, not_isCallable_of_value hx])⟩

/-- The tokens of a tree that means an expression leave nothing out. -/
theorem wholeTokens_of_treeOf {tokens : List Token} {t : Tree} (h : treeOf tokens = some t)
    (sound : t.IsSound symbols) :
    WholeTokens (callablesFor symbols)
      (tokens.filter fun t => t != .newline && t != .finish) := by
  obtain ⟨-, used, whole, taken⟩ := (derives_of_treeOf h).takes kinds sound
  rw [whole, List.append_nil]
  exact taken

end Stages

/-! ## Carets -/

/-- The token with a power sign for a caret. -/
def Token.caretAsPower (t : Token) : Token := if t = .op .caret then .op .power else t

theorem caretsAsPowers_eq (l : List Token) : caretsAsPowers l = l.map Token.caretAsPower := rfl

theorem caretAsPower_eq_iff {t s : Token} (h : s ≠ .op .power) (hc : s ≠ .op .caret) :
    t.caretAsPower = s ↔ t = s := by
  unfold Token.caretAsPower
  split_ifs with caret
  · subst caret
    exact iff_of_false h.symm hc.symm
  · rfl

theorem bracketed_of_caretsAsPowers {l : List Token} (h : Bracketed (caretsAsPowers l)) :
    Bracketed l := by
  generalize hm : caretsAsPowers l = m at h
  induction h generalizing l with
  | token opening closing =>
    obtain ⟨t, rfl, rfl⟩ := List.map_eq_singleton_iff.1 hm
    exact .token (fun same => opening (by subst same; rfl)) fun same => closing (by subst same; rfl)
  | append _ _ ihl ihm =>
    obtain ⟨front, back, rfl, hfront, hback⟩ := List.map_eq_append_iff.1 hm
    exact .append (ihl hfront) (ihm hback)
  | brackets _ ih =>
    obtain ⟨first, rest, rfl, hfirst, hrest⟩ := List.map_eq_cons_iff.1 hm
    obtain ⟨inner, back, rfl, hinner, hback⟩ := List.map_eq_append_iff.1 hrest
    obtain ⟨last, rfl, hlast⟩ := List.map_eq_singleton_iff.1 hback
    obtain rfl := (caretAsPower_eq_iff (by simp) (by simp)).1 hfirst
    obtain rfl := (caretAsPower_eq_iff (by simp) (by simp)).1 hlast
    exact .brackets (ih hinner)

theorem standsBefore_of_caretAsPower {calls : Callables} {a b : Token}
    (h : a.caretAsPower.StandsBefore calls b.caretAsPower) : a.StandsBefore calls b := by
  unfold Token.caretAsPower at h
  split_ifs at h with ha hb hb
  · subst ha hb
    exact ⟨rfl, (fun _ no => by cases no), by simp⟩
  · subst ha
    exact ⟨rfl, (fun _ no => by cases no), by simp⟩
  · subst hb
    refine ⟨?_, fun f hf known => ?_, ?_⟩
    · cases a with
      | name f => simp [leavesOutTimes]
      | op o => cases o <;> rfl
      | _ => rfl
    · cases h.call f hf known
    · rintro ⟨rfl, twice⟩
      simp at twice
  · exact h

/-- Nothing is put into the tokens of a text if, with its carets as signs of powers, they are read as
a tree that means an expression. -/
theorem completeTokens_of_treeOf {symbols : List String} {body : List Token} {t : Tree}
    (kinds : "Integer" ∉ symbols ∧ "Float" ∉ symbols)
    (marks : .newline ∉ body ∧ .finish ∉ body)
    (h : treeOf (caretsAsPowers (body ++ [.finish, .finish])) = some t)
    (sound : t.IsSound symbols) :
    completeTokens (callablesFor symbols) (body ++ [.finish, .finish]) =
      some (caretsAsPowers (body ++ [.finish, .finish])) := by
  have kept : ((caretsAsPowers (body ++ [.finish, .finish])).filter fun t =>
      t != .newline && t != .finish) = caretsAsPowers body := by
    have inside : ∀ t ∈ caretsAsPowers body, (t != .newline && t != .finish) = true := by
      intro t ht
      obtain ⟨s, hs, rfl⟩ := List.mem_map.1 ht
      split_ifs
      · rfl
      · have some : s ≠ .newline ∧ s ≠ .finish := by
          constructor <;> (rintro rfl; simp_all)
        simpa using some
    rw [caretsAsPowers_eq, List.map_append, ← caretsAsPowers_eq, List.filter_append,
      List.filter_eq_self.2 inside]
    exact List.append_nil _
  have whole := wholeTokens_of_treeOf kinds h sound
  rw [kept] at whole
  have bracketed := bracketed_of_caretsAsPowers whole.bracketed
  have complete : Token.Complete (callablesFor symbols) body :=
    ((List.isChain_map _).1 whole.complete).imp fun _ _ => standsBefore_of_caretAsPower
  refine completeTokens_eq (bracketed.append ?_).balanced ?_ (by simpa using marks.1)
  · exact .append (.token (by simp) (by simp)) (.token (by simp) (by simp))
  · refine List.isChain_append.2
      ⟨complete, List.isChain_pair.2 finish_standsBefore_finish, fun a ha b hb => ?_⟩
    obtain rfl : .finish = b := Option.some.inj hb
    obtain ⟨t, last, ends⟩ := whole.last
    rw [caretsAsPowers_eq, List.getLast?_map, Option.mem_def.1 ha] at last
    obtain rfl : a.caretAsPower = t := Option.some.inj last
    have plain : a.caretAsPower = a := by
      unfold Token.caretAsPower at ends ⊢
      split_ifs at ends ⊢ with caret
      · cases ends
      · rfl
    rw [plain] at ends
    exact ends_standsBefore ends (by simp) (by simp)

end Reckoner
