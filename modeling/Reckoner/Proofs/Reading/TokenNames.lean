-- The names among the tokens of a text. Putting in signs and brackets that were left out, moving
-- exponents and reading the tree neither lose a name nor make one up.
import Mathlib
import Reckoner.Reading.Read

namespace Reckoner

open scoped List

/-! ## Names in tokens -/

/-- The name that a token is. -/
def Token.name? : Token → Option String
  | .name s => some s
  | _ => none

/-- The names among tokens, in order. -/
def namesAmong (l : List Token) : List String := l.filterMap Token.name?

@[simp]
theorem namesAmong_nil : namesAmong [] = [] := rfl

@[simp]
theorem namesAmong_name (s : String) (l : List Token) :
    namesAmong (.name s :: l) = s :: namesAmong l := rfl

@[simp]
theorem namesAmong_op (o : Operator) (l : List Token) : namesAmong (.op o :: l) = namesAmong l :=
  rfl

@[simp]
theorem namesAmong_literal (s : String) (l : List Token) :
    namesAmong (.literal s :: l) = namesAmong l := rfl

@[simp]
theorem namesAmong_newline (l : List Token) : namesAmong (.newline :: l) = namesAmong l := rfl

@[simp]
theorem namesAmong_finish (l : List Token) : namesAmong (.finish :: l) = namesAmong l := rfl

@[simp]
theorem namesAmong_append (l m : List Token) :
    namesAmong (l ++ m) = namesAmong l ++ namesAmong m := List.filterMap_append

theorem namesAmong_cons (t : Token) (l : List Token) :
    namesAmong (t :: l) = namesAmong [t] ++ namesAmong l := namesAmong_append [t] l

/-! ## Brackets -/

mutual
/-- The names in a group, in order. -/
def Group.names : Group → List String
  | .token t => namesAmong [t]
  | .inner l => groupNames l
def groupNames : List Group → List String
  | [] => []
  | g :: rest => g.names ++ groupNames rest
end

@[simp]
theorem groupNames_append (l m : List Group) :
    groupNames (l ++ m) = groupNames l ++ groupNames m := by
  induction l with
  | nil => rfl
  | cons g rest ih => rw [List.cons_append, groupNames, groupNames, ih, List.append_assoc]

/-- The names before the open brackets, in order. -/
def openNames : List (List Group) → List String
  | [] => []
  | before :: rest => openNames rest ++ groupNames before.reverse

theorem pairBrackets_names {l : List Token} {stack : List (List Group)} {acc groups : List Group}
    (h : pairBrackets l stack acc = some groups) :
    groupNames groups = openNames stack ++ groupNames acc.reverse ++ namesAmong l := by
  induction l, stack, acc using pairBrackets.induct with
  | case1 acc =>
    obtain rfl := Option.some.inj h
    simp [openNames]
  | case2 => cases h
  | case3 rest stack acc ih =>
    rw [pairBrackets] at h
    simp [ih h, openNames, groupNames]
  | case4 rest before stack acc ih =>
    rw [pairBrackets] at h
    simp [ih h, openNames, groupNames, Group.names]
  | case5 => cases h
  | case6 t rest stack acc hopening hclosing hlast ih =>
    rw [pairBrackets] at h
    · rw [ih h, namesAmong_cons]
      simp [groupNames, Group.names]
    all_goals assumption

/-- The names in items, in order. -/
def itemNames (l : List Item) : List String := namesAmong (l.flatMap Item.tokens)

@[simp]
theorem itemNames_nil : itemNames [] = [] := rfl

@[simp]
theorem itemNames_cons (x : Item) (l : List Item) :
    itemNames (x :: l) = namesAmong x.tokens ++ itemNames l := by
  simp [itemNames]

@[simp]
theorem itemNames_append (l m : List Item) : itemNames (l ++ m) = itemNames l ++ itemNames m := by
  simp [itemNames]

@[simp]
theorem itemNames_tokens (l : List Token) : itemNames (l.map .token) = namesAmong l := by
  simp [itemNames, List.flatMap_map, Item.tokens]

section Levels

variable {calls : Callables} {change : List Item → List Item}

/-- A change of single levels that keeps their names keeps the names of all levels. -/
theorem mapLevels_names (keeps : ∀ l, itemNames (change l) = itemNames l) (groups : List Group) :
    itemNames (mapLevels calls change groups) = groupNames groups := by
  have inner : ∀ l, namesAmong ((change (mapLevels calls change l)).flatMap Item.tokens) =
      itemNames (mapLevels calls change l) := fun l => keeps _
  induction groups using mapLevels.induct calls change with
  | case1 => simp [mapLevels, groupNames]
  | case2 f l rest known ihl ihrest | case3 f l rest known ihl ihrest =>
    simp [mapLevels, groupNames, Group.names, known, Item.tokens, inner, ihl, ihrest]
  | case4 l rest ihl ihrest =>
    simp [mapLevels, groupNames, Group.names, Item.tokens, inner, ihl, ihrest]
  | case5 t rest plain ihrest =>
    rw [mapLevels]
    · simp [groupNames, Group.names, Item.tokens, ihrest]
    · exact plain

theorem mapTokens_names (keeps : ∀ l, itemNames (change l) = itemNames l) {l m : List Token}
    (h : mapTokens calls change l = some m) : namesAmong m = namesAmong l := by
  obtain ⟨groups, paired, rfl⟩ := Option.map_eq_some_iff.1 h
  change itemNames (change (mapLevels calls change groups)) = _
  rw [keeps, mapLevels_names keeps, pairBrackets_names paired]
  simp [openNames, groupNames]

end Levels

/-! ## What was left out -/

theorem insertTimes_names (calls : Callables) (l : List Item) :
    itemNames (insertTimes calls l) = itemNames l := by
  induction l using insertTimes.induct calls with
  | case1 a b rest left ih => simp [insertTimes, left, ih, Item.tokens]
  | case2 a b rest left ih => simp [insertTimes, left, ih]
  | case3 l short =>
    rw [insertTimes]
    exact short

/-- Each step keeps its item and puts brackets behind it at most. -/
theorem insertBrackets_step (calls : Callables) (a b : Item) (rest : List Item)
    (state : BracketState) :
    ∃ brackets state', insertBrackets calls (a :: b :: rest) state =
        a :: (brackets ++ insertBrackets calls (b :: rest) state') ∧ itemNames brackets = [] := by
  obtain ⟨next, hnext⟩ : ∃ next, next = insertBrackets calls (b :: rest) := ⟨_, rfl⟩
  rw [← hnext]
  unfold insertBrackets
  dsimp only
  rw [← hnext]
  repeat' split
  all_goals first
    | exact ⟨[], _, rfl, rfl⟩
    | exact ⟨[_], _, rfl, rfl⟩

theorem insertBrackets_names (calls : Callables) (l : List Item) (state : BracketState) :
    itemNames (insertBrackets calls l state) = itemNames l := by
  have closing : ∀ n, itemNames (List.replicate n (.token (.op .closing))) = [] := by
    intro n
    induction n with
    | zero => rfl
    | succ n ih => simp [List.replicate_succ, Item.tokens, ih]
  induction l generalizing state with
  | nil => simp [insertBrackets, closing]
  | cons a l ih =>
    cases l with
    | nil => simp [insertBrackets, closing]
    | cons b rest =>
      obtain ⟨brackets, state', step, none⟩ := insertBrackets_step calls a b rest state
      rw [step, itemNames_cons, itemNames_append, none, ih, itemNames_cons a]
      rfl

/-- Each step puts its token out or holds it back with the exponent, or it leaves out a sign. -/
theorem moveExponents_step (calls : Callables) (a b : Token) (rest : List Token)
    (state : ExponentState) :
    ∃ out state', moveExponents calls (a :: b :: rest) state =
        out ++ moveExponents calls (b :: rest) state' ∧
      (namesAmong out ++ namesAmong state'.exponent).Perm
        (namesAmong [a] ++ namesAmong state.exponent) := by
  have held : (namesAmong [] ++ namesAmong (state.exponent ++ [a])).Perm
      (namesAmong [a] ++ namesAmong state.exponent) := by
    rw [namesAmong_append, namesAmong_nil, List.nil_append]
    exact List.perm_append_comm
  obtain ⟨next, hnext⟩ : ∃ next, next = moveExponents calls (b :: rest) := ⟨_, rfl⟩
  rw [← hnext]
  unfold moveExponents
  dsimp only
  rw [← hnext]
  generalize (match a with
    | .name _ => b == Token.op Operator.power
    | _ => false) = namesPower
  generalize (match a with
    | .name f => b == Token.op Operator.power && calls.isCallable f
    | _ => false) = begins
  split_ifs with hpower hbegins hconsuming hswitch htimes hexponent hlevel
  · exact ⟨[a], _, rfl, .refl _⟩
  · exact ⟨[a], _, rfl, .refl _⟩
  · exact ⟨[], _, rfl, held⟩
  · obtain ⟨rfl, -⟩ : a = .op .times ∧ b = .op .opening := by simpa using htimes
    exact ⟨[], _, rfl, .refl _⟩
  · exact ⟨[], _, rfl, held⟩
  · refine ⟨a :: state.exponent, _, rfl, ?_⟩
    rw [namesAmong_cons, List.append_assoc]
    simp
  · exact ⟨[a], _, rfl, .refl _⟩
  · exact ⟨[a], _, rfl, .refl _⟩

/-- Exponents are moved, so the names keep but for their order. -/
theorem moveExponents_names (calls : Callables) (l : List Token) (state : ExponentState) :
    (namesAmong (moveExponents calls l state)).Perm
      (namesAmong l ++ namesAmong state.exponent) := by
  induction l generalizing state with
  | nil => simp [moveExponents]
  | cons a l ih =>
    cases l with
    | nil =>
      change (namesAmong (a :: state.exponent)).Perm _
      rw [namesAmong_cons]
    | cons b rest =>
      obtain ⟨out, state', step, kept⟩ := moveExponents_step calls a b rest state
      rw [step, namesAmong_append, namesAmong_cons a]
      calc namesAmong out ++ namesAmong (moveExponents calls (b :: rest) state')
        _ ~ namesAmong out ++ (namesAmong (b :: rest) ++ namesAmong state'.exponent) :=
          (ih state').append_left _
        _ ~ namesAmong out ++ (namesAmong state'.exponent ++ namesAmong (b :: rest)) :=
          List.perm_append_comm.append_left _
        _ ~ namesAmong [a] ++ namesAmong state.exponent ++ namesAmong (b :: rest) := by
          rw [← List.append_assoc]
          exact kept.append_right _
        _ ~ namesAmong [a] ++ namesAmong (b :: rest) ++ namesAmong state.exponent := by
          rw [List.append_assoc, List.append_assoc]
          exact List.perm_append_comm.append_left _

theorem joinSigns_names (l : List Token) : namesAmong (joinSigns l) = namesAmong l := by
  induction l using joinSigns.induct with
  | case1 rest ih | case2 rest ih => simpa [joinSigns] using ih
  | case3 t rest _ _ ih =>
    rw [joinSigns, namesAmong_cons, ih, ← namesAmong_cons]
    all_goals assumption
  | case4 => rfl

theorem caretsAsPowers_names (l : List Token) : namesAmong (caretsAsPowers l) = namesAmong l := by
  induction l with
  | nil => rfl
  | cons t rest ih =>
    change namesAmong ((if t = .op .caret then .op .power else t) :: caretsAsPowers rest) = _
    rw [namesAmong_cons, ih, namesAmong_cons t]
    split_ifs with h
    · subst h
      rfl
    · rfl

/-- Completing the tokens of a text keeps its names but for their order. -/
theorem completeTokens_names {calls : Callables} {l m : List Token}
    (h : completeTokens calls l = some m) : (namesAmong m).Perm (namesAmong l) := by
  unfold completeTokens at h
  split_ifs at h
  · cases h
  · obtain ⟨timed, htimed, h⟩ := Option.bind_eq_some_iff.1 h
    obtain ⟨bracketed, hbracketed, h⟩ := Option.bind_eq_some_iff.1 h
    obtain rfl := Option.some.inj h
    rw [joinSigns_names, caretsAsPowers_names]
    have moved := moveExponents_names calls bracketed ⟨[], false, 0⟩
    rwa [namesAmong_nil, List.append_nil,
      mapTokens_names (fun l => insertBrackets_names calls l _) hbracketed,
      mapTokens_names (insertTimes_names calls) htimed] at moved

/-! ## The grammar -/

/-- The sign that an operator is written with. -/
def BinaryOperator.sign : BinaryOperator → Operator
  | .plus => .plus
  | .minus => .minus
  | .times => .times
  | .over => .over
  | .wholeOver => .wholeOver
  | .power => .power

/-- What a stage can make of tokens: a tree, and the tokens that it leaves. A sum or a product can
end before any sign here, while reading goes on with it for as long as there is one. -/
inductive Stage.Derives : Stage → List Token → Tree → List Token → Prop where
  | sum {a t : Tree} {l m r : List Token} (first : Derives .product l a m)
      (more : Derives (.sumRest a) m t r) : Derives .sum l t r
  | sumNext {o : BinaryOperator} {a b t : Tree} {l m r : List Token} (ho : o ∈ [.plus, .minus])
      (next : Derives .product l b m) (more : Derives (.sumRest (.binary o a b)) m t r) :
      Derives (.sumRest a) (.op o.sign :: l) t r
  | sumEnd {a : Tree} {l : List Token} : Derives (.sumRest a) l a l
  | product {a t : Tree} {l m r : List Token} (first : Derives .signed l a m)
      (more : Derives (.productRest a) m t r) : Derives .product l t r
  | productNext {o : BinaryOperator} {a b t : Tree} {l m r : List Token}
      (ho : o ∈ [.times, .over, .wholeOver]) (next : Derives .signed l b m)
      (more : Derives (.productRest (.binary o a b)) m t r) :
      Derives (.productRest a) (.op o.sign :: l) t r
  | productEnd {a : Tree} {l : List Token} : Derives (.productRest a) l a l
  | positive {a : Tree} {l r : List Token} (h : Derives .signed l a r) :
      Derives .signed (.op .plus :: l) (.positive a) r
  | negative {a : Tree} {l r : List Token} (h : Derives .signed l a r) :
      Derives .signed (.op .minus :: l) (.negative a) r
  | unsigned {a : Tree} {l r : List Token} (h : Derives .power l a r) : Derives .signed l a r
  | raised {a b : Tree} {l m r : List Token} (base : Derives .atom l a (.op .power :: m))
      (exponent : Derives .signed m b r) : Derives .power l (.binary .power a b) r
  | alone {a : Tree} {l r : List Token} (h : Derives .atom l a r) : Derives .power l a r
  | literal {s : String} {l : List Token} : Derives .atom (.literal s :: l) (.whole s) l
  | nothing {l : List Token} : Derives .atom (.op .opening :: .op .closing :: l) .nothing l
  | brackets {a : Tree} {l r : List Token} (h : Derives .sum l a (.op .closing :: r)) :
      Derives .atom (.op .opening :: l) a r
  | call {f : String} {a t : Tree} {l r : List Token} (h : Derives .sum l a (.op .closing :: r))
      (calls : numberCall f a = some t) : Derives .atom (.name f :: .op .opening :: l) t r
  | name {s : String} {l : List Token} : Derives .atom (.name s :: l) (.name s) l

/-- What is read follows the grammar. -/
theorem derives_of_readStage {fuel : Nat} {stage : Stage} {tokens rest : List Token} {t : Tree}
    (h : readStage fuel stage tokens = some (t, rest)) : stage.Derives tokens t rest := by
  induction fuel generalizing stage tokens rest t with
  | zero => cases h
  | succ fuel ih =>
    cases stage with
    | sum =>
      obtain ⟨⟨a, more⟩, first, h⟩ := Option.bind_eq_some_iff.1 h
      exact .sum (ih first) (ih h)
    | product =>
      obtain ⟨⟨a, more⟩, first, h⟩ := Option.bind_eq_some_iff.1 h
      exact .product (ih first) (ih h)
    | sumRest a =>
      unfold readStage at h
      dsimp only at h
      split at h
      · obtain ⟨⟨b, more⟩, next, h⟩ := Option.bind_eq_some_iff.1 h
        exact .sumNext (o := .plus) (by decide) (ih next) (ih h)
      · obtain ⟨⟨b, more⟩, next, h⟩ := Option.bind_eq_some_iff.1 h
        exact .sumNext (o := .minus) (by decide) (ih next) (ih h)
      · obtain ⟨rfl, rfl⟩ := Prod.mk.inj (Option.some.inj h)
        exact .sumEnd
    | productRest a =>
      unfold readStage at h
      dsimp only at h
      split at h
      · obtain ⟨⟨b, more⟩, next, h⟩ := Option.bind_eq_some_iff.1 h
        exact .productNext (o := .times) (by decide) (ih next) (ih h)
      · obtain ⟨⟨b, more⟩, next, h⟩ := Option.bind_eq_some_iff.1 h
        exact .productNext (o := .over) (by decide) (ih next) (ih h)
      · obtain ⟨⟨b, more⟩, next, h⟩ := Option.bind_eq_some_iff.1 h
        exact .productNext (o := .wholeOver) (by decide) (ih next) (ih h)
      · obtain ⟨rfl, rfl⟩ := Prod.mk.inj (Option.some.inj h)
        exact .productEnd
    | signed =>
      unfold readStage at h
      dsimp only at h
      split at h
      · obtain ⟨⟨a, more⟩, next, h⟩ := Option.map_eq_some_iff.1 h
        obtain ⟨rfl, rfl⟩ := Prod.mk.inj h
        exact .positive (ih next)
      · obtain ⟨⟨a, more⟩, next, h⟩ := Option.map_eq_some_iff.1 h
        obtain ⟨rfl, rfl⟩ := Prod.mk.inj h
        exact .negative (ih next)
      · exact .unsigned (ih h)
    | power =>
      obtain ⟨⟨a, more⟩, base, h⟩ := Option.bind_eq_some_iff.1 h
      dsimp only at h
      split at h
      · obtain ⟨⟨b, more⟩, next, h⟩ := Option.bind_eq_some_iff.1 h
        obtain ⟨rfl, rfl⟩ := Prod.mk.inj (Option.some.inj h)
        exact .raised (ih base) (ih next)
      · obtain ⟨rfl, rfl⟩ := Prod.mk.inj (Option.some.inj h)
        exact .alone (ih base)
    | atom =>
      unfold readStage at h
      dsimp only at h
      split at h
      · obtain ⟨rfl, rfl⟩ := Prod.mk.inj (Option.some.inj h)
        exact .literal
      · obtain ⟨rfl, rfl⟩ := Prod.mk.inj (Option.some.inj h)
        exact .nothing
      · obtain ⟨⟨a, more⟩, inner, h⟩ := Option.bind_eq_some_iff.1 h
        dsimp only at h
        split at h
        · obtain ⟨rfl, rfl⟩ := Prod.mk.inj (Option.some.inj h)
          exact .brackets (ih inner)
        · cases h
      · obtain ⟨⟨a, more⟩, inner, h⟩ := Option.bind_eq_some_iff.1 h
        dsimp only at h
        split at h
        · obtain ⟨call, calls, h⟩ := Option.bind_eq_some_iff.1 h
          obtain ⟨rfl, rfl⟩ := Prod.mk.inj (Option.some.inj h)
          exact .call (ih inner) calls
        · cases h
      · obtain ⟨rfl, rfl⟩ := Prod.mk.inj (Option.some.inj h)
        exact .name
      · cases h

/-- The grammar makes the tree of all the tokens but the ends of lines. -/
theorem derives_of_treeOf {tokens : List Token} {t : Tree} (h : treeOf tokens = some t) :
    Stage.sum.Derives (tokens.filter fun t => t != .newline && t != .finish) t [] := by
  unfold treeOf at h
  dsimp only at h
  split_ifs at h
  split at h
  · rename_i read
    obtain rfl := Option.some.inj h
    exact derives_of_readStage read
  · cases h

/-! ## Trees -/

/-- The names in a tree, those of called functions among them, from left to right. -/
def Tree.mentions : Tree → List String
  | .name s => [s]
  | .whole _ | .decimal _ | .nothing => []
  | .call f a => f :: a.mentions
  | .positive a | .negative a => a.mentions
  | .binary _ a b => a.mentions ++ b.mentions

/-- The names without the ones that stand before the literals of numbers. -/
def withoutKinds (l : List String) : List String :=
  l.filter fun s => s ≠ "Integer" && s ≠ "Float"

@[simp]
theorem withoutKinds_append (l m : List String) :
    withoutKinds (l ++ m) = withoutKinds l ++ withoutKinds m := List.filter_append l m

@[simp]
theorem withoutKinds_nil : withoutKinds [] = [] := rfl

theorem withoutKinds_cons (s : String) (l : List String) :
    withoutKinds (s :: l) = withoutKinds [s] ++ withoutKinds l := withoutKinds_append [s] l

/-- The names in what a stage has before it. -/
def Stage.mentions : Stage → List String
  | .sumRest a | .productRest a => a.mentions
  | .sum | .product | .signed | .power | .atom => []

theorem numberCall_mentions {f : String} {a t : Tree} (h : numberCall f a = some t) :
    withoutKinds t.mentions = withoutKinds [f] ++ withoutKinds a.mentions := by
  rw [← withoutKinds_cons]
  unfold numberCall at h
  split at h
  · obtain rfl := Option.some.inj h
    rfl
  · obtain rfl := Option.some.inj h
    rfl
  · cases h
  · cases h
  · obtain rfl := Option.some.inj h
    rfl

/-- Each stage takes the names of its tokens into the tree, up to the tokens that it leaves. -/
theorem Stage.Derives.mentions {stage : Stage} {tokens rest : List Token} {t : Tree}
    (h : stage.Derives tokens t rest) :
    withoutKinds t.mentions ++ withoutKinds (namesAmong rest) =
      withoutKinds stage.mentions ++ withoutKinds (namesAmong tokens) := by
  induction h with
  | sum _ _ first more | product _ _ first more => exact more.trans first
  | sumNext _ _ _ next more | productNext _ _ _ next more =>
    rw [more, Stage.mentions, Tree.mentions, withoutKinds_append, List.append_assoc, next]
    rfl
  | sumEnd | productEnd | literal | nothing => rfl
  | positive _ ih | negative _ ih | unsigned _ ih | alone _ ih | brackets _ ih => exact ih
  | raised _ _ base exponent =>
    rw [Tree.mentions, withoutKinds_append, List.append_assoc, exponent]
    exact base
  | @call f a t l r _ called ih =>
    have inner : withoutKinds a.mentions ++ withoutKinds (namesAmong r) =
        withoutKinds (namesAmong l) := ih
    rw [numberCall_mentions called, List.append_assoc, inner, namesAmong_name,
      withoutKinds_cons _ (namesAmong _)]
    rfl
  | @name s l =>
    rw [namesAmong_name, withoutKinds_cons _ (namesAmong _)]
    rfl

theorem namesAmong_line (l : List Token) :
    namesAmong (l.filter fun t => t != .newline && t != .finish) = namesAmong l := by
  unfold namesAmong
  rw [List.filterMap_filter]
  congr 1
  funext t
  cases t <;> rfl

theorem treeOf_mentions {tokens : List Token} {t : Tree} (h : treeOf tokens = some t) :
    withoutKinds t.mentions = withoutKinds (namesAmong tokens) := by
  have mentions := (derives_of_treeOf h).mentions
  rwa [namesAmong_nil, withoutKinds_nil, List.append_nil, namesAmong_line] at mentions

/-- A tree has the names of the tokens that it was read from. -/
theorem parseTree_mentions {symbols : List String} {text : String} {t : Tree}
    (h : parseTree symbols text = some t) :
    ∃ tokens letters, tokensOf text = some tokens ∧
      splitNames symbols tokens [] ⟨false, false⟩ = some letters ∧
      (withoutKinds t.mentions).Perm (withoutKinds (namesAmong letters)) := by
  obtain ⟨tokens, htokens, h⟩ := Option.bind_eq_some_iff.1 h
  obtain ⟨letters, hletters, h⟩ := Option.bind_eq_some_iff.1 h
  obtain ⟨complete, hcomplete, h⟩ := Option.bind_eq_some_iff.1 h
  refine ⟨tokens, letters, htokens, hletters, ?_⟩
  rw [treeOf_mentions h]
  exact (completeTokens_names hcomplete).filter _

end Reckoner
