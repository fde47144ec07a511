-- What the texts are made of that are read. Every power in one of them is small where its value
-- is known, and no text is refused for the size of a power unless there is a large one in it.
import Mathlib
import Reckoner.Proofs.Reading.Guard

namespace Reckoner

/-! ## Parts -/

namespace Expr

/-- The expression stands in another one, at any depth. -/
inductive IsIn (x : Expr) : Expr → Prop where
  | self : IsIn x x
  | term {y : Expr} {l : List Expr} (hy : y ∈ l) (h : IsIn x y) : IsIn x (.sum l)
  | factor {y : Expr} {l : List Expr} (hy : y ∈ l) (h : IsIn x y) : IsIn x (.prod l)
  | base {b e : Expr} (h : IsIn x b) : IsIn x (.pow b e)
  | exponent {b e : Expr} (h : IsIn x e) : IsIn x (.pow b e)
  | argument {f : Fn} {a : Expr} (h : IsIn x a) : IsIn x (.app f a)

theorem mem_postorderList {x y : Expr} {l : List Expr} (hy : y ∈ l) (h : x ∈ y.postorder) :
    x ∈ postorderList l := by
  induction l with
  | nil => cases hy
  | cons z l ih =>
    rw [postorderList, List.mem_append]
    rcases List.mem_cons.1 hy with rfl | hy
    · exact Or.inl h
    · exact Or.inr (ih hy)

/-- The walk over an expression reaches all of its parts. -/
theorem IsIn.mem_postorder {x y : Expr} (h : IsIn x y) : x ∈ y.postorder := by
  induction h with
  | self => cases x <;> simp [postorder]
  | term hy _ ih => exact List.mem_append_left _ (mem_postorderList hy ih)
  | factor hy _ ih => exact List.mem_append_left _ (mem_postorderList hy ih)
  | base _ ih => exact List.mem_append_left _ (List.mem_append_left _ ih)
  | exponent _ ih => exact List.mem_append_left _ (List.mem_append_right _ ih)
  | argument _ ih => exact List.mem_append_left _ ih

mutual
/-- The walk over an expression reaches nothing else. -/
theorem isIn_of_mem_postorder {x : Expr} : ∀ {y : Expr}, x ∈ y.postorder → IsIn x y
  | .sum l, h => by
    rcases List.mem_append.1 h with h | h
    · obtain ⟨z, hz, h⟩ := isIn_of_mem_postorderList h
      exact .term hz h
    · exact List.mem_singleton.1 h ▸ .self
  | .prod l, h => by
    rcases List.mem_append.1 h with h | h
    · obtain ⟨z, hz, h⟩ := isIn_of_mem_postorderList h
      exact .factor hz h
    · exact List.mem_singleton.1 h ▸ .self
  | .pow b e, h => by
    rcases List.mem_append.1 h with h | h
    · rcases List.mem_append.1 h with h | h
      · exact .base (isIn_of_mem_postorder h)
      · exact .exponent (isIn_of_mem_postorder h)
    · exact List.mem_singleton.1 h ▸ .self
  | .app f a, h => by
    rcases List.mem_append.1 h with h | h
    · exact .argument (isIn_of_mem_postorder h)
    · exact List.mem_singleton.1 h ▸ .self
  | .num _, h | .const _, h | .sym _, h => List.mem_singleton.1 h ▸ .self
theorem isIn_of_mem_postorderList {x : Expr} :
    ∀ {l : List Expr}, x ∈ postorderList l → ∃ z ∈ l, IsIn x z
  | y :: l, h => by
    rcases List.mem_append.1 h with h | h
    · exact ⟨y, List.mem_cons_self, isIn_of_mem_postorder h⟩
    · obtain ⟨z, hz, h⟩ := isIn_of_mem_postorderList h
      exact ⟨z, List.mem_cons_of_mem y hz, h⟩
end

/-! ## Values -/

/-- The number that an expression without symbols evaluates to: plain arithmetic to its value,
and anything else to what it measures. -/
def EvaluatesTo (x : Expr) (v : ℚ) : Prop :=
  x.size ≤ 2000 ∧ x.plainValue? = some v ∨ x.isClosed = true ∧ x.MeasuredAs v

theorem EvaluatesTo.isClosed {x : Expr} {v : ℚ} (h : x.EvaluatesTo v) : x.isClosed = true := by
  rcases h with ⟨-, h⟩ | ⟨h, -⟩
  · exact isClosed_of_plain h
  · exact h

theorem EvaluatesTo.measured {x : Expr} {v : ℚ} (h : x.EvaluatesTo v) : x.MeasuredAs v := by
  rcases h with ⟨hx, h⟩ | ⟨-, h⟩
  · exact measuredAs_of_plain hx h
  · exact h

end Expr

/-- A power of a whole number is whole or the inverse of a whole number, so its numerator and
denominator are no larger than its size. -/
theorem parts_le {q L : ℚ} {k : Int} (whole : q.den = 1) (one_le : 1 ≤ L)
    (h : |q| ^ k.natAbs ≤ L) : ((q ^ k).num.natAbs : ℚ) ≤ L ∧ ((q ^ k).den : ℚ) ≤ L := by
  obtain ⟨n, rfl⟩ : ∃ n : Int, q = n := ⟨q.num, ((Rat.den_eq_one_iff q).1 whole).symm⟩
  set p := n ^ k.natAbs with hp
  have size : (p.natAbs : ℚ) ≤ L := by
    rw [hp, Int.natAbs_pow, Nat.cast_pow, Nat.cast_natAbs, Int.cast_abs]
    exact h
  rcases Int.natAbs_eq k with hk | hk
  · have value : (n : ℚ) ^ k = (p : Int) := by
      rw [hk, zpow_natCast, hp, Int.cast_pow]
    rw [value, Rat.num_intCast, Rat.den_intCast, Nat.cast_one]
    exact ⟨size, one_le⟩
  · have value : (n : ℚ) ^ k = (p : ℚ)⁻¹ := by
      rw [hk, zpow_neg, zpow_natCast, hp, Int.cast_pow]
    rw [value, Rat.inv_intCast_num, Rat.inv_intCast_den]
    constructor
    · have sign : p.sign.natAbs ≤ 1 := by
        rw [Int.natAbs_sign]
        split_ifs <;> omega
      exact le_trans (by exact_mod_cast sign) one_le
    · split_ifs
      · rwa [Nat.cast_one]
      · exact size

/-! ## Reading -/

/-- The expression that a text was written as. -/
def writtenExpression? (text : String) (bound : List String) : Option Expr := do
  let names ← (symbolNames text bound).toOption
  let tree ← parseTree (names ++ bound) text
  let w ← tree.written (names ++ bound)
  w.expr?

/-- The fault is about the size of a power. -/
def ReadFault.IsSize (f : ReadFault) : Prop := f = .exponentTooLarge ∨ f = .powerTooLarge

section Outcomes

variable {α β : Type}

/-- The computation does not look at the size of powers. -/
def IgnoresSize (m : Except ReadFault α) : Prop := ∀ f, m = .error f → ¬ f.IsSize

/-- The computation got as far as the size of powers: it has an outcome or a power is too large. -/
def ReachesSize : Except ReadFault α → Prop
  | .ok _ => True
  | .error f => f.IsSize

theorem ignoresSize_ok (a : α) : IgnoresSize (.ok a) := fun _ => by simp

theorem ignoresSize_error {f : ReadFault} (h : ¬ f.IsSize) :
    IgnoresSize (.error f : Except ReadFault α) := by
  intro f' hf
  obtain rfl := Except.error.inj hf
  exact h

theorem IgnoresSize.bind {m : Except ReadFault α} {next : α → Except ReadFault β}
    (hm : IgnoresSize m) (h : ∀ a, IgnoresSize (next a)) : IgnoresSize (m >>= next) := by
  cases m with
  | ok a => exact h a
  | error f => exact ignoresSize_error (hm f rfl)

theorem IgnoresSize.map {m : Except ReadFault α} (f : α → β) (hm : IgnoresSize m) :
    IgnoresSize (m.map f) := by
  cases m with
  | ok a => exact ignoresSize_ok (f a)
  | error e => exact ignoresSize_error (hm e rfl)

/-- What comes before the size of powers has an outcome. -/
theorem ReachesSize.of_bind {m : Except ReadFault α} {next : α → Except ReadFault β}
    (h : ReachesSize (m >>= next)) (hm : IgnoresSize m) :
    ∃ a, m = .ok a ∧ ReachesSize (next a) := by
  cases m with
  | ok a => exact ⟨a, rfl, h⟩
  | error f => exact absurd h (hm f rfl)

end Outcomes

theorem scanFrom_ignoresSize (bound : List String) (fuel position : Nat) (chars : List Char) :
    IgnoresSize (scanFrom bound fuel position chars) := by
  induction fuel generalizing position chars with
  | zero => cases chars <;> exact ignoresSize_ok _
  | succ fuel ih =>
    cases chars with
    | nil => exact ignoresSize_ok _
    | cons c rest =>
      unfold scanFrom
      split
      · exact ignoresSize_error (by simp [ReadFault.IsSize])
      · refine .bind ?_ fun names => .bind (ih _ _) fun others => ignoresSize_ok _
        unfold symbolOf
        dsimp only
        split_ifs
        · exact ignoresSize_ok _
        · exact ignoresSize_ok _
        · exact ignoresSize_error (by simp [ReadFault.IsSize])

theorem symbolNames_ignoresSize (text : String) (bound : List String) :
    IgnoresSize (symbolNames text bound) := by
  unfold symbolNames
  dsimp only
  split_ifs
  · exact ignoresSize_error (by simp [ReadFault.IsSize])
  · exact (scanFrom_ignoresSize _ _ _ _).map _

theorem checkSize_ignoresSize (symbols : List String) (t : Tree) :
    IgnoresSize (checkSize symbols t) := by
  unfold checkSize
  split_ifs
  · exact ignoresSize_ok _
  · split
    · exact ignoresSize_ok _
    · exact ignoresSize_error (by simp [ReadFault.IsSize])

theorem checkTruths_ignoresSize (symbols : List String) (t : Tree) :
    IgnoresSize (checkTruths symbols t) := by
  induction t with
  | name _ | whole _ | decimal _ | nothing => exact ignoresSize_ok _
  | call f a ih =>
    refine ih.bind fun _ => ?_
    split_ifs
    · exact checkSize_ignoresSize _ _
    · exact ignoresSize_ok _
  | positive a ih | negative a ih => exact ih
  | binary o a b iha ihb =>
    refine iha.bind fun _ => ihb.bind fun _ => ?_
    have size := checkSize_ignoresSize symbols
    dsimp only
    split_ifs
    · exact (size b).bind fun _ => (size a).bind fun _ => size b
    · exact (size b).bind fun _ => (size a).bind fun _ => ignoresSize_ok _
    · exact (size b).bind fun _ => size b
    · exact (size b).bind fun _ => ignoresSize_ok _
    · exact size b
    · exact ignoresSize_ok _

/-- The expression that a tree was written as, or what is wrong with it. -/
def Tree.writtenOutcome (symbols : List String) (text : String) (tree : Tree) :
    Except ReadFault Expr :=
  match tree.written symbols with
  | none => .error (.malformed text)
  | some w =>
    if w.isAlgebraic then
      match w.expr? with
      | none => .error (.malformed text)
      | some x => .ok x
    else .error (.notAlgebraic text)

/-- The expression that a tree means, or what is wrong with it. -/
def Tree.meaningOutcome (symbols : List String) (text : String) (tree : Tree) :
    Except ReadFault Expr :=
  match tree.meaning symbols with
  | none => .error (.malformed text)
  | some (.value x) => .ok x
  | some _ => .error (.notAlgebraic text)

theorem workOut_eq (symbols : List String) (text : String) (tree : Tree) :
    workOut symbols text tree =
      (tree.writtenOutcome symbols text >>= fun x => checkTruths symbols tree >>= fun _ =>
        checkPowers x >>= fun _ => tree.meaningOutcome symbols text) := by
  unfold workOut Tree.writtenOutcome Tree.meaningOutcome
  cases tree.written symbols with
  | none => rfl
  | some w =>
    cases halgebraic : w.isAlgebraic with
    | false =>
      simp only [halgebraic]
      rfl
    | true =>
      cases hx : w.expr? with
      | none =>
        simp only [halgebraic, hx]
        rfl
      | some x =>
        simp only [halgebraic, hx]
        rfl

theorem writtenOutcome_ignoresSize (symbols : List String) (text : String) (tree : Tree) :
    IgnoresSize (tree.writtenOutcome symbols text) := by
  unfold Tree.writtenOutcome
  split
  · exact ignoresSize_error (by simp [ReadFault.IsSize])
  · split_ifs
    · split
      · exact ignoresSize_error (by simp [ReadFault.IsSize])
      · exact ignoresSize_ok _
    · exact ignoresSize_error (by simp [ReadFault.IsSize])

theorem writtenOutcome_ok {symbols : List String} {text : String} {tree : Tree} {x : Expr}
    (h : tree.writtenOutcome symbols text = .ok x) :
    (tree.written symbols).bind Written.expr? = some x := by
  unfold Tree.writtenOutcome at h
  split at h
  · cases h
  · rename_i w hw
    split_ifs at h
    split at h
    · cases h
    · rename_i y hy
      obtain rfl := Except.ok.inj h
      rw [hw]
      exact hy

theorem meaningOutcome_ignoresSize (symbols : List String) (text : String) (tree : Tree) :
    IgnoresSize (tree.meaningOutcome symbols text) := by
  unfold Tree.meaningOutcome
  split
  · exact ignoresSize_error (by simp [ReadFault.IsSize])
  · exact ignoresSize_ok _
  · exact ignoresSize_error (by simp [ReadFault.IsSize])

/-- Where the working out of a tree reaches the size of powers, their check decides. -/
theorem workOut_powers {symbols : List String} {text : String} {tree : Tree}
    (h : ReachesSize (workOut symbols text tree)) :
    ∃ x, (tree.written symbols).bind Written.expr? = some x ∧
      checkPowers x = (workOut symbols text tree).map fun _ => () := by
  rw [workOut_eq] at h ⊢
  obtain ⟨x, written, h⟩ := h.of_bind (writtenOutcome_ignoresSize symbols text tree)
  obtain ⟨_, truths, h⟩ := h.of_bind (checkTruths_ignoresSize symbols tree)
  refine ⟨x, writtenOutcome_ok written, ?_⟩
  rw [written, ok_bind, truths, ok_bind]
  cases hpowers : checkPowers x with
  | error f => rfl
  | ok _ =>
    rw [hpowers, ok_bind] at h
    rw [ok_bind]
    cases hlast : tree.meaningOutcome symbols text with
    | ok y => rfl
    | error f =>
      rw [hlast] at h
      exact absurd h (meaningOutcome_ignoresSize symbols text tree f hlast)

/-- The names of the symbols in a text that is not blank, or what is wrong with them. -/
def namesOutcome (text : String) (bound : List String) : Except ReadFault (List String) :=
  match bound.find? fun name => !isName name.toList with
  | some name => .error (.badVariable name)
  | none => if (stripBlank text.toList).isEmpty then .error .empty else symbolNames text bound

/-- The tree of a text, or that it has none. -/
def treeOutcome (symbols : List String) (text : String) : Except ReadFault Tree :=
  match parseTree symbols text with
  | none => .error (.malformed text)
  | some tree => .ok tree

theorem readExpression_eq (text : String) (bound : List String) :
    readExpression text bound =
      (namesOutcome text bound >>= fun names => treeOutcome (names ++ bound) text >>= fun tree =>
        workOut (names ++ bound) text tree) := by
  unfold readExpression namesOutcome
  cases bound.find? fun name => !isName name.toList with
  | some name => rfl
  | none =>
    dsimp only
    split_ifs
    · rfl
    · congr 1
      funext names
      unfold treeOutcome
      cases parseTree (names ++ bound) text <;> rfl

/-- A text whose symbols and tree are known has only its values to work out. -/
theorem readExpression_of_tree {text : String} {bound names : List String} {tree : Tree}
    (hnames : namesOutcome text bound = .ok names)
    (parsed : parseTree (names ++ bound) text = some tree) :
    readExpression text bound = workOut (names ++ bound) text tree := by
  rw [readExpression_eq, hnames, ok_bind, treeOutcome, parsed, ok_bind]

theorem namesOutcome_ignoresSize (text : String) (bound : List String) :
    IgnoresSize (namesOutcome text bound) := by
  unfold namesOutcome
  split
  · exact ignoresSize_error (by simp [ReadFault.IsSize])
  · split_ifs
    · exact ignoresSize_error (by simp [ReadFault.IsSize])
    · exact symbolNames_ignoresSize text bound

theorem namesOutcome_ok {text : String} {bound names : List String}
    (h : namesOutcome text bound = .ok names) : symbolNames text bound = .ok names := by
  unfold namesOutcome at h
  split at h
  · cases h
  · split_ifs at h
    exact h

theorem treeOutcome_ignoresSize (symbols : List String) (text : String) :
    IgnoresSize (treeOutcome symbols text) := by
  unfold treeOutcome
  split
  · exact ignoresSize_error (by simp [ReadFault.IsSize])
  · exact ignoresSize_ok _

theorem treeOutcome_ok {symbols : List String} {text : String} {tree : Tree}
    (h : treeOutcome symbols text = .ok tree) : parseTree symbols text = some tree := by
  unfold treeOutcome at h
  split at h
  · cases h
  · rename_i tree' htree
    obtain rfl := Except.ok.inj h
    exact htree

/-- Where the reading of a text reaches the size of powers, their check decides. -/
theorem readExpression_powers {text : String} {bound : List String}
    {outcome : Except ReadFault Expr} (hout : readExpression text bound = outcome)
    (h : ReachesSize outcome) :
    ∃ x, writtenExpression? text bound = some x ∧ checkPowers x = outcome.map fun _ => () := by
  subst hout
  rw [readExpression_eq] at h ⊢
  obtain ⟨names, hnames, h⟩ := h.of_bind (namesOutcome_ignoresSize text bound)
  obtain ⟨tree, htree, h⟩ := h.of_bind (treeOutcome_ignoresSize (names ++ bound) text)
  rw [hnames, ok_bind, htree, ok_bind]
  obtain ⟨x, written, checked⟩ := workOut_powers h
  refine ⟨x, ?_, checked⟩
  unfold writtenExpression?
  rw [namesOutcome_ok hnames]
  change (parseTree (names ++ bound) text).bind _ = some x
  rw [treeOutcome_ok htree]
  exact written

/-! ## The powers of a text -/

/-- The expression of a text with a power of a tiny number, as it was written. -/
def tinyPower : Expr :=
  .pow (.prod [.one, .pow (.pow (.ofInt 10) (.ofInt 11)) .negOne]) (.ofInt 100)

/-- The tree of that text. -/
def tinyTree : Tree :=
  .binary .power (.binary .over (.whole "1") (.binary .power (.whole "10") (.whole "11")))
    (.whole "100")

theorem read_tinyPower : (∃ y, readExpression "(1/10^11)^100" [] = .ok y) ∧
    writtenExpression? "(1/10^11)^100" [] = some tinyPower := by
  have names : namesOutcome "(1/10^11)^100" [] = .ok [] := rfl
  have parsed : parseTree [] "(1/10^11)^100" = some tinyTree := by cbv
  have read : (workOut [] "(1/10^11)^100" tinyTree).isOk = true := by decide +kernel
  constructor
  · rw [readExpression_eq, names, ok_bind]
    change ∃ y, (treeOutcome [] "(1/10^11)^100" >>= fun tree => workOut [] _ tree) = .ok y
    rw [treeOutcome, parsed, ok_bind]
    cases h : workOut [] "(1/10^11)^100" tinyTree with
    | ok y => exact ⟨y, rfl⟩
    | error f =>
      rw [h] at read
      cases read
  · unfold writtenExpression?
    rw [namesOutcome_ok names]
    change (parseTree [] "(1/10^11)^100").bind _ = _
    rw [parsed]
    rfl

end Reckoner
