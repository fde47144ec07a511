-- Lists that are put in order by a key, and lists of entries that values are added to.
import Mathlib
import Reckoner.Sorting

namespace Reckoner

/-! ## Sorting -/

/-- By the key; elements of one key are in the relation. -/
def KeyOrder {α κ : Type} [LT κ] (key : α → κ) (R : α → α → Prop) (a b : α) : Prop :=
  key a < key b ∨ key a = key b ∧ R a b

theorem KeyOrder.le {α κ : Type} [LinearOrder κ] {key : α → κ} {R : α → α → Prop} {a b : α}
    (h : KeyOrder key R a b) : key a ≤ key b := h.elim le_of_lt fun same => same.1.le

theorem insertBy_stable {α κ : Type} [LinearOrder κ] {before : α → α → Bool} {key : α → κ}
    {R : α → α → Prop} (x : α) {l : List α} (h : ∀ a ∈ l, before x a = decide (key x ≤ key a))
    (first : ∀ a ∈ l, R x a) (sorted : l.Pairwise (KeyOrder key R)) :
    (insertBy before x l).Pairwise (KeyOrder key R) := by
  induction l with
  | nil => exact List.pairwise_singleton _ x
  | cons y r ih =>
    obtain ⟨hy, hr⟩ := List.forall_mem_cons.1 h
    obtain ⟨least, rest⟩ := List.pairwise_cons.1 sorted
    unfold insertBy
    rw [hy]
    split_ifs with le
    · simp only [decide_eq_true_eq] at le
      refine List.pairwise_cons.2 ⟨fun a ha => ?_, sorted⟩
      have above : key x ≤ key a := by
        rcases List.mem_cons.1 ha with rfl | ha
        · exact le
        · exact le.trans (least a ha).le
      exact above.lt_or_eq.imp_right fun same => ⟨same, first a ha⟩
    · simp only [decide_eq_true_eq, not_le] at le
      refine List.pairwise_cons.2 ⟨fun a ha => ?_, ih hr (List.forall_mem_cons.1 first).2 rest⟩
      rcases List.mem_cons.1 ((insertBy_perm before x r).mem_iff.1 ha) with rfl | ha
      · exact .inl le
      · exact least a ha

/-- Sorting is stable: elements of one key keep the relation that they had. -/
theorem sortBy_stable {α κ : Type} [LinearOrder κ] {before : α → α → Bool} {key : α → κ}
    {R : α → α → Prop} {l : List α} (h : ∀ a ∈ l, ∀ b ∈ l, before a b = decide (key a ≤ key b))
    (related : l.Pairwise R) : (sortBy before l).Pairwise (KeyOrder key R) := by
  induction l with
  | nil => exact List.Pairwise.nil
  | cons x r ih =>
    obtain ⟨first, later⟩ := List.pairwise_cons.1 related
    have inside : ∀ a, a ∈ sortBy before r ↔ a ∈ r := fun a => (sortBy_perm before r).mem_iff
    refine insertBy_stable x ?_ (fun a ha => first a ((inside a).1 ha)) (ih (fun a ha b hb =>
      h a (List.mem_cons_of_mem _ ha) b (List.mem_cons_of_mem _ hb)) later)
    intro a ha
    exact h x (List.mem_cons_self) a (List.mem_cons_of_mem _ ((inside a).1 ha))

theorem sortBy_sorted {α κ : Type} [LinearOrder κ] {before : α → α → Bool} {key : α → κ}
    {l : List α} (h : ∀ a ∈ l, ∀ b ∈ l, before a b = decide (key a ≤ key b)) :
    (sortBy before l).Pairwise fun a b => key a ≤ key b :=
  (sortBy_stable h (List.pairwise_of_forall fun _ _ => trivial)).imp KeyOrder.le

/-- Sorting by a key that tells the elements apart makes one list of all that hold them. -/
theorem sortBy_eq_of_perm {α κ : Type} [LinearOrder κ] {before : α → α → Bool} (key : α → κ)
    {l m : List α} (h : ∀ a ∈ l, ∀ b ∈ l, before a b = decide (key a ≤ key b))
    (apart : ∀ a ∈ l, ∀ b ∈ l, key a = key b → a = b) (perm : l.Perm m) :
    sortBy before l = sortBy before m := by
  have perm' := (sortBy_perm before l).trans (perm.trans (sortBy_perm before m).symm)
  have inside : ∀ a ∈ sortBy before l, a ∈ l := fun a ha => (sortBy_perm before l).mem_iff.1 ha
  refine List.Perm.eq_of_pairwise ?_ (sortBy_sorted h) (sortBy_sorted ?_) perm'
  · intro a b ha hb hab hba
    exact apart a (inside a ha) b (inside b (perm'.mem_iff.2 hb)) (le_antisymm hab hba)
  · intro a ha b hb
    exact h a (perm.mem_iff.2 ha) b (perm.mem_iff.2 hb)

theorem insertBy_map {α β : Type} (f : α → β) (before : β → β → Bool) (x : α) (l : List α) :
    insertBy before (f x) (l.map f) = (insertBy (fun a b => before (f a) (f b)) x l).map f := by
  induction l with
  | nil => rfl
  | cons y r ih =>
    rw [List.map_cons, insertBy, insertBy]
    split_ifs
    · rfl
    · rw [ih, List.map_cons]

theorem sortBy_map {α β : Type} (f : α → β) (before : β → β → Bool) (l : List α) :
    sortBy before (l.map f) = (sortBy (fun a b => before (f a) (f b)) l).map f := by
  induction l with
  | nil => rfl
  | cons x r ih =>
    change insertBy before (f x) (sortBy before (r.map f)) = _
    rw [ih, insertBy_map]
    rfl

/-! ## Entries -/

section Entries

variable {α β α' β' : Type} [DecidableEq α] [DecidableEq α'] {key : α} {l : List (α × β)}

theorem addEntry_map {f : α → α'} {g : β → β'} (hf : Function.Injective f) {merge : β → β → β}
    {merge' : β' → β' → β'} (h : ∀ a b, merge' (g a) (g b) = g (merge a b)) (key : α) (value : β)
    (l : List (α × β)) :
    addEntry merge' (f key) (g value) (l.map (Prod.map f g)) =
      (addEntry merge key value l).map (Prod.map f g) := by
  induction l with
  | nil => rfl
  | cons e r ih =>
    obtain ⟨k, v⟩ := e
    simp only [List.map_cons, Prod.map_apply, addEntry, hf.eq_iff, ih]
    split_ifs
    · rw [h]
      rfl
    · rfl

theorem lookupEntry_map {f : α → α'} (g : β → β') (hf : Function.Injective f) (key : α)
    (l : List (α × β)) : lookupEntry (f key) (l.map (Prod.map f g)) = (lookupEntry key l).map g := by
  induction l with
  | nil => rfl
  | cons e r ih =>
    obtain ⟨k, v⟩ := e
    simp only [List.map_cons, Prod.map_apply, lookupEntry, hf.eq_iff, ih]
    split_ifs <;> rfl

/-- What is added to an entry is found there. -/
theorem lookupEntry_addEntry [AddMonoid β] (key : α) (value : β) (l : List (α × β)) (k : α) :
    (lookupEntry k (addEntry (· + ·) key value l)).getD 0 =
      (lookupEntry k l).getD 0 + if k = key then value else 0 := by
  induction l with
  | nil =>
    simp only [addEntry, lookupEntry, eq_comm (a := key)]
    split_ifs <;> simp
  | cons e r ih =>
    obtain ⟨k', v⟩ := e
    unfold addEntry
    split_ifs with same hk hk
    · subst hk same
      simp [lookupEntry]
    · subst same
      have hk' : k' ≠ k := fun h => hk h.symm
      simp [lookupEntry, hk']
    · subst hk
      have := ih
      simp only [lookupEntry, same, if_false] at this ⊢
      simpa using this
    · unfold lookupEntry
      split_ifs
      · simp
      · simpa [hk] using ih

theorem keys_addEntry (merge : β → β → β) (key : α) (value : β) (l : List (α × β)) :
    (addEntry merge key value l).map Prod.fst =
      if key ∈ l.map Prod.fst then l.map Prod.fst else l.map Prod.fst ++ [key] := by
  induction l with
  | nil => rfl
  | cons e r ih =>
    obtain ⟨k, v⟩ := e
    unfold addEntry
    by_cases same : k = key
    · simp [same]
    · have same' : key ≠ k := fun h => same h.symm
      rw [if_neg same, List.map_cons, List.map_cons, ih]
      by_cases inside : key ∈ r.map Prod.fst <;> simp [inside, same']

theorem lookupEntry_eq_none_iff :
    lookupEntry key l = none ↔ key ∉ l.map Prod.fst := by
  induction l with
  | nil => simp [lookupEntry]
  | cons e r ih =>
    obtain ⟨k, v⟩ := e
    unfold lookupEntry
    by_cases same : k = key
    · simp [same]
    · have same' : key ≠ k := fun h => same h.symm
      simp [same, same', ih]

/-- Where no key stands twice, an entry is what is found at its key. -/
theorem mem_iff_lookupEntry {k : α} {v : β} (nodup : (l.map Prod.fst).Nodup) :
    (k, v) ∈ l ↔ lookupEntry k l = some v := by
  induction l with
  | nil => simp [lookupEntry]
  | cons e r ih =>
    obtain ⟨k', v'⟩ := e
    obtain ⟨new, nodup⟩ := List.nodup_cons.1 nodup
    unfold lookupEntry
    by_cases same : k' = k
    · subst same
      have absent : (k', v) ∉ r := fun h => new (List.mem_map.2 ⟨(k', v), h, rfl⟩)
      simp [absent, eq_comm]
    · have same' : k ≠ k' := fun h => same h.symm
      simp [same, same', ih nodup]

end Entries

end Reckoner
