-- Polynomials in one unknown with whole coefficients, as expressions in normal form. Sums,
-- negatives, differences and products with a number of such expressions are the expressions of
-- what the polynomials come to.
import Mathlib
import Reckoner.Algebra.Normal
import Reckoner.Proofs.Algebra.Plain
import Reckoner.Proofs.Sorting

namespace Reckoner

open Polynomial

namespace Expr

/-! ## Terms -/

section Terms

variable (name : String)

/-- A power of the unknown, from the first one on. -/
def unknownPower (k : ℕ) : Expr := if k = 1 then .sym name else .pow (.sym name) (.ofInt k)

/-- A power of the unknown with a coefficient. -/
def scaledPower (c : ℤ) (k : ℕ) : Expr :=
  if c = 1 then unknownPower name k else .prod [.ofInt c, unknownPower name k]

theorem cmp_ofInt (c d : ℤ) :
    cmp (.ofInt c) (.ofInt d) = (compare (rationalRank c) (rationalRank d)).then (compare c d) := by
  have same : compare "" "" = .eq := rfl
  change ((compare (rationalRank c) (rationalRank d)).then (compare "" "")).then
    ((compare (c : ℚ).num (d : ℚ).num).then (compare (c : ℚ).den (d : ℚ).den)) = _
  rw [same]
  simp

/-- What the powers of the unknown are ordered by. -/
def powerKey (k : ℕ) : ℕ ×ₗ ℕ ×ₗ ℤ :=
  if k = 1 then toLex (13, toLex (0, 0)) else toLex (15, toLex (rationalRank (k : ℤ), (k : ℤ)))

theorem cmp_unknownPower (k l : ℕ) :
    cmp (unknownPower name k) (unknownPower name l) = compare (powerKey k) (powerKey l) := by
  unfold unknownPower powerKey
  split_ifs
  · change compare name name = _
    simp
  · rfl
  · rfl
  · change (compare name name).then (cmp (.ofInt k) (.ofInt l)) = _
    rw [cmp_ofInt]
    simp [Prod.Lex.compare_def, compareLex, compareOn]

theorem powerKey_injective : Function.Injective powerKey := by
  intro k l h
  unfold powerKey at h
  split_ifs at h with hk hl
  · rw [hk, hl]
  · cases h
  · cases h
  · have parts : rationalRank ((k : ℤ) : ℚ) = rationalRank ((l : ℤ) : ℚ) ∧ k = l := by simpa using h
    exact parts.2

/-- What the terms of a polynomial are ordered by: powers alone come first, and of the others the
number comes before the power. -/
def termKey (t : ℤ × ℕ) : (ℕ ×ₗ ℕ ×ₗ ℤ) ×ₗ (ℕ ×ₗ ℕ ×ₗ ℤ) :=
  if t.1 = 1 then toLex (powerKey t.2, powerKey t.2)
  else toLex (toLex (16, toLex (rationalRank t.1, t.1)), powerKey t.2)

theorem powerKey_ne (k : ℕ) (r : ℕ) (c : ℤ) : powerKey k ≠ toLex (16, toLex (r, c)) := by
  unfold powerKey
  split_ifs <;> intro h <;> cases h

theorem cmp_scaledPower (s t : ℤ × ℕ) :
    cmp (scaledPower name s.1 s.2) (scaledPower name t.1 t.2) = compare (termKey s) (termKey t) := by
  unfold scaledPower termKey
  split_ifs with hs ht ht
  · have twice (a b : ℕ ×ₗ ℕ ×ₗ ℤ) : compare (toLex (a, a)) (toLex (b, b)) = compare a b := by
      rw [Prod.Lex.compare_def, compareLex, compareOn, compareOn]
      cases h : compare a b <;> simp [h]
    rw [cmp_unknownPower, twice]
  · unfold unknownPower powerKey
    split_ifs <;> rfl
  · unfold unknownPower powerKey
    split_ifs <;> rfl
  · change (cmp (.ofInt s.1) (.ofInt t.1)).then
      ((cmp (unknownPower name s.2) (unknownPower name t.2)).then .eq) = _
    rw [cmp_ofInt, cmp_unknownPower]
    simp [Prod.Lex.compare_def, compareLex, compareOn]

theorem termKey_injective : Function.Injective termKey := by
  intro s t h
  unfold termKey at h
  split_ifs at h with hs ht ht
  · have powers : powerKey s.2 = powerKey t.2 := by simpa using h
    exact Prod.ext (hs.trans ht.symm) (powerKey_injective powers)
  · exact absurd (congrArg (fun k => (ofLex k).1) h) (powerKey_ne s.2 _ _)
  · exact absurd (congrArg (fun k => (ofLex k).1) h).symm (powerKey_ne t.2 _ _)
  · have parts : (rationalRank (s.1 : ℚ) = rationalRank (t.1 : ℚ) ∧ s.1 = t.1) ∧
        powerKey s.2 = powerKey t.2 := by simpa using h
    exact Prod.ext parts.1.2 (powerKey_injective parts.2)

/-! ## Sums of terms -/

/-- The sum of a whole number and of terms in the unknown, in normal form. -/
def ofTerms (c : ℤ) (l : List (ℤ × ℕ)) : Expr :=
  rawSum ((if c = 0 then [] else [.ofInt c]) ++ sortParts (l.map fun t => scaledPower name t.1 t.2))

/-- The terms come in an order of their own. -/
theorem ofTerms_perm (c : ℤ) {l m : List (ℤ × ℕ)} (h : l.Perm m) :
    ofTerms name c l = ofTerms name c m := by
  unfold ofTerms sortParts
  rw [sortBy_map, sortBy_map]
  congr 3
  refine sortBy_eq_of_perm termKey ?_ (fun a _ b _ h => termKey_injective h) h
  intro a _ b _
  rw [cmp_scaledPower, Bool.eq_iff_iff, bne_iff_ne, decide_eq_true_iff, compare_le_iff_le]

/-- The terms of a polynomial in the unknown. -/
noncomputable def polynomialTerms (p : ℤ[X]) : List (ℤ × ℕ) :=
  ((List.range (p.natDegree + 1)).filter fun k => k ≠ 0 ∧ p.coeff k ≠ 0).map fun k => (p.coeff k, k)

/-- A polynomial in the unknown as an expression in normal form. -/
noncomputable def ofPolynomial (p : ℤ[X]) : Expr := ofTerms name (p.coeff 0) (polynomialTerms p)

theorem mem_polynomialTerms {p : ℤ[X]} {c : ℤ} {k : ℕ} :
    (c, k) ∈ polynomialTerms p ↔ k ≠ 0 ∧ c ≠ 0 ∧ p.coeff k = c := by
  unfold polynomialTerms
  simp only [List.mem_map, List.mem_filter, List.mem_range, decide_eq_true_eq, Prod.mk.injEq]
  constructor
  · rintro ⟨k, ⟨-, hk, hc⟩, rfl, rfl⟩
    exact ⟨hk, hc, rfl⟩
  · rintro ⟨hk, hc, rfl⟩
    exact ⟨k, ⟨Nat.lt_succ_of_le (le_natDegree_of_ne_zero hc), hk, hc⟩, rfl, rfl⟩

theorem polynomialTerms_nodup (p : ℤ[X]) : (polynomialTerms p).Nodup := by
  refine List.Nodup.map ?_ (List.nodup_range.filter _)
  intro k l h
  exact congrArg Prod.snd h

/-- The expression of a polynomial is told by its terms, in any order. -/
theorem ofTerms_eq {p : ℤ[X]} {l : List (ℤ × ℕ)} (nodup : l.Nodup)
    (h : ∀ c k, (c, k) ∈ l ↔ k ≠ 0 ∧ c ≠ 0 ∧ p.coeff k = c) :
    ofTerms name (p.coeff 0) l = ofPolynomial name p := by
  refine ofTerms_perm name _ ((List.perm_ext_iff_of_nodup nodup (polynomialTerms_nodup p)).2 ?_)
  rintro ⟨c, k⟩
  rw [h, mem_polynomialTerms]

/-! ## Parts of a polynomial -/

/-- A whole number, or a term in the unknown. -/
def partOf (t : ℤ × ℕ) : Expr := if t.2 = 0 then .ofInt t.1 else scaledPower name t.1 t.2

/-- The parts of a polynomial in their order. -/
noncomputable def polynomialParts (p : ℤ[X]) : List (ℤ × ℕ) :=
  (if p.coeff 0 = 0 then [] else [(p.coeff 0, 0)]) ++
    sortBy (fun s t => cmp (scaledPower name s.1 s.2) (scaledPower name t.1 t.2) != .gt)
      (polynomialTerms p)

/-- The polynomial that parts add up to. -/
noncomputable def partsSum (l : List (ℤ × ℕ)) : ℤ[X] := (l.map fun t => monomial t.2 t.1).sum

theorem ofPolynomial_eq_parts (p : ℤ[X]) :
    ofPolynomial name p = rawSum ((polynomialParts name p).map (partOf name)) := by
  have terms : ∀ t ∈ sortBy (fun s t => cmp (scaledPower name s.1 s.2) (scaledPower name t.1 t.2) !=
      .gt) (polynomialTerms p), partOf name t = scaledPower name t.1 t.2 := by
    intro t ht
    have := mem_polynomialTerms.1 ((sortBy_perm _ _).mem_iff.1 ht)
    exact if_neg this.1
  unfold ofPolynomial ofTerms polynomialParts sortParts
  rw [sortBy_map, List.map_append, List.map_congr_left terms]
  split_ifs <;> rfl

theorem sum_polynomialTerms (p : ℤ[X]) : C (p.coeff 0) + partsSum (polynomialTerms p) = p := by
  have terms : partsSum (polynomialTerms p) =
      ∑ k ∈ Finset.range p.natDegree, monomial (k + 1) (p.coeff (k + 1)) := by
    unfold partsSum polynomialTerms
    rw [List.map_map, ← List.sum_toFinset _ (List.nodup_range.filter _), List.toFinset_filter,
      List.toFinset_range, Finset.sum_filter, Finset.sum_range_succ']
    simp only [ne_eq, Nat.add_eq_zero_iff, one_ne_zero, and_false, not_false_eq_true, true_and,
      not_true_eq_false, false_and, decide_false, Bool.false_eq_true, if_false, add_zero]
    refine Finset.sum_congr rfl fun k _ => ?_
    by_cases h : p.coeff (k + 1) = 0 <;> simp [h]
  conv_rhs => rw [p.as_sum_range, Finset.sum_range_succ']
  rw [terms, add_comm, monomial_zero_left]

theorem partsSum_append (l m : List (ℤ × ℕ)) : partsSum (l ++ m) = partsSum l + partsSum m := by
  simp [partsSum]

theorem partsSum_perm {l m : List (ℤ × ℕ)} (h : l.Perm m) : partsSum l = partsSum m :=
  (h.map _).sum_eq

theorem partsSum_polynomialParts (p : ℤ[X]) : partsSum (polynomialParts name p) = p := by
  have constant : partsSum (if p.coeff 0 = 0 then [] else [(p.coeff 0, 0)]) = C (p.coeff 0) := by
    split_ifs with h
    · simp [partsSum, h]
    · simp only [partsSum, List.map_singleton, List.sum_singleton, monomial_zero_left]
  unfold polynomialParts
  rw [partsSum_append, partsSum_perm (sortBy_perm _ _), constant, sum_polynomialTerms]

end Terms

/-! ## Gathering parts -/

section Gathering

variable (B : Builder) {name : String}

theorem unknownPower_injective : Function.Injective (unknownPower name) := by
  intro k l h
  unfold unknownPower at h
  split_ifs at h with hk hl
  · rw [hk, hl]
  · simpa [Expr.ofInt] using h

/-- An entry of the terms that were gathered. -/
def gatheredEntry (name : String) : ℕ × ℤ → Expr × Number := Prod.map (unknownPower name) fun c => .exact c

theorem collect_constant (fuel : ℕ) (c m : ℤ) (rest : List Expr) (parts : List (Expr × Number)) :
    Builder.collectTerms B (fuel + 1) (.ofInt c :: rest) ⟨.ofInt m, parts⟩ =
      Builder.collectTerms B fuel rest ⟨.ofInt (m + c), parts⟩ := by
  have total : ((m + c : ℤ) : ℚ) = m + c := by push_cast; rfl
  unfold Expr.ofInt
  rw [total]
  rfl

theorem collect_term (fuel : ℕ) (c : ℤ) (k : ℕ) (rest : List Expr) (acc : Builder.Terms) :
    Builder.collectTerms B (fuel + 1) (scaledPower name c k :: rest) acc =
      if lookupEntry (unknownPower name k)
          (addEntry Number.add (unknownPower name k) (.exact c) acc.parts) = some .undefined then none
      else Builder.collectTerms B fuel rest
        { acc with parts := addEntry Number.add (unknownPower name k) (.exact c) acc.parts } := by
  unfold scaledPower
  by_cases h : c = 1
  · subst h
    rw [if_pos rfl, Int.cast_one]
    unfold unknownPower
    by_cases hk : k = 1 <;> simp only [hk, if_true, if_false] <;> rfl
  · rw [if_neg h]
    rfl

theorem addEntry_gathered (k : ℕ) (c : ℤ) (table : List (ℕ × ℤ)) :
    addEntry Number.add (unknownPower name k) (.exact c) (table.map (gatheredEntry name)) =
      (addEntry (· + ·) k c table).map (gatheredEntry name) := by
  refine addEntry_map (f := unknownPower name) (g := fun c => Number.exact (c : ℤ))
    unknownPower_injective ?_ k c table
  intro a b
  change Number.exact (a + b : ℚ) = .exact ((a + b : ℤ) : ℚ)
  rw [Int.cast_add]

/-- A term is added to the entry of its power. -/
theorem collect_scaledPower (fuel : ℕ) (c : ℤ) (k : ℕ) (rest : List Expr) (coeff : Expr)
    (table : List (ℕ × ℤ)) :
    Builder.collectTerms B (fuel + 1) (scaledPower name c k :: rest)
        ⟨coeff, table.map (gatheredEntry name)⟩ =
      Builder.collectTerms B fuel rest
        ⟨coeff, (addEntry (· + ·) k c table).map (gatheredEntry name)⟩ := by
  rw [collect_term, addEntry_gathered, if_neg]
  unfold gatheredEntry
  rw [lookupEntry_map _ unknownPower_injective]
  cases lookupEntry k (addEntry (· + ·) k c table) <;> simp

/-- What was gathered is a polynomial: its constant part and the coefficient of each power. -/
structure Gathered (name : String) (acc : Builder.Terms) (p : ℤ[X]) (table : List (ℕ × ℤ)) :
    Prop where
  coeff : acc.coeff = .ofInt (p.coeff 0)
  parts : acc.parts = table.map (gatheredEntry name)
  nodup : (table.map Prod.fst).Nodup
  positive : 0 ∉ table.map Prod.fst
  value : ∀ k ≠ 0, (lookupEntry k table).getD 0 = p.coeff k

theorem Gathered.part {acc : Builder.Terms} {p : ℤ[X]} {table : List (ℕ × ℤ)}
    (h : Gathered name acc p table) (t : ℤ × ℕ) :
    ∃ acc' table', Gathered name acc' (p + monomial t.2 t.1) table' ∧
      ∀ fuel rest, Builder.collectTerms B (fuel + 1) (partOf name t :: rest) acc =
        Builder.collectTerms B fuel rest acc' := by
  obtain ⟨c, k⟩ := t
  obtain ⟨coeff, parts⟩ := acc
  obtain ⟨rfl, rfl, nodup, positive, value⟩ := h
  unfold partOf
  by_cases hk : k = 0
  · subst hk
    refine ⟨⟨.ofInt (p.coeff 0 + c), table.map (gatheredEntry name)⟩, table,
      ⟨?_, rfl, nodup, positive, ?_⟩, ?_⟩
    · simp
    · intro k hk
      rw [value k hk, coeff_add, coeff_monomial, if_neg hk.symm, add_zero]
    · intro fuel rest
      exact collect_constant B fuel c _ rest _
  · refine ⟨⟨.ofInt (p.coeff 0), (addEntry (· + ·) k c table).map (gatheredEntry name)⟩,
      addEntry (· + ·) k c table, ⟨?_, rfl, ?_, ?_, ?_⟩, ?_⟩
    · simp [coeff_monomial, hk]
    · rw [keys_addEntry]
      split_ifs with inside
      · exact nodup
      · exact nodup.append (List.nodup_singleton k) (by simpa using inside)
    · rw [keys_addEntry]
      split_ifs with inside
      · exact positive
      · simpa [eq_comm] using ⟨by simpa using positive, hk⟩
    · intro l hl
      rw [lookupEntry_addEntry, value l hl]
      simp [coeff_monomial, eq_comm (a := l)]
    · intro fuel rest
      rw [if_neg hk]
      exact collect_scaledPower B fuel c k rest _ table

theorem zero_eq_ofInt : zero = .ofInt 0 := by simp [zero, Expr.ofInt]

theorem one_eq_ofInt : one = .ofInt 1 := by simp [one, Expr.ofInt]

/-- The expression that parts make up as they are. -/
def sumOfParts (name : String) (l : List (ℤ × ℕ)) : Expr := rawSum (l.map (partOf name))

/-- How many steps it takes to gather the parts of an expression. -/
def gatheringSteps (l : List (ℤ × ℕ)) : ℕ := if l.length ≤ 1 then 1 else l.length + 1

/-- All parts are gathered, those of sums after the others. -/
theorem Gathered.sums (fuel : ℕ) : ∀ (args : List (List (ℤ × ℕ))) {acc : Builder.Terms} {p : ℤ[X]}
    {table : List (ℕ × ℤ)}, Gathered name acc p table →
    (args.map gatheringSteps).sum ≤ fuel →
    ∃ acc' table', Gathered name acc' (p + (args.map partsSum).sum) table' ∧
      Builder.collectTerms B fuel (args.map (sumOfParts name)) acc = some acc' := by
  induction fuel with
  | zero =>
    intro args acc p table h steps
    cases args with
    | nil => exact ⟨acc, table, by simpa using h, rfl⟩
    | cons l rest =>
      have : 1 ≤ gatheringSteps l := by
        unfold gatheringSteps
        split_ifs <;> omega
      rw [List.map_cons, List.sum_cons] at steps
      omega
  | succ fuel ih =>
    intro args acc p table h steps
    match args with
    | [] => exact ⟨acc, table, by simpa using h, rfl⟩
    | [] :: rest =>
      -- an empty sum is zero
      obtain ⟨acc', table', h', step⟩ := h.part B (0, 0)
      obtain ⟨acc'', table'', h'', last⟩ := ih rest h' (by
        simpa [gatheringSteps, Nat.add_comm 1] using steps)
      refine ⟨acc'', table'', ?_, ?_⟩
      · simpa [partsSum] using h''
      · rw [← last, ← step]
        simp only [List.map_cons, sumOfParts, List.map_nil, rawSum, zero_eq_ofInt]
        rfl
    | [t] :: rest =>
      obtain ⟨acc', table', h', step⟩ := h.part B t
      obtain ⟨acc'', table'', h'', last⟩ := ih rest h' (by
        simpa [gatheringSteps, Nat.add_comm 1] using steps)
      refine ⟨acc'', table'', ?_, ?_⟩
      · simpa [partsSum, add_assoc] using h''
      · rw [← last, ← step]
        rfl
    | (t :: u :: l) :: rest =>
      -- a longer sum is taken apart behind the others
      generalize hm : t :: u :: l = m at *
      have long : ¬ m.length ≤ 1 := by simp [← hm]
      have singleSteps : ((m.map fun t => [t]).map gatheringSteps).sum = m.length := by
        simp [Function.comp_def, gatheringSteps]
      have singleSums : ((m.map fun t => [t]).map partsSum).sum = partsSum m := by
        simp [Function.comp_def, partsSum]
      rw [List.map_cons, List.sum_cons, gatheringSteps, if_neg long] at steps
      obtain ⟨acc', table', h', step⟩ := ih (rest ++ m.map fun t => [t]) h (by
        rw [List.map_append, List.sum_append, singleSteps]
        omega)
      refine ⟨acc', table', ?_, ?_⟩
      · rw [List.map_append, List.sum_append, singleSums, add_comm _ (partsSum m)] at h'
        exact h'
      · rw [← step, ← hm]
        simp only [sumOfParts, List.map_cons, rawSum, List.map_append, List.map_map]
        rfl

end Gathering

section Sums

variable {B : Builder} {name : String}

/-- The builder puts a number before a power of the unknown. -/
def BuildsTerms (B : Builder) (name : String) : Prop :=
  ∀ c : ℤ, ∀ k : ℕ, c ≠ 0 → c ≠ 1 → k ≠ 0 →
    B.mul [.ofInt c, unknownPower name k] = .prod [.ofInt c, unknownPower name k]

theorem buildTerm_eq (hB : BuildsTerms B name) {c : ℤ} {k : ℕ} (hk : k ≠ 0) :
    Builder.buildTerm B (unknownPower name k) (.exact c) =
      if c = 0 then none else some (scaledPower name c k) := by
  unfold Builder.buildTerm scaledPower
  by_cases h0 : c = 0
  · subst h0
    rfl
  · by_cases h1 : c = 1
    · subst h1
      rfl
    · have zero : Number.isZero (.exact c) = false := by simp [Number.isZero, h0]
      have one : Number.exact (c : ℚ) ≠ .exact 1 := by simpa using h1
      rw [zero, if_neg (by decide), if_neg one, if_neg h0, if_neg h1, ← hB c k h0 h1 hk]
      unfold unknownPower
      split_ifs <;> rfl

theorem buildTerms_eq (hB : BuildsTerms B name) {table : List (ℕ × ℤ)}
    (positive : 0 ∉ table.map Prod.fst) :
    (table.map (gatheredEntry name)).filterMap (fun e => Builder.buildTerm B e.1 e.2) =
      ((table.filter fun e => e.2 ≠ 0).map Prod.swap).map fun t => scaledPower name t.1 t.2 := by
  induction table with
  | nil => rfl
  | cons e rest ih =>
    obtain ⟨k, c⟩ := e
    simp only [List.map_cons, List.mem_cons, not_or] at positive
    obtain ⟨hk, rest_positive⟩ := positive
    have built := buildTerm_eq hB (c := c) (Ne.symm hk)
    rw [List.map_cons]
    by_cases h0 : c = 0
    · rw [if_pos h0] at built
      rw [List.filterMap_cons_none (f := fun e : Expr × Number => Builder.buildTerm B e.1 e.2)
        (a := gatheredEntry name (k, c)) built,
        ih rest_positive]
      simp [h0]
    · rw [if_neg h0] at built
      rw [List.filterMap_cons_some (f := fun e : Expr × Number => Builder.buildTerm B e.1 e.2)
        (a := gatheredEntry name (k, c)) built,
        ih rest_positive]
      simp [h0]

/-- The expression of what was gathered. -/
def builtSum (B : Builder) (acc : Builder.Terms) : Expr :=
  let parts := sortParts (Builder.besideInfinity acc.coeff
    (acc.parts.filterMap fun e => Builder.buildTerm B e.1 e.2))
  rawSum (if acc.coeff = .zero then parts else acc.coeff :: parts)

/-- What was gathered is built as the expression of the polynomial. -/
theorem Gathered.built (hB : BuildsTerms B name) {acc : Builder.Terms} {p : ℤ[X]}
    {table : List (ℕ × ℤ)} (h : Gathered name acc p table) :
    builtSum B acc = ofPolynomial name p := by
  unfold builtSum
  obtain ⟨coeff, parts⟩ := acc
  obtain ⟨rfl, rfl, nodup, positive, value⟩ := h
  dsimp only
  have finite (l : List Expr) : Builder.besideInfinity (.ofInt (p.coeff 0)) l = l := rfl
  have zero : Expr.ofInt (p.coeff 0) = .zero ↔ p.coeff 0 = 0 := by
    simp [Expr.ofInt, Expr.zero]
  rw [buildTerms_eq hB positive, finite]
  simp only [zero]
  rw [← ofTerms_eq name (l := (table.filter fun e => e.2 ≠ 0).map Prod.swap)]
  · unfold ofTerms
    split_ifs <;> rfl
  · refine ((List.Nodup.of_map _ nodup).filter _).map ?_
    exact Prod.swap_injective
  · intro c k
    have swapped : (c, k) ∈ (table.filter fun e => e.2 ≠ 0).map Prod.swap ↔
        (k, c) ∈ table ∧ c ≠ 0 := by
      rw [List.mem_map_swap, List.mem_filter, decide_eq_true_iff]
    rw [swapped, mem_iff_lookupEntry nodup]
    constructor
    · rintro ⟨found, hc⟩
      have hk : k ≠ 0 := by
        rintro rfl
        exact positive (List.mem_map.2 ⟨_, (mem_iff_lookupEntry nodup).2 found, rfl⟩)
      refine ⟨hk, hc, ?_⟩
      rw [← value k hk, found]
      rfl
    · rintro ⟨hk, hc, rfl⟩
      have found := value k hk
      cases h : lookupEntry k table with
      | none =>
        rw [h] at found
        exact absurd found.symm hc
      | some v =>
        rw [h] at found
        exact ⟨congrArg some found, hc⟩

theorem gatheringSteps_le (l : List (ℤ × ℕ)) :
    gatheringSteps l ≤ (sumOfParts name l).size := by
  unfold gatheringSteps sumOfParts
  split_ifs with h
  · exact size_pos _
  · match l with
    | [] => exact absurd (Nat.zero_le 1) h
    | [t] => exact absurd le_rfl h
    | t :: u :: l =>
      have parts := size_add_length_le (l := (t :: u :: l).map (partOf name))
        (List.mem_map_of_mem (List.mem_cons_self))
      have := size_pos (partOf name t)
      rw [List.length_map] at parts
      change (t :: u :: l).length + 1 ≤ 1 + sizeList ((t :: u :: l).map (partOf name))
      omega

theorem ofPolynomial_eq_sumOfParts (p : ℤ[X]) :
    ofPolynomial name p = sumOfParts name (polynomialParts name p) :=
  ofPolynomial_eq_parts name p

/-- The sum of expressions, where all parts are gathered. -/
def gatheredSum (B : Builder) (args : List Expr) : Expr :=
  match Builder.collectTerms B (sizeList args + args.length + 8) args ⟨.zero, []⟩ with
  | none => .nan
  | some acc => builtSum B acc

/-- Gathering expressions of polynomials gathers their sum. -/
theorem gatheredSum_polynomials (hB : BuildsTerms B name) (qs : List ℤ[X]) :
    gatheredSum B (qs.map (ofPolynomial name)) = ofPolynomial name qs.sum := by
  have start : Gathered name ⟨.zero, []⟩ 0 [] := by
    refine ⟨?_, rfl, List.nodup_nil, by simp, by simp [lookupEntry]⟩
    rw [coeff_zero]
    exact zero_eq_ofInt
  have args : qs.map (ofPolynomial name) =
      (qs.map (polynomialParts name)).map (sumOfParts name) := by
    rw [List.map_map]
    exact List.map_congr_left fun q _ => ofPolynomial_eq_sumOfParts q
  have sums : ((qs.map (polynomialParts name)).map partsSum).sum = qs.sum := by
    rw [List.map_map]
    congr 1
    exact (List.map_congr_left fun q _ => partsSum_polynomialParts name q).trans (List.map_id qs)
  have steps : ∀ l : List (List (ℤ × ℕ)), (l.map gatheringSteps).sum ≤
      sizeList (l.map (sumOfParts name)) := by
    intro l
    induction l with
    | nil => exact le_rfl
    | cons a rest ih => exact Nat.add_le_add (gatheringSteps_le a) ih
  obtain ⟨acc, table, gathered, collected⟩ := Gathered.sums B
    (sizeList (qs.map (ofPolynomial name)) + (qs.map (ofPolynomial name)).length + 8)
    (qs.map (polynomialParts name)) start (by
      rw [args]
      exact (steps _).trans (by omega))
  rw [sums, zero_add] at gathered
  rw [← args] at collected
  unfold gatheredSum
  rw [collected]
  exact gathered.built hB

/-- Zeros add nothing to a sum. -/
theorem sumOf_filter (l : List Expr) : B.sumOf (l.filter fun x => x != .zero) = B.sumOf l := by
  unfold Builder.sumOf
  rw [List.filter_filter]
  simp only [Bool.and_self]

/-- The sum of two expressions, where a number stands before a product as it is. -/
def pairSum (B : Builder) (a b : Expr) : Expr :=
  if a.isRational && b.isProd then .sum [a, b] else gatheredSum B [a, b]

theorem sumOf_pair {a b : Expr} (ha : a ≠ .zero) (hb : b ≠ .zero) :
    B.sumOf [a, b] = if b.isRational then pairSum B b a else pairSum B a b := by
  unfold Builder.sumOf
  rw [List.filter_eq_self.2 (by simp [ha, hb])]
  cases h : b.isRational <;> simp only [h] <;> rfl

theorem sumOf_many {a b c : Expr} {l : List Expr} (h : ∀ x ∈ a :: b :: c :: l, x ≠ .zero) :
    B.sumOf (a :: b :: c :: l) = gatheredSum B (a :: b :: c :: l) := by
  unfold Builder.sumOf
  rw [List.filter_eq_self.2 (by simpa using h)]
  rfl

end Sums

section Polynomials

variable {B : Builder} {name : String}

theorem ofPolynomial_of_terms {p : ℤ[X]} {c : ℤ} {l : List (ℤ × ℕ)} (constant : p.coeff 0 = c)
    (nodup : l.Nodup) (h : ∀ c k, (c, k) ∈ l ↔ k ≠ 0 ∧ c ≠ 0 ∧ p.coeff k = c) :
    ofPolynomial name p = ofTerms name c l := by
  rw [← ofTerms_eq name nodup h, constant]

theorem ofPolynomial_C (c : ℤ) : ofPolynomial name (C c) = .ofInt c := by
  rw [ofPolynomial_of_terms (c := c) (l := []) (coeff_C_zero) List.nodup_nil]
  · unfold ofTerms
    split_ifs with h
    · rw [h]
      exact zero_eq_ofInt
    · rfl
  · intro d k
    simp only [List.not_mem_nil, false_iff, not_and]
    intro hk hd
    rw [coeff_C_of_ne_zero hk]
    exact hd.symm

theorem ofPolynomial_zero : ofPolynomial name 0 = .ofInt 0 := by
  rw [← ofPolynomial_C, C_0]

theorem ofPolynomial_line (name : String) (c : ℤ) {d : ℤ} {k : ℕ} (hd : d ≠ 0) (hk : k ≠ 0) :
    ofPolynomial name (C c + monomial k d) = ofTerms name c [(d, k)] := by
  refine ofPolynomial_of_terms ?_ (List.nodup_singleton _) ?_
  · rw [coeff_add, coeff_C_zero, coeff_monomial, if_neg hk, add_zero]
  · intro e l
    simp only [List.mem_singleton, Prod.mk.injEq, coeff_add, coeff_monomial]
    constructor
    · rintro ⟨rfl, rfl⟩
      exact ⟨hk, hd, by rw [coeff_C_of_ne_zero hk, if_pos rfl, zero_add]⟩
    · rintro ⟨hl, he, sum⟩
      rw [coeff_C_of_ne_zero hl, zero_add] at sum
      split_ifs at sum with same
      · exact ⟨sum.symm, same.symm⟩
      · exact absurd sum.symm he

theorem ofPolynomial_monomial {d : ℤ} {k : ℕ} (hd : d ≠ 0) (hk : k ≠ 0) :
    ofPolynomial name (monomial k d) = scaledPower name d k := by
  have line := ofPolynomial_line name 0 hd hk
  rwa [C_0, zero_add] at line

/-- The expression of a polynomial is a whole number, a term or a sum. -/
theorem ofPolynomial_cases (name : String) (p : ℤ[X]) :
    (∃ c, p = C c ∧ ofPolynomial name p = .ofInt c) ∨
      (∃ c k, c ≠ 0 ∧ k ≠ 0 ∧ p = monomial k c ∧ ofPolynomial name p = scaledPower name c k) ∨
      ∃ s t l, polynomialParts name p = s :: t :: l ∧
        ofPolynomial name p = .sum ((s :: t :: l).map (partOf name)) := by
  have parts := ofPolynomial_eq_parts name p
  have sum := partsSum_polynomialParts name p
  match h : polynomialParts name p with
  | [] =>
    rw [h] at sum
    obtain rfl : p = 0 := sum.symm
    exact .inl ⟨0, C_0.symm, ofPolynomial_zero⟩
  | [(c, k)] =>
    rw [h] at sum parts
    obtain rfl : p = monomial k c := by simpa [partsSum] using sum.symm
    by_cases hk : k = 0
    · subst hk
      exact .inl ⟨c, rfl, parts⟩
    · by_cases hc : c = 0
      · subst hc
        rw [monomial_zero_right]
        exact .inl ⟨0, C_0.symm, ofPolynomial_zero⟩
      · exact .inr (.inl ⟨c, k, hc, hk, rfl, ofPolynomial_monomial hc hk⟩)
  | s :: t :: l =>
    rw [h] at parts
    exact .inr (.inr ⟨s, t, l, rfl, parts⟩)

theorem isRational_scaledPower (name : String) (c : ℤ) (k : ℕ) : (scaledPower name c k).isRational = false := by
  unfold scaledPower unknownPower
  split_ifs <;> rfl

theorem ofPolynomial_eq_zero_iff {p : ℤ[X]} : ofPolynomial name p = .zero ↔ p = 0 := by
  constructor
  · intro h
    rcases ofPolynomial_cases name p with ⟨c, rfl, eq⟩ | ⟨c, k, -, -, rfl, eq⟩ | ⟨s, t, l, -, eq⟩
    · rw [h] at eq
      obtain rfl : c = 0 := by simpa [Expr.ofInt, Expr.zero] using eq.symm
      exact C_0
    · have rational := isRational_scaledPower name c k
      rw [← eq, h] at rational
      cases rational
    · rw [h] at eq
      cases eq
  · rintro rfl
    rw [ofPolynomial_zero, zero_eq_ofInt]

theorem filter_polynomials (name : String) (qs : List ℤ[X]) :
    (qs.map (ofPolynomial name)).filter (fun x => x != .zero) =
        (qs.filter fun q => q ≠ 0).map (ofPolynomial name) ∧
      (qs.filter fun q => q ≠ 0).sum = qs.sum := by
  constructor
  · rw [List.filter_map]
    congr 1
    refine List.filter_congr fun q _ => ?_
    rw [Function.comp_apply, Bool.eq_iff_iff, bne_iff_ne, decide_eq_true_iff, ne_eq, ne_eq,
      ofPolynomial_eq_zero_iff]
  · induction qs with
    | nil => rfl
    | cons q rest ih =>
      by_cases h : q = 0
      · simpa [h] using ih
      · simpa [h] using ih

theorem pairSum_polynomials (hB : BuildsTerms B name) {p : ℤ[X]} (hp : p ≠ 0) (q : ℤ[X]) :
    pairSum B (ofPolynomial name p) (ofPolynomial name q) = ofPolynomial name (p + q) := by
  unfold pairSum
  split_ifs with h
  · rw [Bool.and_eq_true] at h
    obtain ⟨rational, prod⟩ := h
    rcases ofPolynomial_cases name p with ⟨c, rfl, eq⟩ | ⟨c, k, -, -, -, eq⟩ | ⟨_, _, _, -, eq⟩
    · rcases ofPolynomial_cases name q with ⟨d, -, eq'⟩ | ⟨d, k, hd, hk, rfl, eq'⟩ |
        ⟨_, _, _, -, eq'⟩
      · rw [eq'] at prod
        cases prod
      · have hc : c ≠ 0 := by
          rintro rfl
          exact hp C_0
        rw [ofPolynomial_line name c hd hk, eq, eq']
        unfold ofTerms
        rw [if_neg hc]
        rfl
      · rw [eq'] at prod
        cases prod
    · rw [eq, isRational_scaledPower] at rational
      cases rational
    · rw [eq] at rational
      cases rational
  · have sum := gatheredSum_polynomials hB [p, q]
    rwa [List.sum_cons, List.sum_singleton] at sum

/-- The sum of expressions of polynomials is the expression of their sum. -/
theorem sumOf_polynomials (hB : BuildsTerms B name) (qs : List ℤ[X]) :
    B.sumOf (qs.map (ofPolynomial name)) = ofPolynomial name qs.sum := by
  obtain ⟨filtered, sum⟩ := filter_polynomials name qs
  have nonzero : ∀ q ∈ qs.filter fun q => q ≠ 0, ofPolynomial name q ≠ .zero := by
    intro q hq
    exact mt ofPolynomial_eq_zero_iff.1 (by simpa using (List.mem_filter.1 hq).2)
  rw [← sumOf_filter, filtered, ← sum]
  generalize (qs.filter fun q => q ≠ 0) = l at nonzero
  match l with
  | [] =>
    rw [List.map_nil, List.sum_nil, ofPolynomial_zero, ← zero_eq_ofInt]
    rfl
  | [q] =>
    have single : [ofPolynomial name q].filter (fun x => x != .zero) = [ofPolynomial name q] := by
      rw [List.filter_eq_self]
      simpa using nonzero q
    rw [List.sum_singleton]
    unfold Builder.sumOf
    rw [List.map_singleton, single]
  | [p, q] =>
    have hp := nonzero p (by simp)
    have hq := nonzero q (by simp)
    rw [List.map_cons, List.map_singleton, sumOf_pair hp hq, List.sum_cons, List.sum_singleton]
    split_ifs
    · rw [pairSum_polynomials hB (mt ofPolynomial_eq_zero_iff.2 hq), add_comm]
    · rw [pairSum_polynomials hB (mt ofPolynomial_eq_zero_iff.2 hp)]
  | p :: q :: r :: l =>
    have many := sumOf_many (B := B) (a := ofPolynomial name p) (b := ofPolynomial name q)
      (c := ofPolynomial name r) (l := l.map (ofPolynomial name)) (by simpa using nonzero)
    rw [← gatheredSum_polynomials hB]
    exact many

end Polynomials

end Expr

end Reckoner
