-- The sign of a line. A line with a falling slope reads better negated, and settling the signs
-- brings a number before a line to its terms again.
import Mathlib
import Reckoner.Proofs.Algebra.Lines
import Reckoner.Algebra.Simplify

namespace Reckoner

namespace Expr

variable {v : String} {a b : ℤ}

/-- A line, in normal form or with a number before the sum. -/
inductive IsLine (v : String) (a b : ℤ) : Expr → Prop where
  | whole : IsLine v a b (line v a b)
  | shared {c d e : ℤ} (number : c ≠ 1) (slope : c * d = a) (height : c * e = b) (he : e ≠ 0) :
    IsLine v a b (shared v c d e)

section MapUp

variable {f : Expr → Expr}

theorem mapUp_lineTerm (number : ∀ c, f (.ofInt c) = .ofInt c) (unknown : f (.sym v) = .sym v)
    (a : ℤ) : mapUp f (lineTerm v a) = f (lineTerm v a) := by
  rcases lineTerm_cases v a with ⟨-, eq⟩ | ⟨-, eq⟩
  · rw [eq, mapUp]
  · have same : mapUpList f [.ofInt a, .sym v] = [.ofInt a, .sym v] := by
      simp only [mapUpList, ofInt, mapUp, unknown]
      rw [← ofInt, number]
    rw [eq, mapUp, same, if_pos rfl]

theorem mapUp_sum (number : ∀ c, f (.ofInt c) = .ofInt c) (unknown : f (.sym v) = .sym v)
    (term : f (lineTerm v a) = lineTerm v a) (b : ℤ) :
    mapUp f (.sum [.ofInt b, lineTerm v a]) = f (.sum [.ofInt b, lineTerm v a]) := by
  have same : mapUpList f [.ofInt b, lineTerm v a] = [.ofInt b, lineTerm v a] := by
    rw [mapUpList, mapUpList, mapUpList, mapUp_lineTerm number unknown, term]
    change [f (.ofInt b), _] = _
    rw [number]
  rw [mapUp, same, if_pos rfl]

theorem mapUp_line (number : ∀ c, f (.ofInt c) = .ofInt c) (unknown : f (.sym v) = .sym v)
    (term : f (lineTerm v a) = lineTerm v a) (b : ℤ) :
    mapUp f (line v a b) = f (line v a b) := by
  by_cases hb : b = 0
  · rw [hb, line_zero, mapUp_lineTerm number unknown]
  · rw [line_of_ne_zero v a hb, mapUp_sum number unknown term]

theorem mapUp_shared (number : ∀ c, f (.ofInt c) = .ofInt c) (unknown : f (.sym v) = .sym v)
    (term : f (lineTerm v a) = lineTerm v a)
    (sum : f (.sum [.ofInt b, lineTerm v a]) = .sum [.ofInt b, lineTerm v a]) (c : ℤ) :
    mapUp f (shared v c a b) = f (shared v c a b) := by
  have same : mapUpList f [.ofInt c, .sum [.ofInt b, lineTerm v a]] =
      [.ofInt c, .sum [.ofInt b, lineTerm v a]] := by
    rw [mapUpList, mapUpList, mapUpList, mapUp_sum number unknown term, sum]
    change [f (.ofInt c), _] = _
    rw [number]
  rw [shared, mapUp, same, if_pos rfl]

end MapUp

section Substitute

variable {f : Expr → Option Expr}

theorem substitute_lineTerm (number : ∀ c, f (.ofInt c) = none) (unknown : f (.sym v) = none)
    (term : f (lineTerm v a) = none) : substitute f (lineTerm v a) = lineTerm v a := by
  rcases lineTerm_cases v a with ⟨-, eq⟩ | ⟨-, eq⟩
  · rw [eq, substitute, unknown]
    rfl
  · have same : substituteList f [.ofInt a, .sym v] = [.ofInt a, .sym v] := by
      have first := number a
      rw [ofInt] at first
      simp only [substituteList, ofInt, substitute, unknown, first, Option.getD_none]
    rw [eq] at term ⊢
    rw [substitute, term, same]
    exact if_pos rfl

theorem substitute_sum (number : ∀ c, f (.ofInt c) = none) (unknown : f (.sym v) = none)
    (term : f (lineTerm v a) = none) (sum : f (.sum [.ofInt b, lineTerm v a]) = none) :
    substitute f (.sum [.ofInt b, lineTerm v a]) = .sum [.ofInt b, lineTerm v a] := by
  have same : substituteList f [.ofInt b, lineTerm v a] = [.ofInt b, lineTerm v a] := by
    have first := number b
    rw [ofInt] at first
    simp only [substituteList, ofInt, substitute, substitute_lineTerm number unknown term, first,
      Option.getD_none]
  rw [substitute, sum, same]
  exact if_pos rfl

theorem substitute_line (number : ∀ c, f (.ofInt c) = none) (unknown : f (.sym v) = none)
    (term : f (lineTerm v a) = none) (whole : f (line v a b) = none) :
    substitute f (line v a b) = line v a b := by
  by_cases hb : b = 0
  · rw [hb, line_zero, substitute_lineTerm number unknown term]
  · rw [line_of_ne_zero v a hb] at *
    exact substitute_sum number unknown term whole

theorem substitute_shared (number : ∀ c, f (.ofInt c) = none) (unknown : f (.sym v) = none)
    (term : f (lineTerm v a) = none) (sum : f (.sum [.ofInt b, lineTerm v a]) = none)
    {c : ℤ} (whole : f (shared v c a b) = none) :
    substitute f (shared v c a b) = shared v c a b := by
  have same : substituteList f [.ofInt c, .sum [.ofInt b, lineTerm v a]] =
      [.ofInt c, .sum [.ofInt b, lineTerm v a]] := by
    have first := number c
    rw [ofInt] at first
    simp only [substituteList, substitute_sum number unknown term sum]
    rw [ofInt, substitute, first]
    rfl
  rw [shared] at *
  rw [substitute, whole, same]
  exact if_pos rfl

end Substitute

/-! ## Signs -/

theorem neg_shared {c d e : ℤ} (hc : c ≠ 0) (hd : d ≠ 0) (he : e ≠ 0) :
    neg (shared v c d e) = line v (-(c * d)) (-(c * e)) := by
  change (if Number.exact (c : ℚ) = .exact (-1) then Expr.sum [.ofInt e, lineTerm v d]
    else mul [.num (Number.exact (c : ℚ)).neg, .sum [.ofInt e, lineTerm v d]]) = _
  by_cases h : c = -1
  · rw [if_pos (exact_eq_negOne.2 h), h, neg_one_mul, neg_one_mul, neg_neg, neg_neg,
      line_of_ne_zero v d he]
  · have number : Expr.num (Number.exact (c : ℚ)).neg = .ofInt (-c) :=
      neg_ofInt (B := .ofDepth 64) c
    have product := times_line (v := v) (neg_ne_zero.2 hc) hd e
    rw [line_of_ne_zero v d he, neg_mul, neg_mul] at product
    rw [if_neg (mt exact_eq_negOne.1 h), number, product]

/-- A term of a line is the same negated twice. -/
theorem negTwice_lineTerm (v : String) (a : ℤ) :
    (if (lineTerm v a).isProd then neg (neg (lineTerm v a)) else lineTerm v a) =
      lineTerm v a := by
  rw [neg_lineTerm, neg_lineTerm, neg_neg, ite_self]

theorem settleProducts_line (ha : a ≠ 0) (b : ℤ) :
    settleProducts (line v a b) = line v a b := by
  let f (y : Expr) := if y.isProd then neg (neg y) else y
  refine (mapUp_line (f := f) (fun _ => rfl) rfl (negTwice_lineTerm v a) b).trans ?_
  change (if _ then neg (neg (line v a b)) else _) = _
  rw [neg_line ha, neg_line (neg_ne_zero.2 ha), neg_neg, neg_neg, ite_self]

theorem settleProducts_shared {c d e : ℤ} (hc : c ≠ 0) (hd : d ≠ 0) (he : e ≠ 0) :
    settleProducts (shared v c d e) = line v (c * d) (c * e) := by
  let f (y : Expr) := if y.isProd then neg (neg y) else y
  refine (mapUp_shared (f := f) (fun _ => rfl) rfl (negTwice_lineTerm v d) rfl c).trans ?_
  change neg (neg (shared v c d e)) = _
  rw [neg_shared hc hd he, neg_line (neg_ne_zero.2 (mul_ne_zero hc hd)), neg_neg, neg_neg]

theorem isNegative_exact (a : ℤ) : (Number.exact (a : ℚ)).isNegative = decide (a < 0) := by
  rw [Bool.eq_iff_iff, decide_eq_true_iff, Number.isNegative, Number.sign?, Rat.num_intCast,
    beq_iff_eq,
    Option.some_inj]
  exact Int.sign_eq_neg_one_iff_neg

theorem isPositive_ofInt (b : ℤ) : (ofInt b).isPositive = decide (0 < b) := by
  rw [Bool.eq_iff_iff, decide_eq_true_iff]
  change (Number.exact (b : ℚ)).isPositive = true ↔ _
  rw [Number.isPositive, Number.sign?, Rat.num_intCast, beq_iff_eq, Option.some_inj]
  exact Int.sign_eq_one_iff_pos

theorem isNegative_ofInt (b : ℤ) : (ofInt b).isNegative = decide (b < 0) := by
  rw [← isNegative_exact]
  rfl

/-- A number stands before a term of another sign if it is positive, and behind it otherwise. -/
theorem orderTerms_line (key : Expr → SortKey) (a b : ℤ) :
    Builder.full.orderTerms key [.ofInt b, lineTerm v a] =
      if 0 < b ∧ a < 0 then [.ofInt b, lineTerm v a] else [lineTerm v a, .ofInt b] := by
  have sorted : (sortBy (fun a b => Builder.monomialCmp [.sym v] a.2 b.2 != .gt)
      [(Expr.ofInt b, (⟨b, 0, []⟩ : Monomial)), (lineTerm v a, ⟨a, 0, [(.sym v, 1)]⟩)]).map
        Prod.fst = [lineTerm v a, .ofInt b] := by
    simp [sortBy, insertBy, Builder.monomialCmp, lookupEntry]
    rfl
  unfold Builder.orderTerms
  rcases lineTerm_cases v a with ⟨rfl, eq⟩ | ⟨h, eq⟩
  · rw [if_neg (by omega)]
    rw [eq] at sorted ⊢
    exact sorted
  · rw [eq] at sorted ⊢
    have special : (Builder.isPlainNumber (.ofInt b) && (ofInt b).isPositive && (ofInt a).isNum &&
        (ofInt a).isNegative) = decide (0 < b ∧ a < 0) := by
      have number : Builder.isPlainNumber (.ofInt b) = true := rfl
      have isNum : (ofInt a).isNum = true := rfl
      rw [isPositive_ofInt, isNegative_ofInt, Bool.decide_and, number, isNum, Bool.true_and,
        Bool.and_true]
    have chosen : (if Builder.isPlainNumber (.ofInt b) && (ofInt b).isPositive && (ofInt a).isNum &&
        (ofInt a).isNegative then some [ofInt b, .prod [.ofInt a, .sym v]] else none) =
        if 0 < b ∧ a < 0 then some [ofInt b, .prod [.ofInt a, .sym v]] else none := by
      rw [special]
      simp only [decide_eq_true_eq]
    have numbersFirst : [ofInt b, .prod [.ofInt a, .sym v]].filter Builder.isPlainNumber ++
        [ofInt b, .prod [.ofInt a, .sym v]].filter (fun x => !Builder.isPlainNumber x) =
          [ofInt b, .prod [.ofInt a, .sym v]] := rfl
    have plain : Builder.isPlainNumber (.ofInt a) = true := rfl
    dsimp only
    rw [numbersFirst]
    dsimp only
    rw [if_pos plain]
    dsimp only
    rw [chosen]
    split_ifs
    · rfl
    · exact sorted

/-- A key of a number stands before the key of a term in the unknown. -/
theorem cmp_keys (fuel fuel' : ℕ) (a b : ℤ) :
    SortKey.cmp (Builder.full.sortKeyAux (fuel + 1) (.ofInt b))
        (Builder.full.sortKeyAux (fuel' + 1) (lineTerm v a)) = .lt ∧
      SortKey.cmp (Builder.full.sortKeyAux (fuel + 1) (lineTerm v a))
        (Builder.full.sortKeyAux (fuel' + 1) (.ofInt b)) = .gt := by
  rcases lineTerm_cases v a with ⟨-, eq⟩ | ⟨-, eq⟩ <;> rw [eq] <;> exact ⟨rfl, rfl⟩

theorem sortKey_sum {x y : Expr} {l : List Expr}
    (order : ∀ key, Builder.full.orderTerms key l = [x, y]) :
    ∃ fuel, Builder.full.sortKey (.sum l) = .mk (3, 1, "Add") 2 ""
      [Builder.full.sortKeyAux (fuel + 1) x, Builder.full.sortKeyAux (fuel + 1) y]
      [.ofNumber (.exact 1)] (.exact 1) := by
  have parts := order (Builder.full.sortKeyAux (3 * (Expr.sum l).size + 2))
  refine ⟨3 * (Expr.sum l).size + 1, ?_⟩
  change SortKey.mk (3, 1, "Add")
    ((Builder.full.orderTerms (Builder.full.sortKeyAux (3 * (Expr.sum l).size + 2)) l).map
      (Builder.full.sortKeyAux (3 * (Expr.sum l).size + 2))).length ""
    ((Builder.full.orderTerms (Builder.full.sortKeyAux (3 * (Expr.sum l).size + 2)) l).map
      (Builder.full.sortKeyAux (3 * (Expr.sum l).size + 2))) _ _ = _
  rw [parts]
  rfl

/-- Of a sum and its opposite with terms of two signs, the one with a positive number has the key
that stands first. -/
theorem lt_sortKey_neg {a b : ℤ} (ha : a ≠ 0) (hb : b ≠ 0) (signs : a < 0 ↔ 0 < b) :
    SortKey.lt (Builder.full.sortKey (.sum [.ofInt b, lineTerm v a]))
      (Builder.full.sortKey (neg (.sum [.ofInt b, lineTerm v a]))) = decide (a < 0) := by
  have order := orderTerms_line (v := v)
  have turned : neg (.sum [.ofInt b, lineTerm v a]) = .sum [.ofInt (-b), lineTerm v (-a)] := by
    rw [← line_of_ne_zero v a hb, neg_line ha, line_of_ne_zero v _ (neg_ne_zero.2 hb)]
  rw [turned]
  by_cases down : a < 0
  · obtain ⟨fuel, first⟩ := sortKey_sum fun key =>
      (order key a b).trans (if_pos ⟨signs.1 down, down⟩)
    obtain ⟨fuel', second⟩ := sortKey_sum fun key =>
      (order key (-a) (-b)).trans (if_neg (by omega))
    rw [first, second, SortKey.lt, SortKey.cmp, SortKey.cmpList, (cmp_keys fuel fuel' (-a) b).1,
      decide_eq_true down]
    rfl
  · obtain ⟨fuel, first⟩ := sortKey_sum fun key =>
      (order key a b).trans (if_neg fun both => down both.2)
    obtain ⟨fuel', second⟩ := sortKey_sum fun key =>
      (order key (-a) (-b)).trans (if_pos (by omega))
    rw [first, second, SortKey.lt, SortKey.cmp, SortKey.cmpList, (cmp_keys fuel fuel' a (-b)).2,
      decide_eq_false down]
    rfl

theorem leadsNegative_lineTerm (v : String) (a : ℤ) :
    (lineTerm v a).leadsNegative = decide (a < 0) := by
  rcases lineTerm_cases v a with ⟨rfl, eq⟩ | ⟨-, eq⟩
  · rw [eq]
    rfl
  · rw [eq, ← isNegative_exact]
    rfl

/-- A line reads better negated if its slope is negative. -/
theorem prefersNegative_line (ha : a ≠ 0) (b : ℤ) :
    (line v a b).prefersNegative = decide (a < 0) := by
  by_cases hb : b = 0
  · rw [hb, line_zero, ← leadsNegative_lineTerm v a]
    rcases lineTerm_cases v a with ⟨-, eq⟩ | ⟨-, eq⟩ <;> rw [eq] <;> rfl
  · have down : [ofInt b, lineTerm v a].countP leadsNegative =
        (if a < 0 then 1 else 0) + if b < 0 then 1 else 0 := by
      have number : (ofInt b).leadsNegative = decide (b < 0) := isNegative_exact b
      rw [List.countP_cons, List.countP_singleton, leadsNegative_lineTerm, number]
      simp only [decide_eq_true_eq]
    rw [line_of_ne_zero v a hb]
    change (if [ofInt b, lineTerm v a].countP leadsNegative <
        2 - [ofInt b, lineTerm v a].countP leadsNegative then false
      else if 2 - [ofInt b, lineTerm v a].countP leadsNegative <
        [ofInt b, lineTerm v a].countP leadsNegative then true
      else SortKey.lt (Builder.full.sortKey (.sum [.ofInt b, lineTerm v a]))
        (Builder.full.sortKey (neg (.sum [.ofInt b, lineTerm v a])))) = _
    rw [down]
    by_cases h : a < 0 <;> by_cases h' : b < 0
    · simp [h, h']
    · rw [lt_sortKey_neg ha hb (by omega)]
      simp [h, h']
    · rw [lt_sortKey_neg ha hb (by omega)]
      simp [h, h']
    · simp [h, h']

/-! ## Settled signs -/

theorem sums_lineTerm (v : String) (a : ℤ) : (lineTerm v a).sums = [] := by
  rcases lineTerm_cases v a with ⟨-, eq⟩ | ⟨-, eq⟩ <;> rw [eq] <;> rfl

theorem sums_sum (v : String) (a b : ℤ) :
    (Expr.sum [.ofInt b, lineTerm v a]).sums = [.sum [.ofInt b, lineTerm v a]] := by
  rcases lineTerm_cases v a with ⟨-, eq⟩ | ⟨-, eq⟩ <;> rw [eq] <;> rfl

theorem sums_shared (v : String) (c a b : ℤ) :
    (shared v c a b).sums = [.sum [.ofInt b, lineTerm v a]] := by
  unfold shared
  rcases lineTerm_cases v a with ⟨-, eq⟩ | ⟨-, eq⟩ <;> rw [eq] <;> rfl

theorem isSum_lineTerm (v : String) (a : ℤ) : (lineTerm v a).isSum = false := by
  rcases lineTerm_cases v a with ⟨-, eq⟩ | ⟨-, eq⟩ <;> rw [eq] <;> rfl

theorem contains_eq_false {l : List Expr} (sums : ∀ s ∈ l, s.isSum) {x : Expr}
    (h : x.isSum = false) :
    l.contains x = false := by
  rw [List.contains_eq_mem, decide_eq_false_iff_not]
  intro mem
  exact Bool.false_ne_true (h.symm.trans (sums x mem))

theorem pullSigns_lineTerm (v : String) (a : ℤ) : (lineTerm v a).pullSigns = lineTerm v a := by
  have same : substitute (fun _ => none) (lineTerm v a) = lineTerm v a :=
    substitute_lineTerm (fun _ => rfl) rfl rfl
  unfold pullSigns
  rw [sums_lineTerm]
  simp only [List.filter_nil, List.contains_nil, Bool.false_eq_true, if_false]
  rw [same, sums_lineTerm]
  exact same

theorem pullSigns_rising (ha : 0 < a) (hb : b ≠ 0) :
    (Expr.sum [.ofInt b, lineTerm v a]).pullSigns = .sum [.ofInt b, lineTerm v a] := by
  have good : (Expr.sum [.ofInt b, lineTerm v a]).prefersNegative = false := by
    rw [← line_of_ne_zero v a hb, prefersNegative_line ha.ne', decide_eq_false (by omega)]
  have same : substitute (fun _ => none) (Expr.sum [.ofInt b, lineTerm v a]) =
      .sum [.ofInt b, lineTerm v a] :=
    substitute_sum (fun _ => rfl) rfl rfl rfl
  unfold pullSigns
  rw [sums_sum]
  simp only [List.filter_cons, List.filter_nil, good, Bool.false_and, List.contains_nil,
    Bool.false_eq_true, if_false]
  rw [same, sums_sum]
  have sums : ∀ s ∈ [Expr.sum [.ofInt b, lineTerm v a]], s.isSum := by simp [isSum]
  refine substitute_sum (fun c => ?_) ?_ ?_ ?_
  · rw [contains_eq_false sums rfl]
    rfl
  · rw [contains_eq_false sums rfl]
    rfl
  · rw [contains_eq_false sums (isSum_lineTerm v a)]
    rfl
  · rw [good]
    simp

theorem neg_sum (v : String) (ha : a ≠ 0) (hb : b ≠ 0) :
    neg (.sum [.ofInt b, lineTerm v a]) = .sum [.ofInt (-b), lineTerm v (-a)] := by
  rw [← line_of_ne_zero v a hb, neg_line ha, line_of_ne_zero v _ (neg_ne_zero.2 hb)]

theorem ofInt_inj {a b : ℤ} : ofInt a = ofInt b ↔ a = b := by
  rw [ofInt, ofInt, num.injEq, Number.exact.injEq]
  exact_mod_cast Iff.rfl

theorem pullSigns_falling (ha : a < 0) (hb : b ≠ 0) :
    (Expr.sum [.ofInt b, lineTerm v a]).pullSigns = shared v (-1) (-a) (-b) := by
  have bad : (Expr.sum [.ofInt b, lineTerm v a]).prefersNegative = true := by
    rw [← line_of_ne_zero v a hb, prefersNegative_line ha.ne, decide_eq_true ha]
  have good : (Expr.sum [.ofInt (-b), lineTerm v (-a)]).prefersNegative = false := by
    rw [← line_of_ne_zero v _ (neg_ne_zero.2 hb), prefersNegative_line (by omega),
      decide_eq_false (by omega)]
  have turned : neg (.sum [.ofInt b, lineTerm v a]) = .sum [.ofInt (-b), lineTerm v (-a)] :=
    neg_sum v ha.ne hb
  have other : ([Expr.sum [.ofInt b, lineTerm v a]].contains
      (.sum [.ofInt (-b), lineTerm v (-a)])) = false := by
    rw [List.contains_eq_mem, decide_eq_false_iff_not, List.mem_singleton, sum.injEq,
      List.cons.injEq,
      ofInt_inj]
    omega
  have root : substitute (fun s => if [Expr.sum [.ofInt b, lineTerm v a]].contains s
      then some (.prod [.negOne, neg s]) else none) (.sum [.ofInt b, lineTerm v a]) =
      shared v (-1) (-a) (-b) := by
    rw [substitute]
    simp only [List.contains_cons, BEq.rfl, Bool.true_or, if_true, turned]
    rfl
  have filtered : [Expr.sum [.ofInt b, lineTerm v a]].filter (fun s =>
      s.prefersNegative && !(neg s).isProd) = [.sum [.ofInt b, lineTerm v a]] := by
    rw [List.filter_cons, bad, turned]
    rfl
  unfold pullSigns
  rw [sums_sum, filtered]
  simp only
  rw [root, sums_shared]
  have sums : ∀ s ∈ [Expr.sum [.ofInt (-b), lineTerm v (-a)]], s.isSum := by simp [isSum]
  refine substitute_shared (fun c => ?_) ?_ ?_ ?_ ?_
  · rw [contains_eq_false sums rfl]
    rfl
  · rw [contains_eq_false sums rfl]
    rfl
  · rw [contains_eq_false sums (isSum_lineTerm v _)]
    rfl
  · rw [other, good]
    simp
  · rw [contains_eq_false sums rfl]
    rfl

/-- No line holds a mark. -/
theorem dropMarks_line (v : String) (a b : ℤ) : (line v a b).dropMarks = line v a b := by
  refine substitute_line (fun c => rfl) rfl ?_ ?_
  · rcases lineTerm_cases v a with ⟨-, eq⟩ | ⟨h, eq⟩ <;> rw [eq]
    have number : ¬ ofInt a = .one := mt ofInt_eq_one_iff.1 h
    simp [number]
  · unfold line
    split_ifs
    · rcases lineTerm_cases v a with ⟨-, eq⟩ | ⟨h, eq⟩ <;> rw [eq]
      have number : ¬ ofInt a = .one := mt ofInt_eq_one_iff.1 h
      simp [number]
    · rfl

theorem dropMarks_shared {c : ℤ} (hc : c ≠ 1) (a b : ℤ) :
    (shared v c a b).dropMarks = shared v c a b := by
  refine substitute_shared (fun c => rfl) rfl ?_ rfl ?_
  · rcases lineTerm_cases v a with ⟨-, eq⟩ | ⟨h, eq⟩ <;> rw [eq]
    have number : ¬ ofInt a = .one := mt ofInt_eq_one_iff.1 h
    simp [number]
  · have number : ¬ ofInt c = .one := mt ofInt_eq_one_iff.1 hc
    simp [shared, number]

theorem settleProducts_lineTerm (v : String) (ha : a ≠ 0) :
    settleProducts (lineTerm v a) = lineTerm v a := settleProducts_line ha 0

theorem settleSignsAux_ofInt (fuel : ℕ) (b : ℤ) : settleSignsAux fuel (.ofInt b) = .ofInt b := by
  cases fuel <;> rfl

theorem settleSignsAux_lineTerm (v : String) (ha : a ≠ 0) (fuel : ℕ) :
    settleSignsAux fuel (lineTerm v a) = lineTerm v a := by
  cases fuel with
  | zero => rfl
  | succ fuel =>
    have unmarked : dropMarks (lineTerm v a) = lineTerm v a := dropMarks_line v a 0
    rw [settleSignsAux, settleProducts_lineTerm v ha, pullSigns_lineTerm, unmarked]
    have settled := settleProducts_lineTerm v ha
    rcases lineTerm_cases v a with ⟨-, eq⟩ | ⟨-, eq⟩
    · rw [eq]
    · rw [eq] at settled ⊢
      exact settled

theorem settleSignsAux_line (ha : a ≠ 0) (b : ℤ) (fuel : ℕ) :
    settleSignsAux fuel (line v a b) = line v a b := by
  cases fuel with
  | zero => rfl
  | succ fuel =>
    by_cases hb : b = 0
    · rw [hb]
      exact settleSignsAux_lineTerm v ha _
    · rw [settleSignsAux, settleProducts_line ha]
      have whole := line_of_ne_zero v a hb
      rcases lt_or_gt_of_ne ha with down | up
      · rw [whole, pullSigns_falling down hb, dropMarks_shared (by decide)]
        change settleProducts (shared v (-1) (-a) (-b)) = _
        rw [settleProducts_shared (by decide) (neg_ne_zero.2 ha) (neg_ne_zero.2 hb), neg_one_mul,
          neg_one_mul, neg_neg, neg_neg, whole]
      · have unmarked := dropMarks_line v a b
        rw [whole] at unmarked ⊢
        rw [pullSigns_rising up hb, unmarked]
        change add [settleSignsAux fuel (.ofInt b), settleSignsAux fuel (lineTerm v a)] = _
        rw [settleSignsAux_ofInt, settleSignsAux_lineTerm v ha, add_line ha, whole]

theorem settleSigns_line (ha : a ≠ 0) (b : ℤ) : (line v a b).settleSigns = line v a b :=
  settleSignsAux_line ha b _

theorem settleSigns_shared {c d e : ℤ} (hc : c ≠ 0) (hd : d ≠ 0) (he : e ≠ 0) :
    (shared v c d e).settleSigns = line v (c * d) (c * e) := by
  obtain ⟨fuel, size⟩ : ∃ fuel, (shared v c d e).size + 4 = fuel + 1 := ⟨_, rfl⟩
  have again := settleSignsAux_line (v := v) (mul_ne_zero hc hd) (c * e) (fuel + 1)
  rw [settleSignsAux, settleProducts_line (mul_ne_zero hc hd)] at again
  rw [settleSigns, size, settleSignsAux, settleProducts_shared hc hd he, again]

end Expr

end Reckoner
