-- Plain arithmetic: sums, products and whole powers of rational numbers. Where no sum loses what
-- its terms have and no power is excessive, the numeric evaluation finds the value.
import Mathlib
import Reckoner.Proofs.Algebra.Numeric

namespace Reckoner

open Binary

/-! ## Values -/

/-- The powers that plain arithmetic may take. An exponent that is not written out is worked out
from logarithms, so the base must be positive and the power of moderate size. -/
def PlainPower (isWritten : Bool) (v : ℚ) (n : Int) : Prop :=
  n.natAbs ≤ 1000 ∧ (v ≠ 0 ∨ 0 ≤ n) ∧
    (isWritten ∨ 0 < v ∧ 1 ≤ 10 ^ 100 * v ^ n ∧ v ^ n ≤ 10 ^ 100)

instance (isWritten : Bool) (v : ℚ) (n : Int) : Decidable (PlainPower isWritten v n) :=
  inferInstanceAs (Decidable (_ ∧ _))

namespace Expr

mutual
/-- The value of an expression of plain arithmetic. The terms of a sum may cancel each other down
to a small part of their size, but not further. -/
def plainValue? : Expr → Option ℚ
  | .num (.exact q) => some q
  | .sum l => (plainValues? l).bind fun vs =>
    if (vs.map fun v => |v|).sum ≤ 256 * |vs.sum| then some vs.sum else none
  | .prod l => (plainValues? l).map List.prod
  | .pow b e => (plainValue? b).bind fun v => (plainValue? e).bind fun w =>
    if w.den = 1 ∧ PlainPower e.isInteger v w.num then some (v ^ w.num) else none
  | _ => none
/-- The values of all expressions of a list. -/
def plainValues? : List Expr → Option (List ℚ)
  | [] => some []
  | x :: l => (plainValue? x).bind fun v => (plainValues? l).map (v :: ·)
end

theorem plainValues?_forall₂ {l : List Expr} {vs : List ℚ} (h : plainValues? l = some vs) :
    List.Forall₂ (fun x v => plainValue? x = some v) l vs := by
  induction l generalizing vs with
  | nil =>
    rw [plainValues?, Option.some.injEq] at h
    exact h ▸ .nil
  | cons x l ih =>
    rw [plainValues?, Option.bind_eq_some_iff] at h
    obtain ⟨v, hv, h⟩ := h
    obtain ⟨ws, hws, rfl⟩ := Option.map_eq_some_iff.1 h
    exact .cons hv (ih hws)

mutual
/-- There are no symbols in plain arithmetic. -/
theorem any_of_plain {test : Expr → Bool} (ht : ∀ x, (∀ s, x ≠ .sym s) → test x = false) :
    ∀ (x : Expr) {v : ℚ}, plainValue? x = some v → x.any test = false
  | .num n, _, _ => ht _ fun _ => Expr.noConfusion
  | .sum l, _, h => by
    rw [plainValue?, Option.bind_eq_some_iff] at h
    obtain ⟨vs, hvs, -⟩ := h
    rw [any, ht _ fun _ => Expr.noConfusion, anyList_of_plain ht l hvs, Bool.or_false]
  | .prod l, _, h => by
    rw [plainValue?, Option.map_eq_some_iff] at h
    obtain ⟨vs, hvs, -⟩ := h
    rw [any, ht _ fun _ => Expr.noConfusion, anyList_of_plain ht l hvs, Bool.or_false]
  | .pow b e, _, h => by
    rw [plainValue?, Option.bind_eq_some_iff] at h
    obtain ⟨v, hv, h⟩ := h
    obtain ⟨w, hw, -⟩ := Option.bind_eq_some_iff.1 h
    rw [any, ht _ fun _ => Expr.noConfusion, any_of_plain ht b hv, any_of_plain ht e hw,
      Bool.or_false, Bool.or_false]
  | .const _, _, h | .sym _, _, h | .app _ _, _, h => by simp [plainValue?] at h
theorem anyList_of_plain {test : Expr → Bool} (ht : ∀ x, (∀ s, x ≠ .sym s) → test x = false) :
    ∀ (l : List Expr) {vs : List ℚ}, plainValues? l = some vs → anyList test l = false
  | [], _, _ => rfl
  | x :: l, _, h => by
    rw [plainValues?, Option.bind_eq_some_iff] at h
    obtain ⟨v, hv, h⟩ := h
    obtain ⟨vs, hvs, -⟩ := Option.map_eq_some_iff.1 h
    rw [anyList, any_of_plain ht x hv, anyList_of_plain ht l hvs, Bool.or_false]
end

theorem isClosed_of_plain {x : Expr} {v : ℚ} (h : plainValue? x = some v) : x.isClosed = true := by
  unfold isClosed
  rw [any_of_plain (fun y hy => ?_) x h, Bool.not_false]
  cases y <;> first | rfl | exact absurd rfl (hy _)

/-! ## Nodes and sizes -/

theorem anyList_eq (test : Expr → Bool) (l : List Expr) : anyList test l = l.any (any test) := by
  induction l with
  | nil => rfl
  | cons x l ih => rw [anyList, ih, List.any_cons]

theorem size_pos (x : Expr) : 0 < x.size := by
  cases x <;> simp [size]

/-- A part of a list is no larger than the list, less one for each of the others. -/
theorem size_add_length_le {x : Expr} {l : List Expr} (h : x ∈ l) :
    x.size + l.length ≤ sizeList l + 1 := by
  induction l with
  | nil => cases h
  | cons y l ih =>
    rw [sizeList, List.length_cons]
    rcases List.mem_cons.1 h with rfl | h
    · have : l.length ≤ sizeList l := by
        clear h ih
        induction l with
        | nil => exact Nat.zero_le _
        | cons y l ih =>
          rw [sizeList, List.length_cons]
          have := y.size_pos
          omega
      omega
    · have := ih h
      have := y.size_pos
      omega

end Expr

/-! ## Evaluation -/

theorem cast_sum (vs : List ℚ) : (vs.map ((↑) : ℚ → ℝ)).sum = (vs.sum : ℚ) :=
  (map_list_sum (Rat.castHom ℝ) vs).symm

theorem cast_prod (vs : List ℚ) : (vs.map ((↑) : ℚ → ℝ)).prod = (vs.prod : ℚ) :=
  (map_list_prod (Rat.castHom ℝ) vs).symm

theorem cast_sizes (vs : List ℚ) :
    ((vs.map ((↑) : ℚ → ℝ)).map fun v => |v|).sum = ((vs.map fun v => |v|).sum : ℚ) := by
  rw [← cast_sum, List.map_map, List.map_map]
  congr 2
  funext v
  simp

/-- A whole power of a positive number of moderate size has a moderate logarithm. -/
theorem log_zpow_le {v : ℚ} {n : Int} (hv : 0 < v) (low : 1 ≤ 10 ^ 100 * v ^ n)
    (high : v ^ n ≤ 10 ^ 100) : |(n : ℝ) * Real.log v| ≤ 232 := by
  have hv' : (0 : ℝ) < v := by exact_mod_cast hv
  have power : (0 : ℝ) < (v : ℝ) ^ n := by positivity
  have low' : (1 : ℝ) ≤ 10 ^ 100 * (v : ℝ) ^ n := by exact_mod_cast low
  have high' : (v : ℝ) ^ n ≤ 10 ^ 100 := by exact_mod_cast high
  have below := Real.log_nonneg low'
  have above := Real.log_le_log power high'
  rw [Real.log_mul (by positivity) power.ne', Real.log_pow, Real.log_zpow] at below
  rw [Real.log_pow, Real.log_zpow] at above
  push_cast at below above
  have ten := log_ten_le
  rw [abs_le]
  constructor <;> linarith

/-- The bits before the point of a worked out exponent. -/
def exponentSize : Numeric → ℕ
  | .value (some p) _ =>
    match p.value with
    | .approx b _ => b.magnitude.toNat
    | _ => 0
  | _ => 0

theorem exponentSize_bounds {prec : ℕ} {w : ℝ} {n : Numeric} (hp : 57 ≤ prec) (h : n.Holds prec w)
    (hw : |w| ≤ 1000) : |w| ≤ 2 ^ (exponentSize n + 1) ∧ exponentSize n ≤ 10 := by
  cases h with
  | zero h0 => simp [h0, exponentSize]
  | @part p hpart =>
    obtain ⟨bits, hbits⟩ := hpart.value_eq
    have man := hpart.man_ne_zero hp
    have near := hpart.near
    have size : exponentSize (.value (some p) none) = p.binary.magnitude.toNat := by
      simp [exponentSize, hbits]
    have small := lastBits_le hp
    have lower := near.lower
    have upper := near.upper
    have below := abs_toReal_lt p.binary
    have ten : (2 : ℝ) ^ (10 : Int) = 1024 := by norm_num
    have most := magnitude_le (k := 10) man (by rw [ten]; nlinarith [abs_nonneg w])
    have power : (2 : ℝ) ^ p.binary.magnitude ≤ 2 ^ p.binary.magnitude.toNat := by
      rw [← zpow_natCast]
      exact zpow_le_zpow_right₀ one_le_two (Int.self_le_toNat _)
    rw [size, pow_succ]
    constructor
    · nlinarith [abs_nonneg w]
    · omega

/-- An evaluation of so many steps finds the values of plain arithmetic. -/
def FindsValues (fuel : ℕ) : Prop :=
  ∀ (prec : ℕ) (x : Expr) (v : ℚ), 57 ≤ prec → prec + 64 * x.size ≤ 2 ^ 17 → x.size < fuel →
    x.plainValue? = some v → (x.numeric fuel prec).Holds prec (v : ℝ)

variable {fuel prec : ℕ}

/-- The parts of a list, evaluated to some bits more. -/
theorem FindsValues.list (ih : FindsValues fuel) (prec more : ℕ) {l : List Expr} {vs : List ℚ}
    (hp : 57 ≤ prec + more) (hcap : ∀ x ∈ l, prec + more + 64 * x.size ≤ 2 ^ 17)
    (hfuel : Expr.sizeList l < fuel) (hv : Expr.plainValues? l = some vs) :
    List.Forall₂ (fun x (v : ℝ) => (x.numeric fuel (prec + more)).Holds (prec + more) v) l
      (vs.map ((↑) : ℚ → ℝ)) := by
  have values := (List.forall₂_and_left _ _).2 ⟨fun x hx => hx, Expr.plainValues?_forall₂ hv⟩
  rw [List.forall₂_map_right_iff]
  refine values.imp fun x v h => ih _ x v hp (hcap x h.1) ?_ h.2
  have := Expr.size_add_length_le h.1
  have := List.length_pos_of_mem h.1
  omega

theorem FindsValues.sum (ih : FindsValues fuel) {l : List Expr} {v : ℚ} (hp : 57 ≤ prec)
    (hcap : prec + 64 * (Expr.sum l).size ≤ 2 ^ 17) (hfuel : (Expr.sum l).size < fuel + 1)
    (hv : (Expr.sum l).plainValue? = some v) :
    ((Expr.sum l).numeric (fuel + 1) prec).Holds prec (v : ℝ) := by
  rw [Expr.plainValue?, Option.bind_eq_some_iff] at hv
  obtain ⟨vs, hvs, hv⟩ := hv
  obtain ⟨steady, hv⟩ := Option.ite_none_right_eq_some.1 hv
  obtain rfl := Option.some.inj hv
  rw [Expr.size] at hcap hfuel
  have values := ih.list prec 10 (l := l) (by omega)
    (fun x hx => by
      have := Expr.size_add_length_le hx
      have := List.length_pos_of_mem hx
      omega) (by omega) hvs
  have short : l.length ≤ 2 ^ 12 := by
    by_contra h
    obtain ⟨x, hx⟩ := List.exists_mem_of_length_pos (by omega : 0 < l.length)
    have := Expr.size_add_length_le hx
    omega
  rw [Expr.numeric, ← cast_sum]
  refine sumNumeric_holds hp (by omega) short values ?_
  rw [cast_sum, cast_sizes]
  exact_mod_cast steady

theorem FindsValues.prod (ih : FindsValues fuel) {l : List Expr} {v : ℚ} (hp : 57 ≤ prec)
    (hcap : prec + 64 * (Expr.prod l).size ≤ 2 ^ 17) (hfuel : (Expr.prod l).size < fuel + 1)
    (hv : (Expr.prod l).plainValue? = some v) :
    ((Expr.prod l).numeric (fuel + 1) prec).Holds prec (v : ℝ) := by
  rw [Expr.plainValue?, Option.map_eq_some_iff] at hv
  obtain ⟨vs, hvs, rfl⟩ := hv
  rw [Expr.size] at hcap hfuel
  have values := ih.list prec (l.length + 5) (by omega)
    (fun x hx => by
      have := Expr.size_add_length_le hx
      have := List.length_pos_of_mem hx
      omega) (by omega) hvs
  rw [Expr.numeric, ← cast_prod]
  refine prodNumeric_holds hp (by omega) ?_
  rw [List.length_map, List.forall₂_map_left_iff]
  exact values

/-- A power with an exponent that is written out. -/
theorem FindsValues.writtenPower (ih : FindsValues fuel) {b : Expr} {v : ℚ} {n : Int}
    (hp : 57 ≤ prec) (hcap : prec + 64 * (b.size + 2) ≤ 2 ^ 17) (hfuel : b.size < fuel)
    (hv : b.plainValue? = some v) (hn : n ≠ 0) (hn' : n.natAbs ≤ 1000) (hv0 : v ≠ 0 ∨ 0 ≤ n) :
    (powIntNumeric prec n (b.numeric fuel (prec + (bitLength n.natAbs - 1) + 5))).Holds prec
      ((v ^ n : ℚ) : ℝ) := by
  have length : bitLength n.natAbs ≤ 10 := bitLength_le_iff.2 (by omega)
  rw [Rat.cast_zpow]
  refine powIntNumeric_holds hp (by omega) hn ?_ (ih _ b v (by omega) (by omega) hfuel hv)
  exact hv0.imp_left Rat.cast_ne_zero.2

/-- A power with an exponent that is worked out. -/
theorem FindsValues.foundPower (ih : FindsValues fuel) {b e : Expr} {v w : ℚ}
    (hp : 57 ≤ prec) (hcap : prec + 64 * (b.size + e.size + 1) ≤ 2 ^ 17)
    (hfuel : b.size + e.size < fuel) (hv : b.plainValue? = some v) (hw : e.plainValue? = some w)
    (hden : w.den = 1) (hn : w.num.natAbs ≤ 1000) (hv0 : 0 < v) (low : 1 ≤ 10 ^ 100 * v ^ w.num)
    (high : v ^ w.num ≤ 10 ^ 100) {size : ℕ}
    (hsize : size = exponentSize (e.numeric fuel (prec + 10))) :
    (powNumeric prec false (b.numeric fuel (prec + 15 + size))
      (if 5 < size then e.numeric fuel (prec + 10 + size) else e.numeric fuel (prec + 10))).Holds
      prec ((v ^ w.num : ℚ) : ℝ) := by
  have whole : (w : ℝ) = w.num := by exact_mod_cast ((Rat.den_eq_one_iff w).1 hden).symm
  have value : ((v ^ w.num : ℚ) : ℝ) = Real.exp (w.num * Real.log v) := by
    have positive : (0 : ℝ) < v := by exact_mod_cast hv0
    rw [← Real.log_zpow, Real.exp_log (by positivity), Rat.cast_zpow]
  have small : |(w.num : ℝ)| ≤ 1000 := by
    rw [← Int.cast_abs, Int.abs_eq_natAbs]
    exact_mod_cast hn
  have first := ih (prec + 10) e w (by omega) (by omega) (by omega) hw
  rw [whole] at first
  obtain ⟨bound, few⟩ := exponentSize_bounds (by omega) first small
  rw [← hsize] at bound few
  have exponent : (if 5 < size then e.numeric fuel (prec + 10 + size)
      else e.numeric fuel (prec + 10)).Holds (prec + 10) (w.num : ℝ) := by
    split_ifs
    · have again := ih (prec + 10 + size) e w (by omega) (by omega) (by omega) hw
      rw [whole] at again
      exact again.mono (by omega)
    · exact first
  have base := ih (prec + 15 + size) b v (by omega) (by omega) (by omega) hv
  rw [value]
  refine powNumeric_holds hp (by omega) base exponent (by exact_mod_cast hv0) ?_ bound small
    (log_zpow_le hv0 low high)
  rcases eq_or_ne w.num 0 with h | h
  · exact .inl (by rw [h, Int.cast_zero])
  · right
    rw [← Int.cast_abs]
    exact_mod_cast Int.one_le_abs h

/-- A number that is written out has itself for its value. -/
theorem int?_eq {e : Expr} {w : ℚ} {n : Int} (hw : e.plainValue? = some w)
    (he : e.int? = some n) : w.num = n := by
  unfold Expr.int? at he
  split at he
  · rw [Expr.plainValue?, Option.some.injEq] at hw
    obtain ⟨-, he⟩ := Option.ite_none_right_eq_some.1 he
    rw [← hw]
    exact Option.some.inj he
  · cases he

theorem FindsValues.pow (ih : FindsValues fuel) {b e : Expr} {v : ℚ} (hp : 57 ≤ prec)
    (hcap : prec + 64 * (Expr.pow b e).size ≤ 2 ^ 17) (hfuel : (Expr.pow b e).size < fuel + 1)
    (hv : (Expr.pow b e).plainValue? = some v) :
    ((Expr.pow b e).numeric (fuel + 1) prec).Holds prec (v : ℝ) := by
  rw [Expr.plainValue?, Option.bind_eq_some_iff] at hv
  obtain ⟨x, hx, hv⟩ := hv
  obtain ⟨w, hw, hv⟩ := Option.bind_eq_some_iff.1 hv
  obtain ⟨⟨hden, hn, hx0, written⟩, hv⟩ := Option.ite_none_right_eq_some.1 hv
  obtain rfl := Option.some.inj hv
  have := e.size_pos
  rw [Expr.size] at hcap hfuel
  rw [Expr.numeric]
  cases he : e.int? with
  | some n =>
    have value : w.num = n := int?_eq hw he
    rw [value] at hn hx0 ⊢
    simp only
    split_ifs with hn0
    · refine Numeric.holds_real hp (by omega) (bitLength_one_le prec) ?_
      rw [hn0, zpow_zero, toReal_ofInt, Int.cast_one, Rat.cast_one]
      exact .refl (lastBits_pos prec).le 1
    · exact ih.writtenPower hp (by omega) (by omega) hx hn0 hn hx0
  | none =>
    have notHalf : e.same .half = false := by
      rw [Bool.eq_false_iff, Ne, Expr.same_iff]
      rintro rfl
      obtain rfl := Option.some.inj hw
      norm_num at hden
    have found : 0 < x ∧ 1 ≤ 10 ^ 100 * x ^ w.num ∧ x ^ w.num ≤ 10 ^ 100 :=
      written.resolve_left (by simp [Expr.isInteger, he])
    simp only
    rw [notHalf]
    exact ih.foundPower hp (by omega) (by omega) hx hw hden hn found.1 found.2.1 found.2.2 rfl

/-- Plain arithmetic has the value that its evaluation finds. -/
theorem findsValues (fuel : ℕ) : FindsValues fuel := by
  induction fuel with
  | zero => exact fun _ _ _ _ _ h => absurd h (Nat.not_lt_zero _)
  | succ fuel ih =>
    intro prec x v hp hcap hfuel hv
    cases x with
    | num n =>
      cases n with
      | exact q =>
        simp only [Expr.plainValue?, Option.some.injEq] at hv
        subst hv
        refine Numeric.holds_real hp (by omega) (bitLength_round _ _ _) ?_
        refine (ofRat_near .towardZero prec q).mono ?_
        rw [lastBits_eq_zpow]
        exact zpow_le_zpow_right₀ one_le_two (by omega)
      | _ => simp [Expr.plainValue?] at hv
    | sum l => exact ih.sum hp hcap hfuel hv
    | prod l => exact ih.prod hp hcap hfuel hv
    | pow b e => exact ih.pow hp hcap hfuel hv
    | _ => simp [Expr.plainValue?] at hv

end Reckoner
