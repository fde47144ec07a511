-- Polynomials of the first degree in one variable, and their quotients by numbers in lowest terms.
import Mathlib
import Reckoner.Polynomial.Basic

namespace Reckoner

namespace Poly

/-! ## Polynomials of the first degree -/

/-- A number as a polynomial in one variable. -/
def number (w : ℚ) : Poly ℚ := [([0], w)]

/-- A polynomial of the first degree in one variable. -/
def linear (u v : ℚ) : Poly ℚ := ([1], u) :: if v = 0 then [] else number v

variable {u v w k : ℚ}

theorem linear_cases (u v : ℚ) :
    v = 0 ∧ linear u v = [([1], u)] ∨ v ≠ 0 ∧ linear u v = [([1], u), ([0], v)] := by
  by_cases h : v = 0
  · exact .inl ⟨h, by rw [linear, if_pos h]⟩
  · exact .inr ⟨h, by rw [linear, if_neg h]; rfl⟩

theorem scale_number (hk : k ≠ 0) (w : ℚ) : scale k (number w) = number (k * w) := if_neg hk

theorem scale_linear (hk : k ≠ 0) (u v : ℚ) : scale k (linear u v) = linear (k * u) (k * v) := by
  rcases linear_cases u v with ⟨rfl, eq⟩ | ⟨h, eq⟩
  · rw [eq, mul_zero, linear, if_pos rfl]
    exact if_neg hk
  · rw [eq, linear, if_neg (mul_ne_zero hk h)]
    exact if_neg hk

theorem foldl_gcd_ne_zero {n : ℕ} (hn : n ≠ 0) (l : List ℚ) :
    l.foldl (fun g c => Nat.gcd g c.num.natAbs) n ≠ 0 := by
  induction l generalizing n with
  | nil => exact hn
  | cons c l ih => exact ih (Nat.gcd_ne_zero_left hn)

theorem foldl_lcm_ne_zero {n : ℕ} (hn : n ≠ 0) (l : List ℚ) :
    l.foldl (fun d c => Nat.lcm d c.den) n ≠ 0 := by
  induction l generalizing n with
  | nil => exact hn
  | cons c l ih => exact ih (Nat.lcm_ne_zero hn c.den_ne_zero)

theorem rationalContent_ne_zero (hu : u ≠ 0) (l : List ℚ) : rationalContent (u :: l) ≠ 0 := by
  have top : Nat.gcd 0 u.num.natAbs ≠ 0 := by
    rw [Nat.gcd_zero_left]
    exact Int.natAbs_ne_zero.2 (Rat.num_ne_zero.2 hu)
  have g := foldl_gcd_ne_zero top l
  have d := foldl_lcm_ne_zero (Nat.lcm_ne_zero one_ne_zero u.den_ne_zero) l
  rw [rationalContent, List.foldl_cons, List.foldl_cons, Ne, Rat.mkRat_eq_zero d]
  exact_mod_cast g

theorem common_ne_zero (hu : u ≠ 0) (l : List ℚ) : Coefficient.common (u :: l) ≠ 0 := by
  change (if u < 0 then -rationalContent (u :: l) else rationalContent (u :: l)) ≠ 0
  split_ifs
  · exact neg_ne_zero.2 (rationalContent_ne_zero hu l)
  · exact rationalContent_ne_zero hu l

theorem rationalContent_singleton (w : ℚ) : rationalContent [w] = |w| := by
  change mkRat (Nat.gcd 0 w.num.natAbs) (Nat.lcm 1 w.den) = _
  rw [Nat.gcd_zero_left, Nat.lcm_one_left, Rat.mkRat_eq_div, Rat.abs_def]
  rw [Rat.divInt_eq_div]
  rfl

theorem normal_number (hw : w ≠ 0) : normal (number w) = number 1 := by
  have common : Coefficient.common [w] = w := by
    change (if w < 0 then -rationalContent [w] else rationalContent [w]) = w
    rw [rationalContent_singleton]
    split_ifs with h
    · rw [abs_of_neg h, neg_neg]
    · exact abs_of_nonneg (not_lt.1 h)
  change scale (1 / Coefficient.common [w]) (number w) = _
  rw [common]
  refine (scale_number (one_div_ne_zero hw) w).trans ?_
  rw [one_div_mul_cancel hw]

theorem normal_linear (hu : u ≠ 0) (v : ℚ) :
    ∃ k ≠ 0, normal (linear u v) = linear (k * u) (k * v) := by
  obtain ⟨l, coefficients⟩ : ∃ l, (linear u v).map Prod.snd = u :: l := by
    rcases linear_cases u v with ⟨-, eq⟩ | ⟨-, eq⟩ <;> exact ⟨_, by rw [eq]; rfl⟩
  have nonzero := one_div_ne_zero (common_ne_zero hu l)
  refine ⟨_, nonzero, ?_⟩
  have some : (linear u v).isEmpty = false := rfl
  rw [normal, some, coefficients]
  exact scale_linear nonzero u v

/-! ## Division -/

/-- A term and the opposite of it leave what follows. -/
theorem addTerm_cancel (e : Exponents) {c d : ℚ} (h : exponentsCmp e e = .eq) (sum : c + d = 0)
    (rest : Poly ℚ) : addTerm e c ((e, d) :: rest) = rest := by
  rw [addTerm, h]
  exact if_pos sum

theorem divExact_number (hw : w ≠ 0) (x : ℚ) :
    divExact? (number x) (number w) = some (number (x / w)) := by
  have rest : addTerm [0] (-(x / w * w)) [([0], x)] = [] :=
    addTerm_cancel [0] rfl (by rw [div_mul_cancel₀ _ hw, neg_add_cancel]) []
  have step : divExactAux [0] w (number w) 2 (number x) [] =
      divExactAux [0] w (number w) 1 (addTerm [0] (-(x / w * w)) [([0], x)]) [([0], x / w)] := rfl
  change divExactAux [0] w (number w) 2 (number x) [] = _
  rw [step, rest]
  rfl

theorem divExact_linear (hw : w ≠ 0) (u v : ℚ) :
    divExact? (linear u v) (number w) = some (linear (u / w) (v / w)) := by
  have first (rest : Poly ℚ) : addTerm [1] (-(u / w * w)) (([1], u) :: rest) = rest :=
    addTerm_cancel [1] rfl (by rw [div_mul_cancel₀ _ hw, neg_add_cancel]) rest
  have second : addTerm [0] (-(v / w * w)) [([0], v)] = [] :=
    addTerm_cancel [0] rfl (by rw [div_mul_cancel₀ _ hw, neg_add_cancel]) []
  have step (rest acc : Poly ℚ) (fuel : ℕ) :
      divExactAux [0] w (number w) (fuel + 1) (([1], u) :: rest) acc =
        divExactAux [0] w (number w) fuel (addTerm [1] (-(u / w * w)) (([1], u) :: rest))
          (([1], u / w) :: acc) := rfl
  have step' (acc : Poly ℚ) (fuel : ℕ) :
      divExactAux [0] w (number w) (fuel + 1) [([0], v)] acc =
        divExactAux [0] w (number w) fuel (addTerm [0] (-(v / w * w)) [([0], v)])
          (([0], v / w) :: acc) := rfl
  rcases linear_cases u v with ⟨rfl, eq⟩ | ⟨h, eq⟩
  · rw [eq, zero_div, linear, if_pos rfl]
    change divExactAux [0] w (number w) 3 [([1], u)] [] = _
    rw [step, first]
    rfl
  · rw [eq, linear, if_neg (div_ne_zero h hw)]
    change divExactAux [0] w (number w) 3 [([1], u), ([0], v)] [] = _
    rw [step, first, step', second]
    rfl

/-! ## Greatest common divisors -/

theorem mul_number_number (hw : w ≠ 0) {x : ℚ} (hx : x ≠ 0) :
    mul (number w) (number x) = number (w * x) := if_neg (mul_ne_zero hw hx)

theorem mul_number_linear (hw : w ≠ 0) (hu : u ≠ 0) (v : ℚ) :
    mul (number w) (linear u v) = linear (w * u) (w * v) := by
  have first : addTerm [1] (w * u) ([] : Poly ℚ) = [([1], w * u)] := if_neg (mul_ne_zero hw hu)
  rcases linear_cases u v with ⟨rfl, eq⟩ | ⟨h, eq⟩
  · rw [eq, mul_zero, linear, if_pos rfl]
    exact first
  · have second : addTerm [0] (w * v) ([] : Poly ℚ) = [([0], w * v)] := if_neg (mul_ne_zero hw h)
    have both : mul (number w) [([1], u), ([0], v)] =
        addTerm [0] (w * v) (addTerm [1] (w * u) []) := rfl
    have behind : addTerm [0] (w * v) [([1], w * u)] =
        ([1], w * u) :: addTerm [0] (w * v) [] := rfl
    rw [eq, linear, if_neg (mul_ne_zero hw h), both, first, behind, second]
    rfl

theorem leadFirst_linear (u v : ℚ) : leadFirst (linear u v) = number u := by
  rcases linear_cases u v with ⟨-, eq⟩ | ⟨-, eq⟩ <;> rw [eq] <;> rfl

/-- A step of the division by a number. -/
theorem pseudoRemainder_step (fuel : ℕ) (e : ℕ) (x : ℚ) (rest : Poly ℚ) :
    pseudoRemainder (number w) (fuel + 1) (([e], x) :: rest) =
      pseudoRemainder (number w) fuel (normal (sub (mul (number w) (([e], x) :: rest))
        (mulTerm [e] 1 (mul (leadFirst (([e], x) :: rest)) (number w))))) := rfl

/-- A remainder by a number is zero. -/
theorem pseudoRemainder_number (hw : w ≠ 0) (hu : u ≠ 0) (v : ℚ) :
    pseudoRemainder (number w) 2 (linear u v) = [] := by
  have first : sub (linear (w * u) (w * v)) (mulTerm [1] 1 (number (u * w))) =
      if w * v = 0 then [] else number (w * v) :=
    addTerm_cancel [1] rfl (by ring) _
  have second : sub (number (w * 1)) (mulTerm [0] 1 (number (1 * w))) = [] :=
    addTerm_cancel [0] rfl (by ring) []
  have product := mul_number_linear hw hu v
  have lead := leadFirst_linear u v
  rw [linear, pseudoRemainder_step]
  rw [linear] at product lead
  rw [product, lead, mul_number_number hu hw, first]
  by_cases h : w * v = 0
  · rw [if_pos h]
    rfl
  · have one : leadFirst (number 1) = number 1 := rfl
    rw [if_neg h, normal_number h]
    refine (pseudoRemainder_step 0 0 1 []).trans ?_
    rw [← number, one, mul_number_number hw one_ne_zero, mul_number_number one_ne_zero hw, second]
    rfl

/-- A polynomial of the first degree and a number have no common divisor. -/
theorem gcd_number (hu : u ≠ 0) (v : ℚ) : gcd (linear u v) (number 1) = number 1 := by
  obtain ⟨k, hk, normal⟩ := normal_linear hu v
  have whole : divExact? (linear u v) (number 1) = some (linear u v) := by
    rw [divExact_linear one_ne_zero, div_one, div_one]
  have unit : divExact? (number 1) (number 1) = some (number 1) := by
    rw [divExact_number one_ne_zero, div_one]
  have last : Poly.normal (number 1) = number 1 := normal_number one_ne_zero
  have nothing : pseudoRemainder (number 1) 2 (linear (k * u) (k * v)) = [] :=
    pseudoRemainder_number one_ne_zero (mul_ne_zero hk hu) _
  have content : (byFirst (linear u v)).foldl (fun g p => gcdAux 0 g p.2) [] = [([], 1)] := by
    rcases linear_cases u v with ⟨-, eq⟩ | ⟨-, eq⟩ <;> rw [eq] <;> rfl
  change gcdAux 1 (linear u v) (number 1) = _
  have some : (linear u v).isEmpty = false := rfl
  have some' : (number 1).isEmpty = false := rfl
  have content' : (byFirst (number 1)).foldl (fun g p => gcdAux 0 g p.2) [] = [([], 1)] := rfl
  have common : lift 0 [([], (1 : ℚ))] = number 1 := rfl
  have order : ¬ degree (linear (k * u) (k * v)) < degree (number 1) := Nat.not_lt_zero 1
  have chain {strip : Poly ℚ → Poly ℚ} (empty : strip [] = []) :
      remainderChain strip (degree (number 1) + 2) (linear (k * u) (k * v)) (number 1) =
        number 1 := by
    change remainderChain strip 1 (number 1)
      (strip (pseudoRemainder (number 1) 2 (linear (k * u) (k * v)))) = _
    rw [nothing, empty]
    rfl
  have product :
      mul (lift 0 (gcdAux 0 [([], (1 : ℚ))] [([], 1)])) (constant (0 + 1) 1) = number 1 := by
    have one : constant (0 + 1) (1 : ℚ) = number 1 := if_neg one_ne_zero
    rw [one]
    exact (mul_number_number one_ne_zero one_ne_zero).trans (by rw [mul_one])
  have constant : degree (number 1) = 0 := rfl
  rw [gcdAux]
  simp only [some, some', Bool.false_eq_true, if_false, content, content', common, whole, unit,
    Option.getD_some, normal, last, if_neg order]
  rw [chain rfl, if_pos constant, product, last]

theorem content_whole {a : ℤ} (ha : a ≠ 0) (b : ℤ) :
    ∃ g : ℕ, g ≠ 0 ∧ content (linear (a : ℚ) b) = g := by
  have nonzero : (a : ℚ) ≠ 0 := by exact_mod_cast ha
  have ne := rationalContent_ne_zero nonzero
  rcases linear_cases (a : ℚ) b with ⟨-, eq⟩ | ⟨-, eq⟩
  · have number : rationalContent [(a : ℚ)] = (Nat.gcd 0 a.natAbs : ℕ) := by
      change mkRat (Nat.gcd 0 (a : ℚ).num.natAbs : ℕ) (Nat.lcm 1 (a : ℚ).den) = _
      rw [Rat.num_intCast, Rat.den_intCast, Nat.lcm_self]
      exact Rat.mkRat_one _
    refine ⟨_, fun h => ne [] ?_, by rw [eq]; exact number⟩
    rw [number, h, Nat.cast_zero]
  · have number : rationalContent [(a : ℚ), b] = (Nat.gcd (Nat.gcd 0 a.natAbs) b.natAbs : ℕ) := by
      change mkRat (Nat.gcd (Nat.gcd 0 (a : ℚ).num.natAbs) (b : ℚ).num.natAbs : ℕ)
        (Nat.lcm (Nat.lcm 1 (a : ℚ).den) (b : ℚ).den) = _
      simp only [Rat.num_intCast, Rat.den_intCast, Nat.lcm_self]
      exact Rat.mkRat_one _
    refine ⟨_, fun h => ne [(b : ℚ)] ?_, by rw [eq]; exact number⟩
    rw [number, h, Nat.cast_zero]

/-- A polynomial of the first degree with whole coefficients is in lowest terms over one. -/
theorem reduce_linear {a : ℤ} (ha : a ≠ 0) (b : ℤ) :
    reduce (linear a b) (number 1) = (linear a b, number 1) := by
  have nonempty : (linear (a : ℚ) b).isEmpty = false := rfl
  have nonempty' : (number 1).isEmpty = false := rfl
  have whole : divExact? (linear (a : ℚ) b) (number 1) = some (linear a b) := by
    rw [divExact_linear one_ne_zero, div_one, div_one]
  have unit : divExact? (number 1) (number 1) = some (number 1) := by
    rw [divExact_number one_ne_zero, div_one]
  obtain ⟨g, hg, content⟩ := content_whole ha b
  have nonzero : (g : ℚ) ≠ 0 := by exact_mod_cast hg
  have content' : Poly.content (number 1) = 1 := rationalContent_singleton 1
  have above : scale ((g : ℚ).num : ℚ) (scale (1 / (g : ℚ)) (linear (a : ℚ) b)) = linear a b := by
    rw [Rat.num_natCast, Int.cast_natCast, scale_linear (one_div_ne_zero nonzero),
      scale_linear nonzero]
    congr 1 <;> field_simp
  have below : scale ((g : ℚ).den : ℚ) (scale 1 (number 1)) = number 1 := by
    rw [Rat.den_natCast, Nat.cast_one, scale_number one_ne_zero, mul_one, scale_number one_ne_zero,
      mul_one]
  have lead : ¬ lead (number 1) < 0 := by
    change ¬ (1 : ℚ) < 0
    norm_num
  have ha' : (a : ℚ) ≠ 0 := by exact_mod_cast ha
  unfold reduce
  simp only [nonempty, Bool.false_eq_true, if_false, gcd_number ha', whole, unit, Option.getD_some,
    primitive, nonempty', content, content', div_one, above, below,
    if_neg lead]

end Poly

end Reckoner
