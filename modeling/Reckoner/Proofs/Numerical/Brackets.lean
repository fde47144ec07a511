-- The brackets of a search by halving. The search ends at the first bracket whose middle is close to
-- a root or whose half is narrow; where nothing is rounded, each bracket holds a change of sign.
import Reckoner.Proofs.Numerical.ExactValue
import Reckoner.Proofs.Numerical.Roots

namespace Reckoner

namespace Numerical

section Halving

variable (f : RealFunction) (a b tolerance : Value)

/-! ## Brackets -/

/-- The half of a bracket on the side of its middle where the function changes its sign. -/
def nextBracket (bracket : Bracket) : Except ValueFault Bracket := do
  let middle ← bracket.middle
  let product ← (← f bracket.left).mul (← f middle)
  return bracket.half middle (← product.less (.whole 0))

/-- The brackets of the search, if nothing stops it. -/
def bracketAt : ℕ → Except ValueFault Bracket
  | 0 => .ok ⟨a, b⟩
  | i + 1 => do nextBracket f (← bracketAt i)

/-- The middle of a bracket. -/
def middleAt (i : ℕ) : Except ValueFault Value := do (← bracketAt f a b i).middle

/-- Whether the function is close to zero in the middle of a bracket. -/
def nearAt (i : ℕ) : Except ValueFault Bool := do
  isWithin (← f (← middleAt f a b i)) tolerance

/-- Whether the bracket that comes after one is narrower than the tolerance. -/
def narrowAt (i : ℕ) : Except ValueFault Bool := do
  isWithin (← (← bracketAt f a b (i + 1)).width) tolerance

/-- The line for a bracket. -/
def bracketLine (i : ℕ) : Except ValueFault String := do
  let bracket ← bracketAt f a b i
  let middle ← bracket.middle
  bracket.line i middle (← f middle)

/-- The search comes to a bracket: no middle before was near a root, and no half was narrow. -/
abbrev HalvesTo (i : ℕ) : Prop :=
  RunsTo (nearAt f a b tolerance) (narrowAt f a b tolerance) i

/-! ## Ends of the search -/

variable {f a b tolerance} {limit : Value} {s : Solution} {i : ℕ}

variable (f a b tolerance limit) in
/-- How a search ends that may take so many iterations, and how many of them it takes. -/
inductive BisectionEnds (n : ℕ) (s : Solution) : ℕ → Prop
  | near {i : ℕ} {m : Value} : i < n → HalvesTo f a b tolerance i →
    nearAt f a b tolerance i = .ok true → middleAt f a b i = .ok m →
    FindsRoot s "bisection" f tolerance m (i + 1) → BisectionEnds n s (i + 1)
  | narrow {i : ℕ} {m : Value} : i < n → HalvesTo f a b tolerance i →
    nearAt f a b tolerance i ≠ .ok true → narrowAt f a b tolerance i = .ok true →
    middleAt f a b (i + 1) = .ok m → FindsRoot s "bisection" f tolerance m (i + 1) →
    BisectionEnds n s (i + 1)
  | usedUp {m : Value} : HalvesTo f a b tolerance n → middleAt f a b n = .ok m →
    Fails s "bisection" "Max iterations reached" [("iterations", limit), ("last_value", m)] →
    BisectionEnds n s n

/-- The iterations that are left end the search as the sequence of brackets tells. -/
theorem bisectFrom_ends {first : String} :
    ∀ {left i : ℕ} {bracket : Bracket} {lines : List String}, HalvesTo f a b tolerance i →
      bracketAt f a b i = .ok bracket → Traces (bracketLine f a b) i lines →
      bisectFrom f tolerance limit left i bracket (first :: lines) = .ok s →
      ∃ taken lines, BisectionEnds f a b tolerance limit (i + left) s taken ∧
        Traces (bracketLine f a b) taken lines ∧ s.steps = first :: lines
  | 0, i, bracket, lines, goes, hb, traced, h => by
    obtain ⟨m, hm, h⟩ := bind_eq_ok_iff.1 h
    cases h
    have middle : middleAt f a b i = .ok m := by rw [middleAt, hb, ok_bind, hm]
    exact ⟨i, lines, .usedUp goes middle (fails_failure ..), traced, rfl⟩
  | left + 1, i, bracket, lines, goes, hb, traced, h => by
    obtain ⟨m, hm, h⟩ := bind_eq_ok_iff.1 h
    obtain ⟨value, hvalue, h⟩ := bind_eq_ok_iff.1 h
    obtain ⟨line, hline, h⟩ := bind_eq_ok_iff.1 h
    obtain ⟨near, hnear, h⟩ := bind_eq_ok_iff.1 h
    have middle : middleAt f a b i = .ok m := by rw [middleAt, hb, ok_bind, hm]
    have nearness : nearAt f a b tolerance i = .ok near := by
      rw [nearAt, middle, ok_bind, hvalue, ok_bind, hnear]
    have written : bracketLine f a b i = .ok line := by
      rw [bracketLine, hb, ok_bind, hm, ok_bind, hvalue, ok_bind, hline]
    cases near with
    | true =>
      obtain ⟨found, hsteps⟩ := findsRoot_of_rootFound h
      exact ⟨i + 1, _, .near (by omega) goes nearness middle found, traced.concat written, hsteps⟩
    | false =>
      rw [if_neg Bool.false_ne_true] at h
      obtain ⟨leftValue, hleft, h⟩ := bind_eq_ok_iff.1 h
      obtain ⟨product, hproduct, h⟩ := bind_eq_ok_iff.1 h
      obtain ⟨onLeft, hon, h⟩ := bind_eq_ok_iff.1 h
      obtain ⟨width, hwidth, h⟩ := bind_eq_ok_iff.1 h
      obtain ⟨narrow, hnarrow, h⟩ := bind_eq_ok_iff.1 h
      have far : nearAt f a b tolerance i ≠ .ok true := by simp [nearness]
      have next : bracketAt f a b (i + 1) = .ok (bracket.half m onLeft) := by
        rw [bracketAt, hb, ok_bind, nextBracket, hm, ok_bind, hleft, ok_bind, hvalue, ok_bind,
          hproduct, ok_bind, hon]
        rfl
      have narrowness : narrowAt f a b tolerance i = .ok narrow := by
        rw [narrowAt, next, ok_bind, hwidth, ok_bind, hnarrow]
      cases narrow with
      | true =>
        obtain ⟨root, hroot, h⟩ := bind_eq_ok_iff.1 h
        obtain ⟨found, hsteps⟩ := findsRoot_of_rootFound h
        have halved : middleAt f a b (i + 1) = .ok root := by rw [middleAt, next, ok_bind, hroot]
        exact ⟨i + 1, _, .narrow (by omega) goes far narrowness halved found,
          traced.concat written, hsteps⟩
      | false =>
        have goes := goes.succ far (by simp [narrowness])
        rw [show i + (left + 1) = i + 1 + left by omega]
        exact bisectFrom_ends goes next (traced.concat written) h

/-! ## Brackets without rounding -/

/-- The exact value that a computation returns. -/
def exactOf? (m : Except ValueFault Value) : Option ℚ := m.toOption.bind exactValue?

theorem exactOf?_eq_some_iff {m : Except ValueFault Value} {q : ℚ} :
    exactOf? m = some q ↔ ∃ v, m = .ok v ∧ exactValue? v = some q := by
  cases m with
  | ok v => exact ⟨fun h => ⟨v, rfl, h⟩, fun ⟨_, hv, h⟩ => Except.ok.inj hv ▸ h⟩
  | error e => exact ⟨nofun, nofun⟩

/-- A bracket with exact ends, at which the function has exact values of opposite signs. -/
structure Encloses (f : RealFunction) (bracket : Bracket) (l r x y : ℚ) : Prop where
  left : exactValue? bracket.left = some l
  right : exactValue? bracket.right = some r
  left_value : exactOf? (f bracket.left) = some x
  right_value : exactOf? (f bracket.right) = some y
  opposite : x * y < 0

/-- A bracket is halved without rounding: its middle lies half way between its ends, the function has
exact values at the left end and in the middle, and their product is exact. -/
def HalvesExactly (f : RealFunction) (bracket : Bracket) : Prop :=
  ∃ l r x z, exactValue? bracket.left = some l ∧ exactValue? bracket.right = some r ∧
    exactOf? bracket.middle = some ((l + r) / 2) ∧ exactOf? (f bracket.left) = some x ∧
    exactOf? (do f (← bracket.middle)) = some z ∧
    exactOf? (do (← f bracket.left).mul (← f (← bracket.middle))) = some (x * z)

/-- A bracket that holds a change of sign is halved into one that does, unless the function is close
to zero in its middle: where it is not, it is not zero there, and so the change is on one side. -/
theorem Encloses.next {bracket : Bracket} {l r x y : ℚ} (h : Encloses f bracket l r x y)
    (halves : HalvesExactly f bracket) (positive : (Value.whole 0).less tolerance = .ok true)
    (far : (do isWithin (← f (← bracket.middle)) tolerance) ≠ .ok true) :
    ∃ half l' r' x' y', nextBracket f bracket = .ok half ∧ Encloses f half l' r' x' y' ∧
      r' - l' = (r - l) / 2 := by
  obtain ⟨_, _, _, z, hl, hr, hmiddle, hx, hz, hproduct⟩ := halves
  cases h.left.symm.trans hl
  cases h.right.symm.trans hr
  cases h.left_value.symm.trans hx
  obtain ⟨m, hm, hmid⟩ := exactOf?_eq_some_iff.1 hmiddle
  obtain ⟨fx, hfx, -⟩ := exactOf?_eq_some_iff.1 hx
  rw [hm, ok_bind] at hz
  obtain ⟨fz, hfz, hfz'⟩ := exactOf?_eq_some_iff.1 hz
  simp only [hm, hfx, hfz, ok_bind] at hproduct far
  obtain ⟨product, hp, hp'⟩ := exactOf?_eq_some_iff.1 hproduct
  obtain ⟨onLeft, hon, side⟩ := less_zero_iff hp'
  have next : nextBracket f bracket = .ok (bracket.half m onLeft) := by
    rw [nextBracket, hm, ok_bind, hfx, ok_bind, hfz, ok_bind, hp, ok_bind, hon]
    rfl
  have apart : z ≠ 0 := by
    rintro rfl
    exact far (isWithin_of_zero hfz' positive)
  cases onLeft with
  | true =>
    refine ⟨_, l, (l + r) / 2, x, z, next, ⟨h.left, hmid, hx, hz, side.1 rfl⟩, by ring⟩
  | false =>
    have same : 0 ≤ x * z := not_lt.1 fun negative => Bool.false_ne_true (side.2 negative)
    have opposite : z * y < 0 := by
      have strict : 0 < x * z :=
        same.lt_of_ne' (mul_ne_zero (left_ne_zero_of_mul h.opposite.ne) apart)
      have squared : x * x * (z * y) < 0 := by
        calc x * x * (z * y) = x * y * (x * z) := by ring
          _ < 0 := mul_neg_of_neg_of_pos h.opposite strict
      by_contra nonneg
      exact squared.not_ge (mul_nonneg (mul_self_nonneg x) (not_lt.1 nonneg))
    exact ⟨_, (l + r) / 2, r, z, y, next, ⟨hmid, h.right, hz, h.right_value, opposite⟩, by ring⟩

theorem nearAt_eq {bracket : Bracket} (h : bracketAt f a b i = .ok bracket) :
    nearAt f a b tolerance i = (do isWithin (← f (← bracket.middle)) tolerance) := by
  rw [nearAt, middleAt, h]
  rfl

variable (f a b tolerance) in
/-- Nothing is rounded in the iterations before a bracket, and they leave the function apart from
zero. -/
def ExactlyHalvesTo (i : ℕ) : Prop :=
  ∀ j < i, nearAt f a b tolerance j ≠ .ok true ∧
    ∃ bracket, bracketAt f a b j = .ok bracket ∧ HalvesExactly f bracket

/-- Where nothing is rounded, a bracket of the search holds a change of sign. -/
theorem encloses_bracketAt {l r x y : ℚ} (start : Encloses f ⟨a, b⟩ l r x y)
    (positive : (Value.whole 0).less tolerance = .ok true)
    (unrounded : ExactlyHalvesTo f a b tolerance i) :
    ∃ bracket l' r' x' y', bracketAt f a b i = .ok bracket ∧ Encloses f bracket l' r' x' y' := by
  induction i with
  | zero => exact ⟨_, l, r, x, y, rfl, start⟩
  | succ i ih =>
    obtain ⟨far, _, hb, halves⟩ := unrounded i (Nat.lt_succ_self i)
    obtain ⟨bracket, l', r', x', y', hb', encloses⟩ := ih fun j hj => unrounded j (by omega)
    cases hb'.symm.trans hb
    rw [nearAt_eq hb] at far
    obtain ⟨half, l', r', x', y', hnext, encloses, -⟩ := encloses.next halves positive far
    exact ⟨half, l', r', x', y', by rw [bracketAt, hb, ok_bind, hnext], encloses⟩

/-- Where nothing is rounded, a bracket has half the width of the one before. -/
theorem halves_bracketAt {l r x y : ℚ} (start : Encloses f ⟨a, b⟩ l r x y)
    (positive : (Value.whole 0).less tolerance = .ok true)
    (unrounded : ExactlyHalvesTo f a b tolerance (i + 1)) :
    ∃ bracket half l r x y l' r' x' y', bracketAt f a b i = .ok bracket ∧
      Encloses f bracket l r x y ∧ bracketAt f a b (i + 1) = .ok half ∧
      Encloses f half l' r' x' y' ∧ r' - l' = (r - l) / 2 := by
  obtain ⟨far, bracket, hb, halves⟩ := unrounded i (Nat.lt_succ_self i)
  have before : ExactlyHalvesTo f a b tolerance i := fun j hj => unrounded j (by omega)
  obtain ⟨_, l, r, x, y, hb', encloses⟩ := encloses_bracketAt start positive before
  cases hb.symm.trans hb'
  rw [nearAt_eq hb] at far
  obtain ⟨half, l', r', x', y', hnext, encloses', width⟩ := encloses.next halves positive far
  exact ⟨bracket, half, l, r, x, y, l', r', x', y', hb, encloses,
    by rw [bracketAt, hb, ok_bind, hnext], encloses', width⟩

/-! ## Solutions -/

section Ends

variable {n taken : ℕ} (h : BisectionEnds f a b tolerance limit n s taken)

include h

theorem BisectionEnds.of_near (goes : HalvesTo f a b tolerance i) (hi : i < n)
    (near : nearAt f a b tolerance i = .ok true) : taken = i + 1 ∧
      ∃ m, middleAt f a b i = .ok m ∧ FindsRoot s "bisection" f tolerance m (i + 1) := by
  cases h with
  | near _ goes' near' hm found =>
    obtain rfl := goes.eq (.inl near) goes' (.inl near')
    exact ⟨rfl, _, hm, found⟩
  | narrow _ goes' far narrow =>
    obtain rfl := goes.eq (.inl near) goes' (.inr narrow)
    exact absurd near far
  | usedUp goes' => exact absurd (goes'.le (.inl near)) (by omega)

theorem BisectionEnds.of_narrow (goes : HalvesTo f a b tolerance i) (hi : i < n)
    (far : nearAt f a b tolerance i ≠ .ok true)
    (narrow : narrowAt f a b tolerance i = .ok true) : taken = i + 1 ∧
      ∃ m, middleAt f a b (i + 1) = .ok m ∧ FindsRoot s "bisection" f tolerance m (i + 1) := by
  cases h with
  | near _ goes' near =>
    obtain rfl := goes.eq (.inr narrow) goes' (.inl near)
    exact absurd near far
  | narrow _ goes' _ narrow' hm found =>
    obtain rfl := goes.eq (.inr narrow) goes' (.inr narrow')
    exact ⟨rfl, _, hm, found⟩
  | usedUp goes' => exact absurd (goes'.le (.inr narrow)) (by omega)

theorem BisectionEnds.of_usedUp (goes : HalvesTo f a b tolerance n) : taken = n ∧
    ∃ m, middleAt f a b n = .ok m ∧ Fails s "bisection" "Max iterations reached"
      [("iterations", limit), ("last_value", m)] := by
  cases h with
  | near hi _ near => exact absurd (goes.le (.inl near)) (by omega)
  | narrow hi _ _ narrow => exact absurd (goes.le (.inr narrow)) (by omega)
  | usedUp _ hm fails => exact ⟨rfl, _, hm, fails⟩

end Ends

/-- A search by halving fails at once without a change of sign. Else it ends at the first bracket with
a middle close to a root or with a narrow half, or after the last one, and has a line for each of them
behind the one for the start. Where nothing is rounded, all of these brackets hold a change of sign,
and each has half the width of the one before. -/
theorem bisection_follows_its_brackets (returned : bisection f a b tolerance limit = .ok s) :
    ∃ fa fb product, f a = .ok fa ∧ f b = .ok fb ∧ fa.mul fb = .ok product ∧
      (product.atLeast (.whole 0) = .ok true →
        Fails s "bisection" "Function must have opposite signs at endpoints"
          [("iterations", .whole 0)] ∧ s.steps = []) ∧
      (product.atLeast (.whole 0) ≠ .ok true →
        (∃ n first lines, limit.toCount = .ok n ∧
          Value.line ["Starting Bisection Method with [", a, ", ", b, "]"] = .ok first ∧
          s.steps = first :: lines ∧ Traces (bracketLine f a b) lines.length lines ∧
          (∀ i < n, HalvesTo f a b tolerance i → nearAt f a b tolerance i = .ok true →
            s.steps.length = i + 2 ∧
              ∃ m, middleAt f a b i = .ok m ∧ FindsRoot s "bisection" f tolerance m (i + 1)) ∧
          (∀ i < n, HalvesTo f a b tolerance i → nearAt f a b tolerance i ≠ .ok true →
            narrowAt f a b tolerance i = .ok true → s.steps.length = i + 2 ∧
              ∃ m, middleAt f a b (i + 1) = .ok m ∧
                FindsRoot s "bisection" f tolerance m (i + 1)) ∧
          (HalvesTo f a b tolerance n → s.steps.length = n + 1 ∧
            ∃ m, middleAt f a b n = .ok m ∧ Fails s "bisection" "Max iterations reached"
              [("iterations", limit), ("last_value", m)])) ∧
        ∀ l r x y, exactValue? a = some l → exactValue? b = some r → exactValue? fa = some x →
          exactValue? fb = some y → exactValue? product = some (x * y) →
          (Value.whole 0).less tolerance = .ok true →
          (∀ i, ExactlyHalvesTo f a b tolerance i → ∃ bracket l r x y,
            bracketAt f a b i = .ok bracket ∧ Encloses f bracket l r x y) ∧
          ∀ i, ExactlyHalvesTo f a b tolerance (i + 1) → ∃ bracket half l r x y l' r' x' y',
            bracketAt f a b i = .ok bracket ∧ Encloses f bracket l r x y ∧
            bracketAt f a b (i + 1) = .ok half ∧ Encloses f half l' r' x' y' ∧
            r' - l' = (r - l) / 2) := by
  obtain ⟨fa, hfa, returned⟩ := bind_eq_ok_iff.1 returned
  obtain ⟨fb, hfb, returned⟩ := bind_eq_ok_iff.1 returned
  obtain ⟨product, hproduct, returned⟩ := bind_eq_ok_iff.1 returned
  obtain ⟨same, hsame, returned⟩ := bind_eq_ok_iff.1 returned
  refine ⟨fa, fb, product, hfa, hfb, hproduct, ?_⟩
  cases same with
  | true =>
    cases returned
    exact ⟨fun _ => ⟨fails_failure .., rfl⟩, fun different => absurd hsame different⟩
  | false =>
    rw [if_neg Bool.false_ne_true] at returned
    obtain ⟨first, hfirst, returned⟩ := bind_eq_ok_iff.1 returned
    obtain ⟨n, hn, returned⟩ := bind_eq_ok_iff.1 returned
    obtain ⟨taken, lines, ends, traced, steps⟩ :=
      bisectFrom_ends (runsTo_zero _ _) rfl (traces_nil _) returned
    rw [Nat.zero_add] at ends
    obtain rfl := traced.length_eq
    have length : s.steps.length = lines.length + 1 := by rw [steps, List.length_cons]
    refine ⟨by simp [hsame], fun different => ⟨⟨n, first, lines, hn, hfirst, steps, traced,
      fun i hi goes near => ?_, fun i hi goes far narrow => ?_, fun goes => ?_⟩, ?_⟩⟩
    · obtain ⟨count, found⟩ := ends.of_near goes hi near
      exact ⟨by omega, found⟩
    · obtain ⟨count, found⟩ := ends.of_narrow goes hi far narrow
      exact ⟨by omega, found⟩
    · obtain ⟨count, fails⟩ := ends.of_usedUp goes
      exact ⟨by omega, fails⟩
    · intro l r x y hl hr hx hy hxy positive
      have opposite : x * y < 0 := by
        by_contra nonneg
        exact different ((atLeast_zero_iff hxy).2 (not_lt.1 nonneg))
      have start : Encloses f ⟨a, b⟩ l r x y := ⟨hl, hr, exactOf?_eq_some_iff.2 ⟨fa, hfa, hx⟩,
        exactOf?_eq_some_iff.2 ⟨fb, hfb, hy⟩, opposite⟩
      exact ⟨fun i => encloses_bracketAt start positive, fun i => halves_bracketAt start positive⟩

/-- Between zero and four, the second middle is the root of a number less one. -/
theorem a_line_is_halved_to_its_root :
    ∃ s, bisection (fun x => x.sub (.whole 1)) (.whole 0) (.whole 4) (0.5 : Float) (.whole 5) =
        .ok s ∧ s.steps.length = 3 ∧
      FindsRoot s "bisection" (fun x => x.sub (.whole 1)) (0.5 : Float) (1 : Float) 2 ∧
      ∃ half l' r' x' y', bracketAt (fun x => x.sub (.whole 1)) (.whole 0) (.whole 4) 1 = .ok half ∧
        Encloses (fun x => x.sub (.whole 1)) half l' r' x' y' ∧ r' - l' = 2 := by
  have returns : (bisection (fun x => x.sub (.whole 1)) (.whole 0) (.whole 4) (0.5 : Float)
      (.whole 5)).isOk = true := by decide +kernel
  obtain ⟨s, hs⟩ := exists_of_isOk returns
  obtain ⟨fa, fb, product, hfa, hfb, hp, -, different⟩ := bisection_follows_its_brackets hs
  cases hfa
  cases hfb
  cases hp
  have negative : (Value.whole (-3)).atLeast (.whole 0) ≠ .ok true := by
    rw [show (Value.whole (-3)).atLeast (.whole 0) = .ok false from rfl]
    simp
  obtain ⟨⟨n, _, _, hn, -, -, -, near, -⟩, unrounded⟩ := different negative
  cases hn
  have start_goes_on : nearAt (fun x => x.sub (.whole 1)) (.whole 0) (.whole 4) (0.5 : Float) 0 =
      .ok false ∧ narrowAt (fun x => x.sub (.whole 1)) (.whole 0) (.whole 4) (0.5 : Float) 0 =
      .ok false := ⟨rfl, rfl⟩
  have found := near 1 (by decide) ?_ rfl
  · obtain ⟨steps, m, hm, found⟩ := found
    cases hm
    have halves : HalvesExactly (fun x => x.sub (.whole 1)) ⟨.whole 0, .whole 4⟩ :=
      ⟨0, 4, -1, 1, rfl, rfl, by decide +kernel, rfl, by decide +kernel, by decide +kernel⟩
    obtain ⟨bracket, half, l, r, x, y, l', r', x', y', hb, encloses, hhalf, encloses', width⟩ :=
      (unrounded 0 4 (-1) 3 rfl rfl rfl rfl (by decide +kernel) rfl).2 0 fun j hj => by
        obtain rfl : j = 0 := by omega
        exact ⟨by simp [start_goes_on], _, rfl, halves⟩
    cases hb
    cases encloses.left
    cases encloses.right
    exact ⟨s, hs, steps, found, half, l', r', x', y', hhalf, encloses', by rw [width]; norm_num⟩
  · intro j hj
    obtain rfl : j = 0 := by omega
    simp [start_goes_on]

end Halving

end Numerical

end Reckoner
