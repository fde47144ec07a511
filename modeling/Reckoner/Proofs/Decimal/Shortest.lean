-- The shortest decimal of a double. Every decimal in the interval of a double is rounded to it, and
-- a decimal of seventeen digits always lies there, so the one that is found reads back.
import Reckoner.Proofs.Decimal.Parts

namespace Reckoner

open Double

/-! ## Exact comparisons -/

theorem zpow_mul_toNat_neg {b : ℚ} (hb : b ≠ 0) (i : ℤ) : b ^ i * b ^ (-i).toNat = b ^ i.toNat := by
  rw [← zpow_natCast, ← zpow_natCast, ← zpow_add₀ hb]
  congr 1
  omega

theorem compare_map {α β : Type} [LinearOrder α] [LinearOrder β] {f : α → β} (hf : StrictMono f)
    (a b : α) : compare (f a) (f b) = compare a b := by
  rw [← cmp_eq_compare, ← cmp_eq_compare, hf.cmp_map_eq]

/-- A decimal and a number of units are compared by their exact values. -/
theorem compareScaled_eq (a : ℕ) (i : ℤ) (n : ℕ) (j : ℤ) :
    compareScaled a i n j = compare ((a : ℚ) * 10 ^ i) (n * 2 ^ j) := by
  have scale : (0 : ℚ) < 10 ^ (-i).toNat * 2 ^ (-j).toNat := by positivity
  have left : (a : ℚ) * 10 ^ i * (10 ^ (-i).toNat * 2 ^ (-j).toNat) =
      (a * 10 ^ i.toNat * 2 ^ (-j).toNat : ℕ) := by
    push_cast
    rw [← zpow_mul_toNat_neg (by norm_num) i]
    ring
  have right : (n : ℚ) * 2 ^ j * (10 ^ (-i).toNat * 2 ^ (-j).toNat) =
      (n * 2 ^ j.toNat * 10 ^ (-i).toNat : ℕ) := by
    push_cast
    rw [← zpow_mul_toNat_neg two_ne_zero j]
    ring
  unfold compareScaled
  generalize a * 10 ^ i.toNat * 2 ^ (-j).toNat = l at left ⊢
  generalize n * 2 ^ j.toNat * 10 ^ (-i).toNat = r at right ⊢
  rw [← compare_map (strictMono_mul_right_of_pos scale), left, right]
  exact (compare_map Nat.strictMono_cast l r).symm

/-! ## The interval of a double -/

namespace DoubleParts

variable {d : DoubleParts} {u : ℚ}

/-- How far the interval reaches below the digits, in units. -/
def reach (d : DoubleParts) : ℚ := if d.narrowBelow then 1 / 4 else 1 / 2

/-- The numbers of units between a double and its neighbours that are closest to it. The ends of the
interval belong to it where the digits are even. -/
structure Takes (d : DoubleParts) (u : ℚ) : Prop where
  low : d.man - d.reach ≤ u
  high : u ≤ d.man + 1 / 2
  ends : d.man % 2 ≠ 0 → d.man - d.reach < u ∧ u < d.man + 1 / 2

theorem reach_le (d : DoubleParts) : d.reach ≤ 1 / 2 := by
  unfold reach
  split_ifs <;> norm_num

/-- What lies strictly inside of the interval belongs to it. -/
theorem takes_of_lt (low : d.man - d.reach < u) (high : u < d.man + 1 / 2) : d.Takes u :=
  ⟨low.le, high.le, fun _ => ⟨low, high⟩⟩

theorem readsBack_iff (h0 : 0 < d.man) (digits : ℕ) (place : ℤ) :
    d.readsBack digits place = true ↔ d.Takes ((digits : ℚ) * 10 ^ place / 2 ^ d.exp) := by
  have unit : (0 : ℚ) < 2 ^ d.exp := two_zpow_pos _
  have scale : StrictMono fun p : ℚ => p * 2 ^ d.exp := strictMono_mul_right_of_pos unit
  have quarter : (2 : ℚ) ^ (d.exp - 2) = 2 ^ d.exp / 4 := by
    rw [zpow_sub₀ two_ne_zero]
    norm_num
  have below : (((if d.narrowBelow then 4 * d.man - 1 else 4 * d.man - 2 : ℕ) : ℕ) : ℚ) *
      2 ^ (d.exp - 2) = (d.man - d.reach) * 2 ^ d.exp := by
    unfold reach
    rw [quarter]
    split_ifs
    · rw [Nat.cast_sub (by omega)]
      push_cast
      ring
    · rw [Nat.cast_sub (by omega)]
      push_cast
      ring
  have above : ((4 * d.man + 2 : ℕ) : ℚ) * 2 ^ (d.exp - 2) = (d.man + 1 / 2) * 2 ^ d.exp := by
    rw [quarter]
    push_cast
    ring
  unfold readsBack
  dsimp only
  rw [compareScaled_eq, compareScaled_eq, below, above]
  generalize (digits : ℚ) * 10 ^ place = v
  obtain ⟨u, rfl⟩ : ∃ u, v = u * 2 ^ d.exp := ⟨v / 2 ^ d.exp, (div_mul_cancel₀ v unit.ne').symm⟩
  rw [mul_div_cancel_right₀ u unit.ne']
  rw [compare_map scale, compare_map scale]
  simp only [Bool.and_eq_true, Bool.or_eq_true, beq_iff_eq, compare_gt_iff_gt, compare_lt_iff_lt,
    compare_eq_iff_eq]
  constructor
  · rintro ⟨low, high⟩
    refine ⟨?_, ?_, fun odd => ⟨?_, ?_⟩⟩
    · exact low.elim le_of_lt fun h => h.2.ge
    · exact high.elim le_of_lt fun h => h.2.le
    · exact low.resolve_right fun h => odd h.1
    · exact high.resolve_right fun h => odd h.1
  · intro h
    by_cases even : d.man % 2 = 0
    · exact ⟨h.low.lt_or_eq.imp_right fun eq => ⟨even, eq.symm⟩,
        h.high.lt_or_eq.imp_right fun eq => ⟨even, eq⟩⟩
    · exact ⟨.inl (h.ends even).1, .inl (h.ends even).2⟩

theorem Takes.nearest (h : d.Takes u) : IsNearest d.man u := by
  obtain ⟨low, high, ends⟩ := h
  have reach := d.reach_le
  refine ⟨abs_le.2 ⟨by linarith, by linarith⟩, fun middle => ?_⟩
  by_contra odd
  obtain ⟨low, high⟩ := ends odd
  rcases (abs_eq (by norm_num)).1 middle with eq | eq
  · linarith
  · linarith

/-- What lies in the interval of a double is rounded to it. -/
theorem Takes.rounds {r : ℕ} {t : ℤ} (h : d.Takes u) (form : d.IsForm)
    (rounding : IsRounding (u * 2 ^ d.exp) r t) : (r : ℚ) * 2 ^ t = d.man * 2 ^ d.exp := by
  have unit : (0 : ℚ) < 2 ^ d.exp := two_zpow_pos _
  have few : (d.man : ℚ) + 1 ≤ 2 ^ (53 : ℤ) := by exact_mod_cast form.few
  have top : u * 2 ^ d.exp < 2 ^ (53 + d.exp) := by
    rw [two_zpow_add]
    exact mul_lt_mul_of_pos_right (by linarith [h.high]) unit
  have atMost : t ≤ d.exp := by
    rcases rounding.above with rfl | large
    · exact form.low
    · have := (zpow_lt_zpow_iff_right₀ one_lt_two).1 (large.trans_lt top)
      omega
  by_cases least : d.exp ≤ t
  · obtain rfl : t = d.exp := le_antisymm atMost least
    have nearest := rounding.nearest
    rw [mul_div_cancel_right₀ u unit.ne'] at nearest
    rw [nearest.unique h.nearest]
  · -- only under a power of two the unit is half as large
    have many : 2 ^ 52 ≤ d.man := form.digits.resolve_right (by have := rounding.exponent; omega)
    have under : u < 2 ^ 52 := by
      have half : u * 2 ^ d.exp < 2 ^ ((52 : ℕ) + d.exp) :=
        rounding.below.trans_le (two_zpow_mono (by omega))
      rw [two_zpow_add, zpow_natCast] at half
      exact lt_of_mul_lt_mul_right half unit.le
    have power : d.man = 2 ^ 52 := by
      have bound : (d.man : ℚ) < (2 ^ 52 : ℕ) + 1 := by
        push_cast
        linarith [h.low, d.reach_le]
      have bound : d.man < 2 ^ 52 + 1 := by exact_mod_cast bound
      omega
    have value : (d.man : ℚ) = 2 ^ 52 := by exact_mod_cast power
    have narrow : d.narrowBelow = true :=
      form.narrow.2 ⟨power, by have := rounding.exponent; omega⟩
    have reach : d.reach = 1 / 4 := if_pos narrow
    have low := h.low
    rw [value, reach] at low
    obtain rfl : t = d.exp - 1 := by
      by_contra other
      have quarter : u * 2 ^ d.exp < 2 ^ ((51 : ℕ) + d.exp) :=
        rounding.below.trans_le (two_zpow_mono (by omega))
      rw [two_zpow_add, zpow_natCast] at quarter
      have := lt_of_mul_lt_mul_right quarter unit.le
      linarith
    have twice : (2 : ℚ) ^ d.exp = 2 * 2 ^ (d.exp - 1) := by
      rw [← zpow_one_add₀ two_ne_zero]
      congr 1
      ring
    have nearest := rounding.nearest
    rw [twice, ← mul_assoc, mul_div_cancel_right₀ _ (two_zpow_pos _).ne'] at nearest
    have double : IsNearest (2 ^ 53) (u * 2) := by
      refine ⟨abs_le.2 ⟨?_, ?_⟩, fun _ => by decide⟩ <;> push_cast <;> linarith
    rw [nearest.unique double, twice, value]
    push_cast
    ring

end DoubleParts

/-! ## Digits of quotients -/

theorem natText_bounds {n : ℕ} (h0 : 0 < n) : ∃ k : ℕ,
    (natText n).length = k + 1 ∧ 10 ^ k ≤ n ∧ n < 10 ^ (k + 1) := by
  have some : 0 < (natText n).length := Nat.length_repr_pos
  obtain ⟨k, hk⟩ := Nat.exists_eq_succ_of_ne_zero some.ne'
  refine ⟨k, hk, ?_, (Nat.length_repr_le_iff (Nat.succ_pos k)).1 hk.le⟩
  rcases Nat.eq_zero_or_pos k with rfl | positive
  · exact h0
  · by_contra few
    have short : (natText n).length ≤ k := (Nat.length_repr_le_iff positive).2 (not_le.1 few)
    omega

theorem leadingExponent_bounds {p q : ℕ} (hp : 0 < p) (hq : 0 < q) :
    (10 : ℚ) ^ leadingExponent p q ≤ p / q ∧ (p : ℚ) / q < 10 ^ (leadingExponent p q + 1) := by
  obtain ⟨k, lengthP, lowP, highP⟩ := natText_bounds hp
  obtain ⟨l, lengthQ, lowQ, highQ⟩ := natText_bounds hq
  have positive : (0 : ℚ) < q := by exact_mod_cast hq
  have ten : (0 : ℚ) < 10 := by norm_num
  have under : (p : ℚ) / q < 10 ^ ((k : ℤ) - l + 1) := by
    rw [div_lt_iff₀ positive]
    calc (p : ℚ)
      _ < 10 ^ (k + 1) := by exact_mod_cast highP
      _ = 10 ^ ((k : ℤ) - l + 1) * 10 ^ l := by
        rw [← zpow_natCast, ← zpow_natCast, ← zpow_add₀ ten.ne']
        congr 1
        push_cast
        ring
      _ ≤ 10 ^ ((k : ℤ) - l + 1) * q := by
        refine mul_le_mul_of_nonneg_left ?_ (by positivity)
        exact_mod_cast lowQ
  have least : (10 : ℚ) ^ ((k : ℤ) - l - 1) ≤ p / q := by
    rw [le_div_iff₀ positive]
    calc (10 : ℚ) ^ ((k : ℤ) - l - 1) * q
      _ ≤ 10 ^ ((k : ℤ) - l - 1) * 10 ^ (l + 1) := by
        refine mul_le_mul_of_nonneg_left ?_ (by positivity)
        exact_mod_cast highQ.le
      _ = 10 ^ k := by
        rw [← zpow_natCast, ← zpow_natCast, ← zpow_add₀ ten.ne']
        congr 1
        push_cast
        ring
      _ ≤ p := by exact_mod_cast lowP
  have guess : (natText p).length - (natText q).length = (k : ℤ) - l := by
    rw [lengthP, lengthQ]
    push_cast
    ring
  have reaches : (if 0 ≤ (k : ℤ) - l then q * 10 ^ ((k : ℤ) - l).toNat ≤ p else
      q ≤ p * 10 ^ (-((k : ℤ) - l)).toNat) ↔ (10 : ℚ) ^ ((k : ℤ) - l) ≤ p / q := by
    rw [le_div_iff₀ positive]
    split_ifs with whole
    · obtain ⟨m, hm⟩ := Int.eq_ofNat_of_zero_le whole
      rw [hm, Int.toNat_natCast, zpow_natCast, mul_comm]
      exact_mod_cast Iff.rfl
    · obtain ⟨m, hm⟩ := Int.eq_ofNat_of_zero_le (by omega : 0 ≤ -((k : ℤ) - l))
      rw [hm, Int.toNat_natCast, show (k : ℤ) - l = -(m : ℤ) by omega, zpow_neg, zpow_natCast,
        inv_mul_le_iff₀ (by positivity), mul_comm]
      exact_mod_cast Iff.rfl
  unfold leadingExponent
  dsimp only
  rw [guess]
  by_cases h : (10 : ℚ) ^ ((k : ℤ) - l) ≤ p / q
  · rw [if_pos (reaches.2 h)]
    exact ⟨h, under⟩
  · rw [if_neg (mt reaches.1 h), sub_add_cancel]
    exact ⟨least, not_le.1 h⟩

theorem scaledFloor_eq (p q : ℕ) (k : ℤ) : scaledFloor p q k = ⌊(p : ℚ) / q * 10 ^ k⌋₊ := by
  unfold scaledFloor
  rcases le_or_gt 0 k with whole | part
  · obtain ⟨m, rfl⟩ := Int.eq_ofNat_of_zero_le whole
    rw [if_pos whole, ← Nat.floor_div_eq_div (K := ℚ), Int.toNat_natCast, zpow_natCast]
    push_cast
    rw [div_mul_eq_mul_div]
  · obtain ⟨m, rfl⟩ : ∃ m : ℕ, k = -m := ⟨(-k).toNat, by omega⟩
    rw [if_neg (not_le.2 part), ← Nat.floor_div_eq_div (K := ℚ), neg_neg, Int.toNat_natCast,
      zpow_neg, zpow_natCast]
    push_cast
    rw [div_mul_eq_div_div, div_eq_mul_inv (p / q : ℚ)]

/-! ## The search -/

namespace DoubleParts

variable {d : DoubleParts} {place : ℤ}

/-- The value of a double without its sign. -/
def value (d : DoubleParts) : ℚ := d.man * 2 ^ d.exp

/-- The neighbour of a double below, on a grid of powers of ten. -/
def floorAt (d : DoubleParts) (place : ℤ) : ℕ := ⌊d.value / 10 ^ place⌋₊

/-- The grid gives the neighbour below, the one above, or none where neither reads back. -/
theorem onGrid?_cases (d : DoubleParts) (place : ℤ) :
    (d.onGrid? place = some (d.floorAt place) ∧ d.floorAt place ≠ 0 ∧
      d.readsBack (d.floorAt place) place = true) ∨
    (d.onGrid? place = some (d.floorAt place + 1) ∧
      d.readsBack (d.floorAt place + 1) place = true) ∨
    (d.onGrid? place = none ∧
      ¬ (d.floorAt place ≠ 0 ∧ d.readsBack (d.floorAt place) place = true) ∧
      ¬ d.readsBack (d.floorAt place + 1) place = true) := by
  have low : scaledFloor d.quotient.1 d.quotient.2 (-place) = d.floorAt place := by
    rw [scaledFloor_eq, (d.quotient_value).2, zpow_neg, ← div_eq_mul_inv]
    rfl
  unfold onGrid?
  dsimp only
  rw [low]
  generalize d.floorAt place = l
  have fits : (l ≠ 0 && d.readsBack l place) = true ↔ l ≠ 0 ∧ d.readsBack l place = true := by
    rw [Bool.and_eq_true, decide_eq_true_iff]
  by_cases first : l ≠ 0 ∧ d.readsBack l place = true
  · rw [fits.2 first]
    by_cases second : d.readsBack (l + 1) place = true
    · rw [second, Bool.and_self, if_pos rfl]
      split
      · exact .inl ⟨rfl, first⟩
      · exact .inr (.inl ⟨rfl, rfl⟩)
      · split_ifs
        · exact .inl ⟨rfl, first⟩
        · exact .inr (.inl ⟨rfl, rfl⟩)
    · rw [Bool.eq_false_of_not_eq_true second]
      exact .inl ⟨rfl, first⟩
  · rw [Bool.eq_false_of_not_eq_true (mt fits.1 first)]
    by_cases second : d.readsBack (l + 1) place = true
    · rw [second]
      exact .inr (.inl ⟨rfl, rfl⟩)
    · rw [Bool.eq_false_of_not_eq_true second]
      exact .inr (.inr ⟨rfl, first, Bool.false_ne_true⟩)

/-- What the grid gives is not zero and reads back. -/
theorem onGrid?_reads {n : ℕ} (h : d.onGrid? place = some n) :
    n ≠ 0 ∧ d.readsBack n place = true := by
  rcases d.onGrid?_cases place with ⟨eq, nonzero, reads⟩ | ⟨eq, reads⟩ | ⟨eq, -, -⟩
  · obtain rfl := Option.some.inj (eq.symm.trans h)
    exact ⟨nonzero, reads⟩
  · obtain rfl := Option.some.inj (eq.symm.trans h)
    exact ⟨Nat.succ_ne_zero _, reads⟩
  · cases eq.symm.trans h

/-- A decimal of seventeen digits lies close enough to be rounded to the double. -/
theorem exists_onGrid? (form : d.IsForm) (h0 : 0 < d.man)
    (digits : (10 : ℚ) ^ (place + 16) ≤ d.value) : ∃ n, d.onGrid? place = some n := by
  have unit : (0 : ℚ) < 2 ^ d.exp := two_zpow_pos _
  have grid : (0 : ℚ) < 10 ^ place := by positivity
  have many : (10 : ℚ) ^ 16 ≤ d.value / 10 ^ place := by
    rw [le_div_iff₀ grid, ← zpow_natCast, ← zpow_add₀ (by norm_num), add_comm]
    exact digits
  have below : (d.floorAt place : ℚ) ≤ d.value / 10 ^ place := Nat.floor_le (by linarith)
  have above : d.value / 10 ^ place < d.floorAt place + 1 := Nat.lt_floor_add_one _
  rcases d.onGrid?_cases place with ⟨eq, -⟩ | ⟨eq, -⟩ | ⟨-, first, second⟩
  · exact ⟨_, eq⟩
  · exact ⟨_, eq⟩
  · rw [readsBack_iff h0] at first second
    -- the grid is measured in units of the double
    obtain ⟨g, hg⟩ : ∃ g : ℚ, 10 ^ place = g * 2 ^ d.exp :=
      ⟨10 ^ place / 2 ^ d.exp, (div_mul_cancel₀ _ unit.ne').symm⟩
    have positive : 0 < g := by
      rw [hg] at grid
      exact (mul_pos_iff_of_pos_right unit).1 grid
    have units : d.value / 10 ^ place * g = d.man := by
      unfold value
      rw [hg]
      field_simp
    have scaled : ∀ k : ℚ, k * 10 ^ place / 2 ^ d.exp = k * g := fun k => by
      rw [hg, ← mul_assoc, mul_div_cancel_right₀ _ unit.ne']
    rw [scaled] at first second
    generalize d.value / 10 ^ place = w at *
    generalize d.floorAt place = l at *
    have size : (10 : ℚ) ^ 16 * g ≤ d.man := by
      rw [← units]
      exact mul_le_mul_of_nonneg_right many positive.le
    have fine : g < 2 * d.reach := by
      unfold reach
      split_ifs with narrow
      · have power : (d.man : ℚ) = 2 ^ 52 := by exact_mod_cast (form.narrow.1 narrow).1
        rw [power] at size
        linarith
      · have few : (d.man : ℚ) < 2 ^ 53 := by exact_mod_cast form.few
        linarith
    have reach := d.reach_le
    exfalso
    rcases le_or_gt (w - l) (1 / 2) with close | far
    · have some : l ≠ 0 := by
        rintro rfl
        rw [Nat.cast_zero] at above
        linarith
      have half : (w - l) * g ≤ 1 / 2 * g := mul_le_mul_of_nonneg_right close positive.le
      have inside : (l : ℚ) * g ≤ w * g := mul_le_mul_of_nonneg_right below positive.le
      exact first ⟨some, takes_of_lt (by linarith) (by linarith)⟩
    · have half : (l + 1 - w) * g < 1 / 2 * g := mul_lt_mul_of_pos_right (by linarith) positive
      have inside : w * g ≤ (l + 1) * g := mul_le_mul_of_nonneg_right above.le positive.le
      refine second (takes_of_lt ?_ ?_) <;> push_cast
      · linarith
      · linarith

/-- Zeros that are dropped go into the place. -/
theorem dropZeros_value (fuel n : ℕ) (place : ℤ) :
    ((dropZeros fuel n place).1 : ℚ) * 10 ^ (dropZeros fuel n place).2 = n * 10 ^ place ∧
      place ≤ (dropZeros fuel n place).2 ∧ (n ≠ 0 → (dropZeros fuel n place).1 ≠ 0) := by
  induction fuel generalizing n place with
  | zero => exact ⟨rfl, le_rfl, id⟩
  | succ fuel ih =>
    unfold dropZeros
    split_ifs with tens
    · simp only [Bool.and_eq_true, decide_eq_true_eq] at tens
      obtain ⟨rest, nonzero⟩ := tens
      obtain ⟨value, later, some⟩ := ih (n / 10) (place + 1)
      refine ⟨?_, by omega, fun _ => some (by omega)⟩
      have whole : (n : ℚ) = (n / 10 : ℕ) * 10 := by exact_mod_cast (by omega : n = n / 10 * 10)
      rw [value, whole, zpow_add_one₀ (by norm_num)]
      ring
    · exact ⟨rfl, le_rfl, id⟩

/-- A decimal that is rounded to a double, with few digits and places. -/
structure IsDecimal (d : DoubleParts) (n : ℕ) (place : ℤ) : Prop where
  nonzero : n ≠ 0
  takes : d.Takes (n * 10 ^ place / 2 ^ d.exp)
  least : -400 ≤ place

theorem value_ge (form : d.IsForm) (h0 : 0 < d.man) : (10 : ℚ) ^ (-324 : ℤ) ≤ d.value := by
  have one : (1 : ℚ) ≤ d.man := by exact_mod_cast h0
  calc (10 : ℚ) ^ (-324 : ℤ)
    _ ≤ 2 ^ (-1074 : ℤ) := by
      rw [zpow_neg, zpow_neg]
      refine inv_anti₀ (by positivity) ?_
      exact_mod_cast (by decide +kernel : 2 ^ 1074 ≤ 10 ^ 324)
    _ ≤ 2 ^ d.exp := two_zpow_mono form.low
    _ ≤ d.value := le_mul_of_one_le_left (two_zpow_pos _).le one

/-- The shortest decimal of a double is rounded to it. -/
theorem shortest_isDecimal (form : d.IsForm) (h0 : 0 < d.man) :
    d.IsDecimal d.shortest.1 d.shortest.2 := by
  obtain ⟨positive, value⟩ := d.quotient_value
  have numerator : 0 < d.quotient.1 := Nat.mul_pos h0 (Nat.two_pow_pos _)
  obtain ⟨low, high⟩ := leadingExponent_bounds numerator positive
  unfold shortest
  dsimp only
  rw [value] at low high
  generalize leadingExponent d.quotient.1 d.quotient.2 = top at low high ⊢
  have bottom : -324 ≤ top := by
    have := (zpow_lt_zpow_iff_right₀ (by norm_num)).1 ((value_ge form h0).trans_lt high)
    omega
  cases found : (List.range 17).findSome? fun i : ℕ =>
      (d.onGrid? (top - i)).map fun n => (n, top - (i : ℤ)) with
  | none =>
    obtain ⟨n, hn⟩ := exists_onGrid? form h0 (show (10 : ℚ) ^ (top - 16 + 16) ≤ d.value by
      rw [sub_add_cancel]
      exact low)
    have last := List.findSome?_eq_none_iff.1 found 16 (by decide)
    rw [Nat.cast_ofNat, hn] at last
    cases last
  | some p =>
    obtain ⟨i, hi, eq⟩ := List.exists_of_findSome?_eq_some found
    obtain ⟨n, hn, rfl⟩ := Option.map_eq_some_iff.1 eq
    obtain ⟨nonzero, reads⟩ := onGrid?_reads hn
    obtain ⟨same, later, some⟩ := dropZeros_value 20 n (top - i)
    have bound := List.mem_range.1 hi
    exact ⟨some nonzero, by rw [same]; exact (readsBack_iff h0 n _).1 reads, by dsimp only; omega⟩

theorem value_lt (form : d.IsForm) {u : ℚ} (h : u < 2 ^ 53) : u * 2 ^ d.exp < 2 ^ 1024 := by
  calc u * 2 ^ d.exp
    _ < 2 ^ 53 * 2 ^ d.exp := mul_lt_mul_of_pos_right h (two_zpow_pos _)
    _ ≤ 2 ^ 53 * 2 ^ (971 : ℤ) :=
      mul_le_mul_of_nonneg_left (two_zpow_mono form.high) (by positivity)
    _ = 2 ^ 1024 := by
      rw [show (971 : ℤ) = (971 : ℕ) from rfl, zpow_natCast, ← pow_add]

/-- A decimal that is rounded to a double reads back, however its digits and places are told. -/
theorem IsDecimal.reads {n m : ℕ} {p : ℤ} (h : d.IsDecimal n place) (form : d.IsForm)
    (same : (m : ℚ) * 10 ^ p = n * 10 ^ place) (least : -1000 ≤ p) :
    toRat? (ofDecimal m p) = some d.value := by
  have unit : (0 : ℚ) < 2 ^ d.exp := two_zpow_pos _
  have takes := h.takes
  rw [← same] at takes
  have few : (d.man : ℚ) + 1 ≤ 2 ^ 53 := by exact_mod_cast form.few
  have top : (m : ℚ) * 10 ^ p < 2 ^ 1024 := by
    rw [← div_mul_cancel₀ ((m : ℚ) * 10 ^ p) unit.ne']
    exact value_lt form (by linarith [takes.high])
  have nonzero : m ≠ 0 := by
    rintro rfl
    rw [Nat.cast_zero, zero_mul, eq_comm, mul_eq_zero] at same
    exact same.elim (by exact_mod_cast h.nonzero) (by positivity)
  obtain ⟨k, length, low, -⟩ := natText_bounds (Nat.pos_of_ne_zero nonzero)
  have places : k + p < 309 := by
    refine (zpow_lt_zpow_iff_right₀ (by norm_num : (1 : ℚ) < 10)).1 ?_
    calc (10 : ℚ) ^ (k + p)
      _ = 10 ^ k * 10 ^ p := by rw [zpow_add₀ (by norm_num), zpow_natCast]
      _ ≤ m * 10 ^ p := mul_le_mul_of_nonneg_right (by exact_mod_cast low) (by positivity)
      _ < 2 ^ 1024 := top
      _ ≤ 10 ^ (309 : ℤ) := by exact_mod_cast (by decide +kernel : 2 ^ 1024 ≤ 10 ^ 309)
  obtain ⟨r, t, rounding, value⟩ := ofDecimal_rounds nonzero p (by omega) (by omega)
  rw [← div_mul_cancel₀ ((m : ℚ) * 10 ^ p) unit.ne'] at rounding
  rw [takes.rounds form rounding] at value
  exact value (value_lt form (by linarith))

end DoubleParts

end Reckoner
