-- Rounding to the nearest double, exactly. What is left of a number after a shift and the two marks
-- behind it decide which of the two neighbours is taken, so a quotient, a product and a decimal are
-- rounded once, and a number that is a double already is kept.
import Reckoner.Proofs.Decimal.Largest
import Reckoner.Proofs.Numerical.ExactValue

namespace Reckoner

namespace Double

open Float.Model Float.Model.UnpackedFloat

/-! ## Near values -/

/-- A rounded value lies near the exact one, and on the same side of zero. -/
structure IsNear (r q : ℚ) : Prop where
  error : |r - q| ≤ |q| / 2 ^ 53 + 1 / 2 ^ 1075
  nonneg : 0 ≤ q → 0 ≤ r
  nonpos : q ≤ 0 → r ≤ 0

theorem isNear_self (q : ℚ) : IsNear q q where
  error := by
    rw [sub_self, abs_zero]
    positivity
  nonneg := id
  nonpos := id

theorem IsNear.neg {r q : ℚ} (h : IsNear r q) : IsNear (-r) (-q) where
  error := by
    rw [abs_neg, ← neg_sub', abs_neg]
    exact h.error
  nonneg hq := neg_nonneg.2 (h.nonpos (neg_nonneg.1 hq))
  nonpos hq := neg_nonpos.2 (h.nonneg (neg_nonpos.1 hq))

theorem IsNear.lt_top {r q : ℚ} (h : IsNear r q) (nonneg : 0 ≤ q) (top : q ≤ 2 ^ 1000) :
    r < 2 ^ 1024 := by
  have above := (abs_le.1 h.error).2
  rw [abs_of_nonneg nonneg] at above
  have part : q / 2 ^ 53 ≤ q := div_le_self nonneg (by norm_num)
  have tiny : (1 : ℚ) / 2 ^ 1075 ≤ 1 := by
    generalize 1075 = k
    exact (div_le_one (by positivity)).2 (one_le_pow₀ one_le_two)
  generalize (1 : ℚ) / 2 ^ 1075 = unit at tiny above
  calc r
    _ ≤ q + q + 1 := by linarith
    _ ≤ 2 ^ 1000 + 2 ^ 1000 + 1 := by gcongr
    _ < 2 ^ 1024 := by exact_mod_cast (by decide +kernel : 2 ^ 1000 + 2 ^ 1000 + 1 < 2 ^ 1024)

/-! ## What the digits and marks stand for -/

/-- The digits that are kept and the two marks behind them stand for a number of units. -/
structure StandsFor (x : ExtendedMantissa) (u : ℚ) : Prop where
  low : x.mantissa ≤ u
  high : u < x.mantissa + 1
  half : x.roundBit = true ↔ (x.mantissa : ℚ) + 1 / 2 ≤ u
  more : x.stickyBit = true ↔ u ≠ x.mantissa ∧ u ≠ x.mantissa + 1 / 2

theorem StandsFor.shiftRightOne {x : ExtendedMantissa} {u : ℚ} (h : StandsFor x u) :
    StandsFor x.shiftRightOne (u / 2) := by
  obtain ⟨low, high, half, more⟩ := h
  obtain ⟨m, r, s⟩ := x
  dsimp only at *
  have whole := Nat.div_add_mod m 2
  have marks : (r || s) = true ↔ u ≠ m := by
    rw [Bool.or_eq_true, half, more]
    constructor
    · rintro (above | ⟨other, -⟩)
      · exact fun eq => by linarith
      · exact other
    · intro other
      by_cases middle : u = m + 1 / 2
      · exact .inl middle.ge
      · exact .inr ⟨other, middle⟩
  unfold ExtendedMantissa.shiftRightOne
  rcases Nat.mod_two_eq_zero_or_one m with even | odd
  · have value : (m : ℚ) = 2 * (m / 2 : ℕ) := by exact_mod_cast (by omega : m = 2 * (m / 2))
    refine ⟨?_, ?_, ?_, ?_⟩ <;> dsimp only
    · linarith
    · linarith
    · rw [even]
      simp only [bne_self_eq_false, Bool.false_eq_true, false_iff, not_le]
      linarith
    · rw [marks]
      constructor
      · exact fun other => ⟨fun eq => other (by linarith), fun eq => by linarith⟩
      · exact fun ⟨other, _⟩ eq => other (by linarith)
  · have value : (m : ℚ) = 2 * (m / 2 : ℕ) + 1 := by
      exact_mod_cast (by omega : m = 2 * (m / 2) + 1)
    refine ⟨?_, ?_, ?_, ?_⟩ <;> dsimp only
    · linarith
    · linarith
    · rw [odd]
      simp only [show (1 != 0) = true from rfl, true_iff]
      linarith
    · rw [marks]
      constructor
      · exact fun other => ⟨fun eq => by linarith, fun eq => other (by linarith)⟩
      · exact fun ⟨_, other⟩ eq => other (by linarith)

theorem StandsFor.shiftRight {x : ExtendedMantissa} {u : ℚ} (h : StandsFor x u) (k : ℕ) :
    StandsFor (x >>> k) (u / 2 ^ k) := by
  induction k with
  | zero =>
    rw [pow_zero, div_one]
    exact h
  | succ k ih =>
    rw [pow_succ, ← div_div]
    exact ih.shiftRightOne

theorem standsFor_exact (m : ℕ) : StandsFor (.ofMantissaAndAccuracy m .exact) m where
  low := le_rfl
  high := lt_add_one _
  half := by simp [ExtendedMantissa.ofMantissaAndAccuracy]
  more := by simp [ExtendedMantissa.ofMantissaAndAccuracy]

/-- A whole number of units nearest to a number, and of two the even one. -/
structure IsNearest (r : ℕ) (u : ℚ) : Prop where
  error : |(r : ℚ) - u| ≤ 1 / 2
  even : |(r : ℚ) - u| = 1 / 2 → r % 2 = 0

/-- There is one nearest number of units: of two in the middle, only one is even. -/
theorem IsNearest.unique {r k : ℕ} {u : ℚ} (h : IsNearest r u) (h' : IsNearest k u) : r = k := by
  have error := abs_le.1 h.error
  have error' := abs_le.1 h'.error
  rcases lt_trichotomy r k with less | same | more
  · have gap : (r : ℚ) + 1 ≤ k := by exact_mod_cast less
    have even := h.even (abs_eq (by norm_num) |>.2 (.inr (by linarith)))
    have even' := h'.even (abs_eq (by norm_num) |>.2 (.inl (by linarith)))
    have next : k = r + 1 := by exact_mod_cast (by linarith : (k : ℚ) = r + 1)
    omega
  · exact same
  · have gap : (k : ℚ) + 1 ≤ r := by exact_mod_cast more
    have even := h.even (abs_eq (by norm_num) |>.2 (.inl (by linarith)))
    have even' := h'.even (abs_eq (by norm_num) |>.2 (.inr (by linarith)))
    have next : r = k + 1 := by exact_mod_cast (by linarith : (r : ℚ) = k + 1)
    omega

/-- A whole number is nearest to itself. -/
theorem IsNearest.whole {r k : ℕ} (h : IsNearest r k) : r = k :=
  h.unique ⟨by simp, by simp⟩

theorem roundedMantissa_nearest {x : ExtendedMantissa} {u : ℚ} (h : StandsFor x u) :
    IsNearest x.roundedMantissa u := by
  obtain ⟨low, high, half, more⟩ := h
  obtain ⟨m, r, s⟩ := x
  dsimp only at *
  cases r with
  | false =>
    have below : u < m + 1 / 2 := by
      rw [← not_le, ← half]
      exact Bool.false_ne_true
    have kept : (ExtendedMantissa.mk m false s).roundedMantissa = m := by cases s <;> rfl
    have error : |(m : ℚ) - u| < 1 / 2 := by
      rw [abs_lt]
      constructor <;> linarith
    rw [kept]
    exact ⟨error.le, fun eq => absurd eq error.ne⟩
  | true =>
    have above : (m : ℚ) + 1 / 2 ≤ u := half.1 rfl
    cases s with
    | false =>
      have middle : u = m + 1 / 2 := by
        by_contra other
        exact Bool.false_ne_true (more.2 ⟨fun eq => by linarith, other⟩)
      have kept : (ExtendedMantissa.mk m true false).roundedMantissa = m + m % 2 := rfl
      have parity : m % 2 = 0 ∨ m % 2 = 1 := Nat.mod_two_eq_zero_or_one m
      rw [kept, middle]
      refine ⟨?_, fun _ => by omega⟩
      rcases parity with eq | eq <;> rw [eq] <;> push_cast <;> rw [abs_le] <;>
        constructor <;> linarith
    | true =>
      have other := (more.1 rfl).2
      have strict : (m : ℚ) + 1 / 2 < u := lt_of_le_of_ne above (Ne.symm other)
      have kept : (ExtendedMantissa.mk m true true).roundedMantissa = m + 1 := rfl
      have error : |((m + 1 : ℕ) : ℚ) - u| < 1 / 2 := by
        push_cast
        rw [abs_lt]
        constructor <;> linarith
      rw [kept]
      exact ⟨error.le, fun eq => absurd eq error.ne⟩

/-! ## Rounding -/

/-- So many units of a power of two are the double nearest to a number that is not negative, if
doubles had no largest exponent. -/
structure IsRounding (v : ℚ) (r : ℕ) (t : ℤ) : Prop where
  exponent : -1074 ≤ t
  below : v < 2 ^ (53 + t)
  above : t = -1074 ∨ 2 ^ (52 + t) ≤ v
  nearest : IsNearest r (v / 2 ^ t)

/-- What was put together has the value of so many units, and all its digits. -/
def HasUnits (s : Sign) (r : ℕ) (t : ℤ) (u : UnpackedFloat) : Prop :=
  (u = .zero s ∧ r = 0) ∨ ∃ n f hn, u = .finite s n f hn ∧ (n : ℚ) * 2 ^ f = r * 2 ^ t ∧
    n < 2 ^ 53 ∧ (2 ^ 52 ≤ n ∧ -1074 ≤ f ∨ f = -1074)

/-- Digits and marks are rounded to the nearest double, if there are 53 digits or the exponent is
the smallest one. -/
theorem roundWithAccuracy_rounding (s : Sign) {m : ℕ} {e : ℤ} {acc : Accuracy} {u : ℚ}
    (stands : StandsFor (.ofMantissaAndAccuracy m acc) u) (full : 2 ^ 52 ≤ m ∨ e ≤ -1074) :
    ∃ r t, IsRounding (u * 2 ^ e) r t ∧ HasUnits s r t (roundWithAccuracy .binary64 s m e acc) := by
  obtain ⟨j, r, n, f, parts, outcome⟩ := exists_roundingParts s m e acc
  have shift := parts.shift_eq
  have total : totalExponent m e = m.log2 + 1 + e := rfl
  have log : 2 ^ 52 ≤ m → 52 ≤ m.log2 := fun digits => (Nat.le_log2 (by omega)).2 digits
  have none : m = 0 → m.log2 = 0 := fun h => by rw [h]; rfl
  have low : -1074 < e + j → 2 ^ 52 ≤ m / 2 ^ j := fun above =>
    kept_digits (e := e) (by omega) (by omega)
  have units : u * 2 ^ e / 2 ^ (e + j) = u / 2 ^ j := by
    rw [two_zpow_add, zpow_natCast]
    field_simp
  have kept := stands.shiftRight j
  have nearest : IsNearest r (u / 2 ^ j) := by
    rw [parts.rounded_eq]
    exact roundedMantissa_nearest kept
  -- the digits that are kept show how large the number is
  have inside := kept.low
  have outside := kept.high
  rw [shift_mantissa, ofMantissaAndAccuracy_mantissa, ← units] at inside outside
  have rounding : IsRounding (u * 2 ^ e) r (e + j) := by
    refine ⟨by omega, ?_, ?_, by rwa [units]⟩
    · rw [two_zpow_add, ← div_lt_iff₀ (two_zpow_pos _)]
      have few : ((m / 2 ^ j : ℕ) : ℚ) + 1 ≤ 2 ^ (53 : ℤ) := by exact_mod_cast parts.kept
      exact outside.trans_le few
    · rcases eq_or_ne (e + j : ℤ) (-1074) with tiny | other
      · exact .inl tiny
      · refine .inr ?_
        rw [two_zpow_add, ← le_div_iff₀ (two_zpow_pos _)]
        have many : (2 : ℚ) ^ (52 : ℤ) ≤ (m / 2 ^ j : ℕ) := by exact_mod_cast low (by omega)
        exact many.trans inside
  refine ⟨r, e + j, rounding, ?_⟩
  have value := parts.value
  rcases outcome with ⟨zero, rfl⟩ | ⟨hn, finite⟩
  · refine .inl ⟨zero, ?_⟩
    rw [Nat.cast_zero, zero_mul, eq_comm, mul_eq_zero] at value
    exact_mod_cast value.resolve_right (two_zpow_pos _).ne'
  · have rounded := parts.low
    have carried := parts.carried
    exact .inr ⟨n, f, hn, finite, value, parts.few, by omega⟩

/-- A double below the largest power of two keeps its value when it is put together. -/
theorem HasUnits.value {s : Sign} {u : UnpackedFloat} {r : ℕ} {t : ℤ} (h : HasUnits s r t u)
    (top : (r : ℚ) * 2 ^ t < 2 ^ 1024) :
    partsValue? (UnpackedFloat.unpack .binary64 (UnpackedFloat.pack .binary64 u)) =
      some (s.apply r * 2 ^ t : ℚ) := by
  rcases h with ⟨rfl, rfl⟩ | ⟨n, f, hn, rfl, value, few, digits⟩
  · cases s <;> simp [Sign.apply] <;> rfl
  · have small : f < 972 := by
      rcases digits with ⟨many, -⟩ | rfl
      · by_contra large
        have least : (2 : ℚ) ^ (1024 : ℤ) ≤ n * 2 ^ f := by
          have many : (2 : ℚ) ^ (52 : ℤ) ≤ n := by exact_mod_cast many
          calc (2 : ℚ) ^ (1024 : ℤ)
            _ = 2 ^ (52 : ℤ) * 2 ^ (972 : ℤ) := by rw [← two_zpow_add]; rfl
            _ ≤ n * 2 ^ f := mul_le_mul many (two_zpow_mono (by omega)) (two_zpow_pos _).le
              (Nat.cast_nonneg n)
        rw [value] at least
        exact absurd top (not_lt.2 (by exact_mod_cast least))
      · decide
    rw [unpack_pack_finite ⟨few, small, digits⟩, partsValue?]
    cases s with
    | positive =>
      simp only [Sign.apply, Int.cast_natCast]
      rw [value]
    | negative =>
      simp only [Sign.apply, Int.cast_neg, Int.cast_natCast, neg_mul]
      rw [value]

namespace IsRounding

variable {v : ℚ} {r : ℕ} {t : ℤ}

/-- Rounding is off by half a unit at most. -/
theorem error (h : IsRounding v r t) : |(r : ℚ) * 2 ^ t - v| ≤ 2 ^ t / 2 := by
  have units : (r : ℚ) * 2 ^ t - v = (r - v / 2 ^ t) * 2 ^ t := by
    rw [sub_mul, div_mul_cancel₀ _ (two_zpow_pos t).ne']
  rw [units, abs_mul, abs_of_pos (two_zpow_pos t)]
  refine (mul_le_mul_of_nonneg_right h.nearest.error (two_zpow_pos t).le).trans_eq ?_
  rw [one_div, inv_mul_eq_div]

theorem near (h : IsRounding v r t) (nonneg : 0 ≤ v) : IsNear (r * 2 ^ t) v where
  error := by
    refine h.error.trans ?_
    rw [abs_of_nonneg nonneg]
    rcases h.above with rfl | large
    · have unit : (2 : ℚ) ^ (-1074 : ℤ) / 2 = 1 / 2 ^ 1075 := by
        rw [zpow_neg, pow_succ, ← one_div, div_div]
        rfl
      rw [unit]
      exact le_add_of_nonneg_left (by positivity)
    · have part : (2 : ℚ) ^ t / 2 ≤ v / 2 ^ 53 := by
        rw [div_le_div_iff₀ two_pos (by positivity), pow_succ, ← mul_assoc]
        refine mul_le_mul_of_nonneg_right ?_ two_pos.le
        rwa [two_zpow_add, mul_comm] at large
      exact part.trans (le_add_of_nonneg_right (by positivity))
  nonneg _ := mul_nonneg (Nat.cast_nonneg r) (two_zpow_pos t).le
  nonpos nonpos := by
    obtain rfl : v = 0 := le_antisymm nonpos nonneg
    have tiny := h.nearest.error
    rw [zero_div, sub_zero, abs_of_nonneg (Nat.cast_nonneg r)] at tiny
    have none : r = 0 := by
      by_contra some
      have least : (1 : ℚ) ≤ r := by exact_mod_cast Nat.one_le_iff_ne_zero.2 some
      linarith
    rw [none, Nat.cast_zero, zero_mul]

/-- A number with few digits is a double and is kept. -/
theorem exact {n : ℕ} {f : ℤ} (h : IsRounding (n * 2 ^ f) r t) (few : n < 2 ^ 53)
    (smallest : -1074 ≤ f) : (r : ℚ) * 2 ^ t = n * 2 ^ f := by
  have finer : t ≤ f := by
    rcases h.above with rfl | large
    · exact smallest
    · have top : (n : ℚ) * 2 ^ f < 2 ^ (53 + f) := by
        rw [two_zpow_add]
        exact mul_lt_mul_of_pos_right (by exact_mod_cast few) (two_zpow_pos f)
      have := large.trans_lt top
      rw [zpow_lt_zpow_iff_right₀ one_lt_two] at this
      omega
  obtain ⟨k, rfl⟩ : ∃ k : ℕ, f = t + k := ⟨(f - t).toNat, by omega⟩
  have nearest := h.nearest
  rw [units_eq, mul_div_cancel_right₀ _ (two_zpow_pos t).ne'] at nearest
  rw [units_eq, nearest.whole]

end IsRounding

/-! ## Quotients -/

/-- The digits before a proper fraction, and marks for the fraction. -/
theorem standsFor_fraction {q : ℕ} {r s : Bool} {f : ℚ} (nonneg : 0 ≤ f) (proper : f < 1)
    (half : r = true ↔ 1 / 2 ≤ f) (more : s = true ↔ f ≠ 0 ∧ f ≠ 1 / 2) :
    StandsFor ⟨q, r, s⟩ (q + f) where
  low := le_add_of_nonneg_right nonneg
  high := add_lt_add_right proper _
  half := by rw [half, add_le_add_iff_left]
  more := by rw [more, Ne, Ne, Ne, Ne, add_eq_left, add_right_inj]

/-- A quotient of whole numbers with a remainder stands for the exact quotient. -/
theorem standsFor_quotient (a : ℕ) {b : ℕ} (hb : 0 < b) :
    StandsFor (.ofMantissaAndAccuracy (a / b) (accuracyOfFraction (a % b) b)) ((a : ℚ) / b) := by
  have rest := Nat.mod_lt a hb
  have positive : (0 : ℚ) < b := by exact_mod_cast hb
  have value : (a : ℚ) / b = (a / b : ℕ) + ((a % b : ℕ) : ℚ) / b := by
    rw [div_eq_iff positive.ne', add_mul, div_mul_cancel₀ _ positive.ne']
    exact_mod_cast (Nat.div_add_mod' a b).symm
  rw [value]
  generalize a / b = q at *
  generalize a % b = r at *
  have nonneg : (0 : ℚ) ≤ r / b := by positivity
  have proper : (r : ℚ) / b < 1 := (div_lt_one positive).2 (by exact_mod_cast rest)
  have half : (1 : ℚ) / 2 ≤ r / b ↔ b ≤ 2 * r := by
    rw [div_le_div_iff₀ two_pos positive, one_mul, mul_comm]
    exact_mod_cast Iff.rfl
  have zero : (r : ℚ) / b = 0 ↔ r = 0 := by
    rw [div_eq_zero_iff, or_iff_left positive.ne', Nat.cast_eq_zero]
  have middle : (r : ℚ) / b = 1 / 2 ↔ 2 * r = b := by
    rw [div_eq_div_iff positive.ne' two_ne_zero, one_mul, mul_comm]
    exact_mod_cast Iff.rfl
  unfold accuracyOfFraction
  split_ifs with none
  · refine standsFor_fraction nonneg proper ?_ ?_
    · rw [half]
      simp only [Bool.false_eq_true, false_iff]
      omega
    · rw [Ne, zero]
      simp [none]
  · rcases lt_trichotomy (2 * r) b with less | same | more
    · rw [compare_lt_iff_lt.2 less]
      refine standsFor_fraction nonneg proper ?_ ?_
      · rw [half]
        simp only [Bool.false_eq_true, false_iff]
        omega
      · rw [Ne, Ne, zero, middle]
        simp [none, less.ne]
    · rw [compare_eq_iff_eq.2 same]
      refine standsFor_fraction nonneg proper ?_ ?_
      · rw [half]
        simp only [true_iff]
        omega
      · rw [Ne, Ne, zero, middle]
        simp [same]
    · rw [compare_gt_iff_gt.2 more]
      refine standsFor_fraction nonneg proper ?_ ?_
      · rw [half]
        simp only [true_iff]
        omega
      · rw [Ne, Ne, zero, middle]
        simp [none, more.ne']

/-- The digits of a quotient are 53 or more, or their exponent is the smallest one. -/
theorem divCore_eq {m n : ℕ} {e f : ℤ} (hm : 0 < m) (hn : 0 < n) :
    ∃ (a : ℕ) (g : ℤ), divCore .binary64 m e n f = (a / n, g, accuracyOfFraction (a % n) n) ∧
      (a : ℚ) / n * 2 ^ g = m * 2 ^ e / (n * 2 ^ f) ∧ (2 ^ 52 ≤ a / n ∨ g ≤ -1074) := by
  have totals : totalExponent m e - totalExponent n f = m.log2 + e - (n.log2 + f) := by
    unfold totalExponent
    ring
  have target : Format.binary64.targetExponent (totalExponent m e - totalExponent n f) =
      max (m.log2 + e - (n.log2 + f) - 53) (-1074) := by rw [targetExponent_eq, totals]
  unfold divCore
  dsimp only
  rw [target]
  generalize hg : min (e - f) (max (m.log2 + e - (n.log2 + f) - 53) (-1074)) = g
  obtain ⟨k, hk⟩ : ∃ k : ℕ, (e - f - g).toNat = k := ⟨_, rfl⟩
  have shift : e - f = g + k := by omega
  rw [hk, Nat.shiftLeft_eq]
  refine ⟨m * 2 ^ k, g, rfl, ?_, ?_⟩
  · have exponent : (2 : ℚ) ^ e = 2 ^ f * (2 ^ g * 2 ^ k) := by
      rw [← zpow_natCast, ← two_zpow_add, ← two_zpow_add]
      congr 1
      omega
    have nonzero : (n : ℚ) ≠ 0 := by exact_mod_cast hn.ne'
    rw [exponent]
    push_cast
    field_simp
  · by_cases low : g ≤ -1074
    · exact .inr low
    · refine .inl ?_
      rw [Nat.le_div_iff_mul_le hn]
      calc 2 ^ 52 * n
        _ ≤ 2 ^ 52 * 2 ^ (n.log2 + 1) := Nat.mul_le_mul_left _ Nat.lt_log2_self.le
        _ ≤ 2 ^ (m.log2 + k) := by
          rw [← pow_add]
          exact Nat.pow_le_pow_right two_pos (by omega)
        _ = 2 ^ m.log2 * 2 ^ k := pow_add _ _ _
        _ ≤ m * 2 ^ k := Nat.mul_le_mul_right _ (Nat.log2_self_le hm.ne')

theorem div_finite_rounding {m n : ℕ} {e f : ℤ} (hm : 0 < m) (hn : 0 < n) :
    ∃ r t, IsRounding (m * 2 ^ e / (n * 2 ^ f)) r t ∧ HasUnits .positive r t
      (UnpackedFloat.div .binary64 (.finite .positive m e hm) (.finite .positive n f hn)) := by
  obtain ⟨a, g, core, value, full⟩ := divCore_eq (e := e) (f := f) hm hn
  have rounded := roundWithAccuracy_rounding .positive (standsFor_quotient a hn) full
  rw [value] at rounded
  rw [UnpackedFloat.div, core]
  exact rounded

/-! ## Products -/

/-- The product of two doubles has all its digits, unless both are below the exponents. -/
theorem full_product {s t : Sign} {m n : ℕ} {e f : ℤ} {hm : 0 < m} {hn : 0 < n}
    (formX : IsCanonical (.finite s m e hm)) (formY : IsCanonical (.finite t n f hn)) :
    2 ^ 52 ≤ m * n ∨ e + f ≤ -1074 := by
  obtain ⟨-, -, ⟨digits, -⟩ | tiny⟩ := formX
  · exact .inl (digits.trans (Nat.le_mul_of_pos_right m hn))
  · obtain ⟨-, -, ⟨digits, -⟩ | tiny'⟩ := formY
    · exact .inl (digits.trans (Nat.le_mul_of_pos_left n hm))
    · exact .inr (by omega)

theorem mul_finite_rounding {m n : ℕ} {e f : ℤ} (hm : 0 < m) (hn : 0 < n)
    (full : 2 ^ 52 ≤ m * n ∨ e + f ≤ -1074) :
    ∃ r t, IsRounding (m * 2 ^ e * (n * 2 ^ f)) r t ∧ HasUnits .positive r t
      (UnpackedFloat.mul .binary64 (.finite .positive m e hm) (.finite .positive n f hn)) := by
  have value : ((m * n : ℕ) : ℚ) * 2 ^ (e + f) = m * 2 ^ e * (n * 2 ^ f) := by
    rw [two_zpow_add]
    push_cast
    ring
  have rounded := roundWithAccuracy_rounding .positive (standsFor_exact (m * n)) full
  rw [value] at rounded
  exact rounded

section Floats

variable {x y : Float} {p q : ℚ}

/-- What rounding gives is the value of a double, if it is not too large. -/
def Rounds (v : ℚ) (x : Float) : Prop :=
  ∃ r t, IsRounding v r t ∧ ((r : ℚ) * 2 ^ t < 2 ^ 1024 → toRat? x = some (r * 2 ^ t : ℚ))

theorem rounds_of_units {v : ℚ} {r : ℕ} {t : ℤ} {u : UnpackedFloat} (h : IsRounding v r t)
    (units : HasUnits .positive r t u) : Rounds v (Float.ofModel (Float.Model.pack u)) := by
  refine ⟨r, t, h, fun top => ?_⟩
  rw [toRat?_eq]
  exact units.value top

theorem parts_pos {m : ℕ} {e : ℤ} (hm : 0 < m) : (0 : ℚ) < m * 2 ^ e :=
  mul_pos (by exact_mod_cast hm) (two_zpow_pos e)

/-- The parts of a double with a positive value. -/
theorem unpack_of_positive (hx : toRat? x = some p) (hp : 0 < p) :
    ∃ m e hm, x.toModel.unpack = .finite .positive m e hm ∧ (m : ℚ) * 2 ^ e = p := by
  rw [toRat?_eq] at hx
  cases hu : x.toModel.unpack with
  | infinity s | notANumber =>
    rw [hu] at hx
    cases hx
  | zero s =>
    rw [hu] at hx
    cases hx
    exact absurd hp (lt_irrefl 0)
  | finite s m e hm =>
    rw [hu] at hx
    have value : s.apply m * 2 ^ e = p := Option.some.inj hx
    cases s with
    | positive => exact ⟨m, e, hm, rfl, value⟩
    | negative =>
      simp only [Sign.apply, Int.cast_neg, Int.cast_natCast, neg_mul] at value
      linarith [parts_pos (e := e) hm]

theorem div_rounds (hx : toRat? x = some p) (hy : toRat? y = some q) (hp : 0 < p) (hq : 0 < q) :
    Rounds (p / q) (x / y) := by
  obtain ⟨m, e, hm, partsX, rfl⟩ := unpack_of_positive hx hp
  obtain ⟨n, f, hn, partsY, rfl⟩ := unpack_of_positive hy hq
  obtain ⟨r, t, rounding, units⟩ := div_finite_rounding (e := e) (f := f) hm hn
  rw [← partsX, ← partsY] at units
  exact rounds_of_units rounding units

theorem mul_rounds (hx : toRat? x = some p) (hy : toRat? y = some q) (hp : 0 < p) (hq : 0 < q) :
    Rounds (p * q) (x * y) := by
  obtain ⟨m, e, hm, partsX, rfl⟩ := unpack_of_positive hx hp
  obtain ⟨n, f, hn, partsY, rfl⟩ := unpack_of_positive hy hq
  have formX := unpack_canonical x.toModel.toBits.toBitVec
  have formY := unpack_canonical y.toModel.toBits.toBitVec
  change IsCanonical x.toModel.unpack at formX
  change IsCanonical y.toModel.unpack at formY
  rw [partsX] at formX
  rw [partsY] at formY
  obtain ⟨r, t, rounding, units⟩ := mul_finite_rounding hm hn (full_product formX formY)
  rw [← partsX, ← partsY] at units
  exact rounds_of_units rounding units

theorem Rounds.near {v : ℚ} (h : Rounds v x) (nonneg : 0 ≤ v) (top : v ≤ 2 ^ 1000) :
    ∃ r, toRat? x = some r ∧ IsNear r v := by
  obtain ⟨r, t, rounding, value⟩ := h
  have near := rounding.near nonneg
  exact ⟨_, value (near.lt_top nonneg top), near⟩

theorem Rounds.exact {n : ℕ} {f : ℤ} (h : Rounds (n * 2 ^ f) x) (few : n < 2 ^ 53)
    (smallest : -1074 ≤ f) (top : (n : ℚ) * 2 ^ f < 2 ^ 1024) :
    toRat? x = some (n * 2 ^ f : ℚ) := by
  obtain ⟨r, t, rounding, value⟩ := h
  rw [← rounding.exact few smallest] at top ⊢
  exact value top

/-! ## Whole numbers and decimals -/

theorem decreaseExponent_full {m : ℕ} (hm : m ≠ 0) (e : ℤ) : ∃ n f,
    decreaseExponent m e (Format.binary64.targetExponent (totalExponent m e)) = (n, f) ∧
      (n : ℚ) * 2 ^ f = m * 2 ^ e ∧ (2 ^ 52 ≤ n ∨ f ≤ -1074) := by
  have target := targetExponent_eq (totalExponent m e)
  have total : totalExponent m e = m.log2 + 1 + e := rfl
  unfold decreaseExponent
  generalize hd : (e - Format.binary64.targetExponent (totalExponent m e)).toNat = d
  refine ⟨_, _, rfl, ?_, ?_⟩
  · rw [Nat.shiftLeft_eq, ← units_eq, sub_add_cancel]
  · by_cases tiny : e - d ≤ -1074
    · exact .inr tiny
    · have digits : 52 ≤ m.log2 + d := by omega
      refine .inl ((Nat.pow_le_pow_right two_pos digits).trans ?_)
      rw [pow_add, Nat.shiftLeft_eq]
      exact Nat.mul_le_mul_right _ (Nat.log2_self_le hm)

/-- A whole number of 53 digits is a double. -/
theorem toFloat_value {n : ℕ} (few : n < 2 ^ 53) : toRat? n.toUInt64.toFloat = some (n : ℚ) := by
  rcases eq_or_ne n 0 with rfl | h0
  · rfl
  have number : n.toUInt64.toNat = n := Nat.mod_eq_of_lt (few.trans (by decide))
  obtain ⟨m, e, decreased, value, full⟩ := decreaseExponent_full h0 0
  rw [zpow_zero, mul_one] at value
  have rounded := roundWithAccuracy_rounding .positive (standsFor_exact m) full
  rw [value] at rounded
  obtain ⟨r, t, rounding, units⟩ := rounded
  have parts : n.toUInt64.toFloat = Float.ofModel (Float.Model.pack
      (roundWithAccuracy .binary64 .positive m e .exact)) := by
    change Float.ofModel (Float.Model.pack
      (UnpackedFloat.normalize .binary64 (n.toUInt64.toNat : ℤ) 0 .positive)) = _
    rw [number, UnpackedFloat.normalize, compare_gt_iff_gt.2 (by omega : (n : ℤ) > 0)]
    dsimp only
    rw [Int.toNat_natCast, UnpackedFloat.round, decreased]
  have rounds := rounds_of_units rounding units
  rw [← parts] at rounds
  have exact : Rounds ((n : ℚ) * 2 ^ (0 : ℤ)) n.toUInt64.toFloat := by rwa [zpow_zero, mul_one]
  have top : (n : ℚ) * 2 ^ (0 : ℤ) < 2 ^ 1024 := by
    rw [zpow_zero, mul_one]
    exact_mod_cast few.trans (Nat.pow_lt_pow_right one_lt_two (by decide))
  rw [exact.exact few (by decide) top, zpow_zero, mul_one]

/-- The powers of ten that are doubles. -/
theorem powerOfTen_value (e : Fin 23) :
    toRat? (getElem Float.exactlyRepresentablePowersOfTen e.val (by
      simp [Float.exactlyRepresentablePowersOfTen])) = some (10 ^ e.val) := by
  decide +revert +kernel

theorem ofScientific_above {n : ℕ} (h0 : n ≠ 0) {e : ℕ} (range : e ≤ 2000) :
    ∃ r t, IsRounding ((n : ℚ) * 10 ^ e) r t ∧
      HasUnits .positive r t (UnpackedFloat.ofScientific .binary64 n (e : ℤ)) := by
  have top : ¬ (e : ℤ) > 2 ^ Format.binary64.exponentBits := by
    change ¬ (e : ℤ) > 2 ^ 11
    omega
  have bottom : ¬ (e : ℤ) < -((2 ^ Format.binary64.exponentBits : ℤ) + n.log2) := by
    change ¬ (e : ℤ) < -(2 ^ 11 + (n.log2 : ℤ))
    omega
  have shifted : 0 < n <<< 53 := by
    rw [Nat.shiftLeft_eq]
    exact Nat.mul_pos (Nat.pos_of_ne_zero h0) (Nat.two_pow_pos 53)
  have power : 0 < 10 ^ e := Nat.pow_pos (by decide)
  have full : 2 ^ 52 ≤ n <<< 53 * 10 ^ e := by
    rw [Nat.shiftLeft_eq]
    calc 2 ^ 52
      _ ≤ 1 * 2 ^ 53 * 1 := by decide
      _ ≤ n * 2 ^ 53 * 10 ^ e :=
        Nat.mul_le_mul (Nat.mul_le_mul_right _ (Nat.pos_of_ne_zero h0)) power
  obtain ⟨r, t, rounding, units⟩ :=
    mul_finite_rounding (e := -53) (f := 0) shifted power (.inl full)
  have value :
      ((n <<< 53 : ℕ) : ℚ) * 2 ^ (-53 : ℤ) * ((10 ^ e : ℕ) * 2 ^ (0 : ℤ)) = n * 10 ^ e := by
    rw [Nat.shiftLeft_eq, zpow_zero, mul_one, zpow_neg]
    push_cast
    rw [mul_inv_cancel_right₀ (by norm_num)]
  rw [value] at rounding
  refine ⟨r, t, rounding, ?_⟩
  rw [UnpackedFloat.ofScientific, dif_neg h0, if_neg top, if_neg bottom,
    if_pos (Int.natCast_nonneg e)]
  exact units

theorem ofScientific_below {n : ℕ} (h0 : n ≠ 0) {e : ℕ} (he : 0 < e) (range : e ≤ 2000) :
    ∃ r t, IsRounding ((n : ℚ) / 10 ^ e) r t ∧
      HasUnits .positive r t (UnpackedFloat.ofScientific .binary64 n (-(e : ℤ))) := by
  have top : ¬ -(e : ℤ) > 2 ^ Format.binary64.exponentBits := by
    change ¬ -(e : ℤ) > 2 ^ 11
    omega
  have bottom : ¬ -(e : ℤ) < -((2 ^ Format.binary64.exponentBits : ℤ) + n.log2) := by
    change ¬ -(e : ℤ) < -(2 ^ 11 + (n.log2 : ℤ))
    omega
  have power : 0 < 10 ^ e := Nat.pow_pos (by decide)
  obtain ⟨r, t, rounding, units⟩ :=
    div_finite_rounding (e := 0) (f := 0) (Nat.pos_of_ne_zero h0) power
  have value : (n : ℚ) * 2 ^ (0 : ℤ) / ((10 ^ e : ℕ) * 2 ^ (0 : ℤ)) = n / 10 ^ e := by
    rw [zpow_zero, mul_one, mul_one]
    push_cast
    rfl
  rw [value] at rounding
  refine ⟨r, t, rounding, ?_⟩
  rw [UnpackedFloat.ofScientific, dif_neg h0, if_neg top, if_neg bottom, if_neg (by omega)]
  have size : (- -(e : ℤ)).toNat = e := by omega
  simp only [size]
  exact units

/-- A decimal is rounded once. -/
theorem ofScientific_rounds {n : ℕ} (h0 : n ≠ 0) (negative : Bool) {e : ℕ} (range : e ≤ 2000) :
    Rounds ((n : ℚ) * 10 ^ (if negative then -e else e : ℤ)) (Float.ofScientific n negative e) := by
  have positive : (0 : ℚ) < n := by exact_mod_cast Nat.pos_of_ne_zero h0
  have power : (0 : ℚ) < 10 ^ e := by positivity
  have above : (n : ℚ) * 10 ^ (if false then -e else e : ℤ) = n * 10 ^ e := by
    rw [if_neg Bool.false_ne_true, zpow_natCast]
  have below : (n : ℚ) * 10 ^ (if true then -e else e : ℤ) = n / 10 ^ e := by
    rw [if_pos rfl, zpow_neg, zpow_natCast, div_eq_mul_inv]
  unfold Float.ofScientific
  dsimp only
  by_cases fast : n < 2 ^ 53 ∧ e ≤ 22
  · have whole := toFloat_value fast.1
    have tens := powerOfTen_value ⟨e, by omega⟩
    rw [dif_pos fast]
    cases negative with
    | false =>
      rw [above]
      exact mul_rounds whole tens positive power
    | true =>
      rw [below]
      exact div_rounds whole tens positive power
  · rw [dif_neg fast]
    cases negative with
    | false =>
      rw [above]
      obtain ⟨r, t, rounding, units⟩ := ofScientific_above h0 range
      exact rounds_of_units rounding units
    | true =>
      rw [below]
      rcases Nat.eq_zero_or_pos e with rfl | he
      · obtain ⟨r, t, rounding, units⟩ := ofScientific_above h0 range
        rw [pow_zero, mul_one] at rounding
        rw [pow_zero, div_one]
        exact rounds_of_units rounding units
      · obtain ⟨r, t, rounding, units⟩ := ofScientific_below h0 he range
        have opposite : Int.negOfNat e = -(e : ℤ) := Int.negOfNat_eq
        rw [if_pos rfl, opposite]
        exact rounds_of_units rounding units

end Floats

end Double
end Reckoner
