-- What the guard makes sure of. A power that passes has an exponent of at most a hundred and an
-- absolute value of at most a thousand digits, wherever base and exponent measure what they are.
import Mathlib
import Reckoner.Proofs.Algebra.Plain
import Reckoner.Proofs.Value.Writing
import Reckoner.Reading.Read

namespace Reckoner

open Binary

/-! ## Measures -/

/-- A magnitude that a number can have: off by a small part, or infinite past all doubles. -/
def Magnitude.Fits (v : ℝ) : Magnitude → Prop
  | .finite b => Near (lastBits 54) b.toReal |v|
  | .infinite => (⟨1, 1023⟩ : Binary).toReal ≤ |v|
  | .undefined => False

theorem Magnitude.fits_finite {b : Binary} {v : ℝ} :
    (Magnitude.finite b).Fits v ↔ Near (1 / 2 ^ 50) b.toReal |v| := by
  have part : lastBits 54 = 1 / 2 ^ 50 := by
    rw [lastBits_eq_zpow]
    norm_num
  rw [Fits, part]

theorem Magnitude.fits_infinite {v : ℝ} : Magnitude.infinite.Fits v ↔ 2 ^ 1023 ≤ |v| := by
  rw [Fits, toReal, Int.cast_one, one_mul, ← zpow_natCast]
  rfl

/-- The magnitude of the expression is the one of the number. -/
def Expr.MeasuredAs (x : Expr) (v : ℝ) : Prop := ∃ m, magnitude? x = some m ∧ m.Fits v

theorem Magnitude.ofBinary_fits {b : Binary} {v : ℝ} (hb : b.man ≠ 0)
    (h : Near (1 / 2 ^ 51) b.toReal v) : (Magnitude.ofBinary b).Fits v := by
  unfold Magnitude.ofBinary
  split_ifs with hlarge
  · have least := le_abs_toReal hb
    have upper := h.upper
    have power : (2 : ℝ) * 2 ^ 1023 ≤ 2 ^ (b.magnitude - 1) := by
      rw [← pow_succ', ← zpow_natCast]
      exact zpow_le_zpow_right₀ one_le_two (by omega)
    rw [Magnitude.fits_infinite]
    generalize (2 : ℝ) ^ 1023 = top at power ⊢
    linarith [abs_nonneg v]
  · rw [Magnitude.fits_finite, toReal_abs]
    exact h.of_abs.mono (by norm_num)

theorem toBinary?_zero : Number.toBinary? 53 (.exact 0) = some Binary.zero :=
  congrArg some (by decide : ofRat .nearest 53 0 = Binary.zero)

/-- The magnitude of a real number. -/
theorem Magnitude.ofParts_real {n : Number} {x : Binary} (h : n.toBinary? 53 = some x) :
    Magnitude.ofParts n (Builder.partNumber none) = .ofBinary x := by
  have absent : Builder.partNumber none = .exact 0 := rfl
  rw [absent]
  cases n with
  | exact q => simp [Magnitude.ofParts, h, toBinary?_zero, Binary.zero]
  | approx b prec => simp [Magnitude.ofParts, h, toBinary?_zero, Binary.zero]
  | infinite negative => cases h
  | undefined => cases h

/-- Measured to 57 bits, a number fits the magnitude of its 53 leading bits. -/
theorem Numeric.Holds.fits {n : Numeric} {v : ℝ} (h : n.Holds 57 v) :
    ∃ re, n = .value re none ∧
      (Magnitude.ofParts (Builder.partNumber re) (Builder.partNumber none)).Fits v := by
  cases h with
  | zero h0 =>
    refine ⟨none, rfl, ?_⟩
    have value : Magnitude.ofParts (Builder.partNumber none) (Builder.partNumber none) =
        .finite Binary.zero := Magnitude.ofParts_real toBinary?_zero
    rw [value, h0, Magnitude.fits_finite, toReal_zero, abs_zero]
    exact .refl (by norm_num) 0
  | @part p hpart =>
    refine ⟨some p, rfl, ?_⟩
    obtain ⟨b, bits, hb, hv, sure, -, near⟩ := hpart
    have all : max 1 (min 53 p.accuracy) = 53 := by
      push_cast at sure
      omega
    have close : Near (1 / 2 ^ 51) (b.round .nearest 53).toReal v := by
      refine (near.trans (round_nearest_near 53 b) (by positivity)).mono ?_
      rw [lastBits_eq_zpow]
      norm_num
    have man : (b.round .nearest 53).man ≠ 0 := fun h0 =>
      close.ne_zero (by norm_num) hv (toReal_eq_zero.2 h0)
    have number : Builder.partNumber (some p) = .approx (b.round .nearest 53) 53 := by
      unfold Builder.partNumber
      simp only [hb, all]
      exact if_neg man
    rw [number, Magnitude.ofParts_real rfl]
    exact Magnitude.ofBinary_fits man close

/-- Plain arithmetic measures what it is. -/
theorem measuredAs_of_plain {x : Expr} {v : ℚ} (hx : x.size ≤ 2000)
    (h : x.plainValue? = some v) : x.MeasuredAs v := by
  have holds := findsValues (x.size + 1) 57 x v le_rfl (by omega) (by omega) h
  obtain ⟨re, value, fits⟩ := holds.fits
  exact ⟨_, by rw [magnitude?, Expr.toNumeric, value], fits⟩

/-! ## Doubles -/

/-- A finite magnitude is a value that a double holds. -/
def Magnitude.IsDouble : Magnitude → Prop
  | .finite b => 0 ≤ b.toReal ∧ bitLength b.man.natAbs ≤ 54 ∧ b.magnitude ≤ 1024
  | _ => True

theorem Magnitude.ofBinary_isDouble {b : Binary} (h : bitLength b.man.natAbs ≤ 54) :
    (Magnitude.ofBinary b).IsDouble := by
  unfold Magnitude.ofBinary
  split_ifs with hb
  · trivial
  · refine ⟨?_, ?_, ?_⟩
    · rw [toReal_abs]
      exact abs_nonneg _
    · exact h
    · rw [not_lt] at hb
      exact hb

theorem toBinary?_partNumber {part : Option Part} {x : Binary}
    (h : (Builder.partNumber part).toBinary? 53 = some x) : bitLength x.man.natAbs ≤ 54 := by
  cases part with
  | none =>
    obtain rfl := Option.some.inj h
    exact bitLength_round _ _ _
  | some p =>
    unfold Builder.partNumber at h
    cases hp : p.value with
    | approx b bits =>
      simp only [hp, Number.settle] at h
      split_ifs at h
      · rw [toBinary?_zero] at h
        obtain rfl := Option.some.inj h
        exact Nat.zero_le 54
      · obtain rfl := Option.some.inj h
        exact (bitLength_round _ _ _).trans (by omega)
    | exact q =>
      simp only [hp] at h
      obtain rfl := Option.some.inj h
      exact bitLength_round _ _ _
    | infinite negative => simp [hp, Number.toBinary?] at h
    | undefined => simp [hp, Number.toBinary?] at h

theorem Magnitude.ofParts_isDouble {re im : Number}
    (hre : ∀ x, re.toBinary? 53 = some x → bitLength x.man.natAbs ≤ 54)
    (him : ∀ x, im.toBinary? 53 = some x → bitLength x.man.natAbs ≤ 54) :
    (Magnitude.ofParts re im).IsDouble := by
  unfold Magnitude.ofParts
  split
  · trivial
  · trivial
  · trivial
  · trivial
  · split
    · rename_i x y hx hy
      split_ifs
      · exact ofBinary_isDouble (hre x hx)
      · exact ofBinary_isDouble (him y hy)
      · exact ofBinary_isDouble (bitLength_round _ _ _)
    · trivial

/-- What the guard measures is a double or no number at all. -/
theorem magnitude?_isDouble {x : Expr} {m : Magnitude} (h : magnitude? x = some m) :
    m.IsDouble := by
  unfold magnitude? at h
  split at h
  · obtain rfl := Option.some.inj h
    exact Magnitude.ofParts_isDouble (fun _ => toBinary?_partNumber) fun _ => toBinary?_partNumber
  · obtain rfl := Option.some.inj h
    trivial
  · cases h
  · cases h

/-! ## Digits -/

/-- The decimal logarithm of a double above one. -/
theorem log10_near {b : Binary} (hb : 1 < b.toReal) (length : bitLength b.man.natAbs ≤ 54)
    (hm : b.magnitude ≤ 1024) :
    Near (1 / 2 ^ 50) (log10 b).toReal (Real.log b.toReal / Real.log 10) := by
  have positive : 0 < b.toReal := by linarith
  have above : 0 < b.magnitude := by
    by_contra h
    have size := abs_toReal_lt b
    have : (2 : ℝ) ^ b.magnitude ≤ 1 := zpow_le_one_of_nonpos₀ one_le_two (by omega)
    rw [abs_of_pos positive] at size
    linarith
  have short : bitLength b.magnitude.natAbs ≤ 11 := bitLength_le_iff.2 (by omega)
  have small : (2 : ℝ) ^ (2 - (120 : ℕ) : Int) ≤ 1 / 2 ^ 100 := by norm_num
  have first := (ln_near .nearest 120 (toReal_pos.1 positive) (by omega) (by omega)
    (by omega)).mono small
  have second := (ln_near .nearest 120 (x := ofInt 10) (by decide) (by omega) (by decide)
    (by decide)).mono small
  rw [toReal_ofInt, Int.cast_ofNat] at second
  have ten : Real.log 10 ≠ 0 := (Real.log_pos (by norm_num)).ne'
  have nonzero : (ln .nearest 120 (ofInt 10)).man ≠ 0 := fun h0 =>
    second.ne_zero (by norm_num) ten (toReal_eq_zero.2 h0)
  have quotient := first.mul (second.inv (by norm_num)) (by norm_num)
  rw [← div_eq_mul_inv, ← div_eq_mul_inv] at quotient
  have rounded := quotient.trans (div_near .nearest 53 (ln .nearest 120 b) nonzero)
    (two_zpow_pos _).le
  refine rounded.mono ?_
  norm_num

/-- The part of a power that measuring may lose. -/
def lostPart : ℚ := 1 / 2 ^ 30

/-- The largest absolute value that a power can have and pass: ten to the thousandth, and a little
more for what measuring loses. -/
def largestPower : ℚ := 10 ^ 1000 * (1 + lostPart)

theorem le_largestPower : 10 ^ 1000 ≤ largestPower :=
  le_mul_of_one_le_right (by positivity) (by norm_num [lostPart])

theorem one_le_largestPower : 1 ≤ largestPower :=
  (one_le_pow₀ (by norm_num) : (1 : ℚ) ≤ 10 ^ 1000).trans le_largestPower

theorem exp_le_lostPart : Real.exp (1 / 2 ^ 34) ≤ 1 + lostPart := by
  have small : |(1 / 2 ^ 34 : ℝ)| ≤ 1 := by
    rw [abs_of_pos (by positivity)]
    norm_num
  have bound := Real.abs_exp_sub_one_le small
  rw [abs_of_pos (by positivity : (0 : ℝ) < 1 / 2 ^ 34)] at bound
  norm_num [lostPart] at bound ⊢
  linarith [(abs_le.1 bound).2]

section Digits

variable {e b : Binary} {k : ℕ} {q : ℝ}

/-- How the digits are counted: the exponent times the logarithm, off by a small part. -/
theorem digits_near (he : Near (1 / 2 ^ 50) e.toReal k) (hb : 1 < b.toReal)
    (length : bitLength b.man.natAbs ≤ 54) (hm : b.magnitude ≤ 1024) :
    Near (1 / 2 ^ 48) ((e.mul (log10 b)).round .nearest 53).toReal
      (k * (Real.log b.toReal / Real.log 10)) := by
  have product := he.mul (log10_near hb length hm) (by positivity)
  rw [← toReal_mul] at product
  refine (product.trans (round_nearest_near 53 _) (two_zpow_pos _).le).mono ?_
  norm_num

/-- The logarithm of a power, from the number of its digits. -/
theorem log_pow_near (hk : k ≤ 100) (hq : 0 < |q|) (hb : Near (1 / 2 ^ 50) b.toReal |q|) :
    |k * Real.log b.toReal - k * Real.log q| ≤ 1 / 2 ^ 42 := by
  have close := log_near hq hb (by norm_num)
  have few : (k : ℝ) ≤ 100 := by exact_mod_cast hk
  rw [Real.log_abs] at close
  rw [← mul_sub, abs_mul, Nat.abs_cast]
  calc (k : ℝ) * |Real.log b.toReal - Real.log q| ≤ 100 * (2 * (1 / 2 ^ 50)) :=
        mul_le_mul few close (abs_nonneg _) (by norm_num)
    _ ≤ 1 / 2 ^ 42 := by norm_num

theorem exp_thousand (x : ℝ) :
    Real.exp (1000 * Real.log 10 + x) = 10 ^ 1000 * Real.exp x := by
  rw [Real.exp_add, ← Real.exp_log (by norm_num : (0 : ℝ) < 10), ← Real.exp_nat_mul, Real.log_exp]
  norm_num

theorem abs_pow_eq_exp (hq : 0 < |q|) : |q| ^ k = Real.exp (k * Real.log q) := by
  rw [Real.exp_nat_mul, ← Real.log_abs, Real.exp_log hq]

/-- A double that is near a number has the number off zero, unless it is zero itself. -/
theorem abs_pos_of_near (hb : Near (1 / 2 ^ 50) b.toReal |q|) (hb1 : 1 < b.toReal) : 0 < |q| := by
  rw [abs_pos]
  rintro rfl
  rw [abs_zero] at hb
  linarith [hb.eq_zero]

/-- A power that does not have too many digits is not above the largest one. -/
theorem pow_le_largest (hk : k ≤ 100) (he : Near (1 / 2 ^ 50) e.toReal k) (hb0 : 0 ≤ b.toReal)
    (hb : Near (1 / 2 ^ 50) b.toReal |q|) (length : bitLength b.man.natAbs ≤ 54)
    (hm : b.magnitude ≤ 1024) (h : hasTooManyDigits (.finite e) (.finite b) = false) :
    |q| ^ k ≤ largestPower := by
  rcases le_or_gt b.toReal 1 with hb1 | hb1
  · have lower := hb.lower
    rw [abs_abs, abs_of_nonneg hb0] at lower
    have ten : |q| ≤ 10 := by linarith
    have least : (10 ^ 1000 : ℝ) ≤ largestPower := by exact_mod_cast le_largestPower
    calc |q| ^ k ≤ 10 ^ k := pow_le_pow_left₀ (abs_nonneg q) ten k
      _ ≤ 10 ^ 1000 := pow_le_pow_right₀ (by norm_num) (by omega)
      _ ≤ largestPower := least
  · have few : ((e.mul (log10 b)).round .nearest 53).toReal ≤ 1000 := by
      have above : lt (.ofInt 1) b = true := (lt_iff _ _).2 (by simpa using hb1)
      change (lt (.ofInt 1) b && lt (.ofInt maxPowerDigits) _) = false at h
      rw [above, Bool.true_and, Bool.eq_false_iff, Ne, lt_iff, not_lt, toReal_ofInt] at h
      exact_mod_cast h
    have positive := abs_pos_of_near hb hb1
    have ten := Real.log_pos (by norm_num : (1 : ℝ) < 10)
    have count : 0 ≤ k * (Real.log b.toReal / Real.log 10) :=
      mul_nonneg k.cast_nonneg (div_pos (Real.log_pos hb1) ten).le
    have digits : k * (Real.log b.toReal / Real.log 10) ≤ 1000 + 1 / 2 ^ 37 := by
      have lower := (digits_near he hb1 length hm)
      rw [Near, abs_of_nonneg count] at lower
      norm_num at lower ⊢
      linarith [(abs_le.1 lower).1]
    have total : k * Real.log q ≤ 1000 * Real.log 10 + 1 / 2 ^ 34 := by
      rw [← mul_div_assoc, div_le_iff₀ ten] at digits
      linarith [log_ten_le, (abs_le.1 (log_pow_near hk positive hb)).1]
    calc |q| ^ k = Real.exp (k * Real.log q) := abs_pow_eq_exp positive
      _ ≤ Real.exp (1000 * Real.log 10 + 1 / 2 ^ 34) := Real.exp_le_exp.2 total
      _ = 10 ^ 1000 * Real.exp (1 / 2 ^ 34) := exp_thousand _
      _ ≤ 10 ^ 1000 * (1 + lostPart) := mul_le_mul_of_nonneg_left exp_le_lostPart (by positivity)
      _ = largestPower := by rw [largestPower]; push_cast; rfl

/-- A power that has too many digits is large. -/
theorem large_of_digits (hk : k ≤ 100) (he : Near (1 / 2 ^ 50) e.toReal k)
    (hb : Near (1 / 2 ^ 50) b.toReal |q|) (length : bitLength b.man.natAbs ≤ 54)
    (hm : b.magnitude ≤ 1024) (h : hasTooManyDigits (.finite e) (.finite b) = true) :
    10 ^ 1000 ≤ |q| ^ k * (1 + lostPart) := by
  change (lt (.ofInt 1) b && lt (.ofInt maxPowerDigits) _) = true at h
  rw [Bool.and_eq_true, lt_iff, lt_iff, toReal_ofInt, toReal_ofInt] at h
  have hb1 : 1 < b.toReal := by exact_mod_cast h.1
  have many : 1000 < ((e.mul (log10 b)).round .nearest 53).toReal := by exact_mod_cast h.2
  have positive := abs_pos_of_near hb hb1
  have ten := Real.log_pos (by norm_num : (1 : ℝ) < 10)
  have count : 0 ≤ k * (Real.log b.toReal / Real.log 10) :=
    mul_nonneg k.cast_nonneg (div_pos (Real.log_pos hb1) ten).le
  have digits : 1000 - 1 / 2 ^ 37 ≤ k * (Real.log b.toReal / Real.log 10) := by
    have upper := (digits_near he hb1 length hm)
    rw [Near, abs_of_nonneg count] at upper
    norm_num at upper ⊢
    linarith [(abs_le.1 upper).2]
  have total : 1000 * Real.log 10 ≤ k * Real.log q + 1 / 2 ^ 34 := by
    rw [← mul_div_assoc, le_div_iff₀ ten] at digits
    linarith [log_ten_le, (abs_le.1 (log_pow_near hk positive hb)).2]
  calc (10 : ℝ) ^ 1000 = Real.exp (1000 * Real.log 10) := by
        rw [← add_zero (1000 * Real.log 10), exp_thousand, Real.exp_zero, mul_one]
    _ ≤ Real.exp (k * Real.log q + 1 / 2 ^ 34) := Real.exp_le_exp.2 total
    _ = |q| ^ k * Real.exp (1 / 2 ^ 34) := by rw [Real.exp_add, abs_pow_eq_exp positive]
    _ ≤ |q| ^ k * (1 + lostPart) := mul_le_mul_of_nonneg_left exp_le_lostPart (by positivity)

end Digits

/-! ## The guard -/

/-- What a power that passes is like. -/
theorem checkPower_ok {b e : Expr} (h : checkPower b e = .ok ()) (he : e.isClosed = true) :
    ∃ m, magnitude? e = some m ∧ m.above maxExponent = false ∧
      (b.isClosed = true → ∃ n, magnitude? b = some n ∧ hasTooManyDigits m n = false) := by
  unfold checkPower at h
  rw [he] at h
  cases hm : magnitude? e with
  | none =>
    rw [hm] at h
    cases h
  | some m =>
    rw [hm] at h
    refine ⟨m, rfl, ?_⟩
    cases habove : m.above maxExponent with
    | true =>
      simp only [habove] at h
      cases h
    | false =>
      refine ⟨rfl, fun hb => ?_⟩
      simp only [habove, hb] at h
      cases hn : magnitude? b with
      | none =>
        rw [hn] at h
        cases h
      | some n =>
        rw [hn] at h
        refine ⟨n, rfl, ?_⟩
        cases hdigits : hasTooManyDigits m n with
        | true =>
          simp only [hdigits] at h
          cases h
        | false => rfl

/-- What a power that does not pass is like, if it has a size at all. -/
theorem checkPower_error {b e : Expr} {f : ReadFault} (h : checkPower b e = .error f)
    (hf : ∀ shown, f ≠ .noFiniteValue shown) :
    ∃ m, magnitude? e = some m ∧
      (f = .exponentTooLarge ∧ m.above maxExponent = true ∨
        f = .powerTooLarge ∧ m.above maxExponent = false ∧
          ∃ n, magnitude? b = some n ∧ hasTooManyDigits m n = true) := by
  unfold checkPower at h
  cases he : e.isClosed with
  | false =>
    rw [he] at h
    cases h
  | true =>
    rw [he] at h
    cases hm : magnitude? e with
    | none =>
      rw [hm] at h
      exact absurd (Except.error.inj h).symm (hf _)
    | some m =>
      rw [hm] at h
      refine ⟨m, rfl, ?_⟩
      cases habove : m.above maxExponent with
      | true =>
        simp only [habove] at h
        exact Or.inl ⟨(Except.error.inj h).symm, rfl⟩
      | false =>
        cases hb : b.isClosed with
        | false =>
          simp only [habove, hb] at h
          cases h
        | true =>
          simp only [habove, hb] at h
          cases hn : magnitude? b with
          | none =>
            rw [hn] at h
            exact absurd (Except.error.inj h).symm (hf _)
          | some n =>
            rw [hn] at h
            cases hdigits : hasTooManyDigits m n with
            | false =>
              simp only [hdigits] at h
              cases h
            | true =>
              simp only [hdigits] at h
              exact Or.inr ⟨(Except.error.inj h).symm, rfl, n, rfl, hdigits⟩

theorem forM_ok {α ε : Type} {f : α → Except ε Unit} {l : List α} (h : l.forM f = .ok ()) :
    ∀ a ∈ l, f a = .ok () := by
  induction l with
  | nil => simp
  | cons a l ih =>
    rw [List.forM_eq_forM, List.forM_cons] at h
    cases ha : f a with
    | error e =>
      rw [ha] at h
      cases h
    | ok _ =>
      rw [ha] at h
      intro c hc
      rcases List.mem_cons.1 hc with rfl | hc
      · exact ha
      · exact ih h c hc

theorem forM_error {α ε : Type} {f : α → Except ε Unit} {l : List α} {e : ε}
    (h : l.forM f = .error e) : ∃ a ∈ l, f a = .error e := by
  induction l with
  | nil => cases h
  | cons a l ih =>
    rw [List.forM_eq_forM, List.forM_cons] at h
    cases ha : f a with
    | error e' =>
      rw [ha] at h
      exact ⟨a, List.mem_cons_self, ha.trans h⟩
    | ok _ =>
      rw [ha] at h
      obtain ⟨c, hc, he⟩ := ih h
      exact ⟨c, List.mem_cons_of_mem a hc, he⟩

theorem checkPowers_ok {x : Expr} (h : checkPowers x = .ok ()) {b e : Expr}
    (hmem : Expr.pow b e ∈ x.postorder) : checkPower b e = .ok () :=
  forM_ok h (.pow b e) hmem

theorem checkPowers_error {x : Expr} {f : ReadFault} (h : checkPowers x = .error f) :
    ∃ b e, Expr.pow b e ∈ x.postorder ∧ checkPower b e = .error f := by
  obtain ⟨y, hy, h⟩ := forM_error h
  cases y with
  | pow b e => exact ⟨b, e, hy, h⟩
  | _ => cases h

/-! ## Sizes -/

/-- An exponent that passes is small. -/
theorem Magnitude.small_of_not_above {m : Magnitude} {k : Int} (double : m.IsDouble)
    (fits : m.Fits k) (h : m.above maxExponent = false) :
    k.natAbs ≤ 100 ∧ ∃ x : Binary, m = .finite x ∧ Near (1 / 2 ^ 50) x.toReal k.natAbs := by
  match m with
  | .undefined => exact fits.elim
  | .infinite => cases h
  | .finite x =>
    obtain ⟨x0, -, -⟩ := double
    rw [Magnitude.fits_finite, ← Int.cast_abs, ← Nat.cast_natAbs] at fits
    refine ⟨?_, x, rfl, fits⟩
    change lt (.ofInt maxExponent) x = false at h
    rw [Bool.eq_false_iff, Ne, lt_iff, not_lt, toReal_ofInt] at h
    have most : x.toReal ≤ 100 := by exact_mod_cast h
    have lower := fits.lower
    rw [Nat.abs_cast, abs_of_nonneg x0] at lower
    have : (k.natAbs : ℝ) < 101 := by linarith
    have : k.natAbs < 101 := by exact_mod_cast this
    omega

/-- An exponent that does not pass is large. -/
theorem Magnitude.large_of_above {m : Magnitude} {k : Int} (fits : m.Fits k)
    (h : m.above maxExponent = true) : 100 ≤ |k| := by
  match m with
  | .undefined => exact fits.elim
  | .infinite =>
    have power : (100 : ℝ) ≤ 2 ^ 1023 :=
      le_trans (by norm_num) (pow_le_pow_right₀ one_le_two (by norm_num : 7 ≤ 1023))
    have large : (100 : ℝ) ≤ |(k : ℝ)| := power.trans (Magnitude.fits_infinite.1 fits)
    exact_mod_cast large
  | .finite x =>
    change lt (.ofInt maxExponent) x = true at h
    rw [lt_iff, toReal_ofInt] at h
    have least : 100 < x.toReal := by exact_mod_cast h
    have upper := (Magnitude.fits_finite.1 fits).upper
    rw [abs_abs, abs_of_pos (by linarith)] at upper
    have : (99 : ℝ) < |(k : ℝ)| := by linarith
    have : 99 < |k| := by exact_mod_cast this
    omega

/-- A power that passes has a small exponent and is not above the largest one. -/
theorem checkPower_bounds {b e : Expr} (h : checkPower b e = .ok ()) (he : e.isClosed = true)
    {k : Int} (hk : e.MeasuredAs k) :
    |k| ≤ 100 ∧ (b.isClosed = true → ∀ q : ℝ, b.MeasuredAs q → |q| ^ k.natAbs ≤ largestPower) := by
  obtain ⟨m, hm, below, rest⟩ := checkPower_ok h he
  obtain ⟨m', hm', fits⟩ := hk
  obtain rfl : m = m' := Option.some.inj (hm.symm.trans hm')
  obtain ⟨few, x, rfl, near⟩ := Magnitude.small_of_not_above (magnitude?_isDouble hm) fits below
  refine ⟨by rw [Int.abs_eq_natAbs]; exact_mod_cast few, fun hb q hq => ?_⟩
  obtain ⟨n, hn, digits⟩ := rest hb
  obtain ⟨n', hn', qfits⟩ := hq
  obtain rfl : n = n' := Option.some.inj (hn.symm.trans hn')
  have double := magnitude?_isDouble hn
  match n with
  | .undefined => exact qfits.elim
  | .infinite =>
    -- Past the largest double, only the exponent zero passes.
    have zero : x.man = 0 := by simpa [hasTooManyDigits] using digits
    rw [toReal_eq_zero.2 zero] at near
    have none : k.natAbs = 0 := by
      have lower := near.lower
      rw [Nat.abs_cast, abs_zero] at lower
      have : (k.natAbs : ℝ) ≤ 0 := by linarith
      have : k.natAbs ≤ 0 := by exact_mod_cast this
      omega
    rw [none, pow_zero]
    exact_mod_cast one_le_largestPower
  | .finite y =>
    obtain ⟨y0, length, top⟩ := double
    exact pow_le_largest few near y0 (Magnitude.fits_finite.1 qfits) length top digits

/-- An exponent that is refused is large. -/
theorem exponent_large {b e : Expr} (h : checkPower b e = .error .exponentTooLarge) {k : Int}
    (hk : e.MeasuredAs k) : 100 ≤ |k| := by
  obtain ⟨m, hm, ⟨-, above⟩ | ⟨hf, -⟩⟩ := checkPower_error h (by simp)
  · obtain ⟨m', hm', fits⟩ := hk
    obtain rfl : m = m' := Option.some.inj (hm.symm.trans hm')
    exact Magnitude.large_of_above fits above
  · cases hf

/-- A power that is refused is large, or its base is past the largest double. -/
theorem power_large {b e : Expr} (h : checkPower b e = .error .powerTooLarge) {k : Int}
    (hk : e.MeasuredAs k) {q : ℝ} (hq : b.MeasuredAs q) :
    2 ^ 1023 ≤ |q| ∨ 10 ^ 1000 ≤ |q| ^ k.natAbs * (1 + lostPart) := by
  obtain ⟨m, hm, ⟨hf, -⟩ | ⟨-, below, n, hn, digits⟩⟩ := checkPower_error h (by simp)
  · cases hf
  · obtain ⟨m', hm', fits⟩ := hk
    obtain rfl : m = m' := Option.some.inj (hm.symm.trans hm')
    obtain ⟨few, x, rfl, near⟩ := Magnitude.small_of_not_above (magnitude?_isDouble hm) fits below
    obtain ⟨n', hn', qfits⟩ := hq
    obtain rfl : n = n' := Option.some.inj (hn.symm.trans hn')
    have double := magnitude?_isDouble hn
    match n with
    | .undefined => exact qfits.elim
    | .infinite => exact Or.inl (Magnitude.fits_infinite.1 qfits)
    | .finite y =>
      obtain ⟨-, length, top⟩ := double
      exact Or.inr (large_of_digits few near (Magnitude.fits_finite.1 qfits) length top digits)

end Reckoner
