-- Mental arithmetic is exact. Whichever rule a whole number is treated by, the answer is the one
-- of plain arithmetic, and it passes its check; only a number of too many digits keeps a solver
-- from an answer.
import Mathlib.Data.Rat.Floor
import Mathlib.Tactic.Ring
import Reckoner.Proofs.Value.Writing
import Reckoner.Vedic.Sutras

namespace Reckoner

namespace Vedic

/-! ## Checked answers -/

/-- The solution answers with the number, and the answer passed its check. -/
structure Answers (n : Int) (s : Solution) : Prop where
  success : s.success = true
  verified : s.verified = true
  answer : s.answer = .whole n

theorem equal_whole (m n : Int) : (Value.whole m).equal (.whole n) = decide (m = n) := by
  by_cases h : m = n
  · subst h
    simp [Value.equal, Value.quantity?, Quantity.equal, Quantity.compare?]
  · have : compare m n ≠ .eq := fun hc => h (compare_eq_iff_eq.1 hc)
    simp [Value.equal, Value.quantity?, Quantity.equal, Quantity.compare?, this, h]

theorem mul_whole (m n : Int) : (Value.whole m).mul (.whole n) = .ok (.whole (m * n)) := rfl

theorem plainSquare_whole (n : Int) : plainSquare (.whole n) = .ok (.whole (n * n)) := rfl

theorem plainCube_whole (n : Int) : plainCube (.whole n) = .ok (.whole (n * n * n)) := rfl

/-! ## Squares -/

theorem standardSquare_exact (n : Int) :
    WrittenWhen (standardSquare (.whole n)) [n, n ^ 2] (Answers (n ^ 2)) := by
  unfold standardSquare
  simp only [plainSquare_whole, ok_bind]
  refine ((Value.line_written _).bind fun _ _ => .ok ?_).congr ?_
  · exact ⟨rfl, by simp [equal_whole], by rw [sq]⟩
  · simp [Value.wholeNumbers, sq]

/-- Near a base all numbers of the steps are small. -/
theorem nearBase_small {n base : Nat} (hb : base ∈ bases) (hn : isNear n base = true) :
    ∀ m ∈ [(n : Int), base, n - base, n + (n - base)], m.natAbs < 10 ^ 4 := by
  have hbase : base ≤ 1000 := by
    simp only [bases, List.mem_cons, List.not_mem_nil, or_false] at hb
    omega
  have hclose : 5 * n < 6 * base := by
    simp only [isNear, Bool.and_eq_true, decide_eq_true_eq] at hn
    omega
  intro m hm
  simp only [List.mem_cons, List.not_mem_nil, or_false] at hm
  rcases hm with rfl | rfl | rfl | rfl <;> omega

theorem writable_mul_of_small {m n : Int} (hm : m.natAbs < 10 ^ 4) (hn : n.natAbs < 10 ^ 4) :
    Writable (m * n) := by
  apply writable_of_small
  rw [Int.natAbs_mul]
  calc m.natAbs * n.natAbs < 10 ^ 4 * 10 ^ 4 := Nat.mul_lt_mul'' hm hn
    _ ≤ 10 ^ 10 := by norm_num

theorem nearBaseSquare_exact {n base : Nat} (hb : base ∈ bases) (hn : isNear n base = true) :
    WrittenWhen (nearBaseSquare n base (.whole n)) [(n : Int), (n : Int) ^ 2]
      (Answers ((n : Int) ^ 2)) := by
  have square : ((n : Int) + (n - base)) * base + (n - base) * (n - base) = n * n := by ring
  unfold nearBaseSquare
  simp only [plainSquare_whole, ok_bind]
  refine ((Value.line_written _).bind fun _ _ => (Value.line_written _).bind fun _ _ =>
    (Value.line_written _).bind fun _ _ => (Value.line_written _).bind fun _ _ =>
    (Value.line_written _).bind fun _ _ => .ok ?_).congr ?_
  · exact ⟨rfl, by simp [equal_whole, square], by rw [square, sq]⟩
  · have small := nearBase_small hb hn
    simp only [List.forall_mem_cons, List.not_mem_nil, false_imp_iff, implies_true,
      and_true] at small
    obtain ⟨hn, hbase, hd, hl⟩ := small
    have writable : ∀ {m : Int}, m.natAbs < 10 ^ 4 → Writable m := fun h =>
      writable_of_small (h.trans (by norm_num))
    have := writable hn
    have := writable hbase
    have := writable hd
    have := writable hl
    have := writable_mul_of_small hd hd
    have := writable_mul_of_small hn hn
    simp_all [Value.wholeNumbers, sq]

theorem endsInFiveSquare_exact {n : Nat} (h : n % 10 = 5) :
    WrittenWhen (endsInFiveSquare n (.whole n)) [(n : Int), (n : Int) ^ 2]
      (Answers ((n : Int) ^ 2)) := by
  obtain ⟨a, rfl⟩ : ∃ a, n = 10 * a + 5 := ⟨n / 10, by omega⟩
  have front : ((10 * a + 5 : Nat) : Int) / 10 = a := by omega
  have square : (a : Int) * (a + 1) * 100 + 25 = (10 * a + 5 : Nat) * (10 * a + 5 : Nat) := by
    push_cast; ring
  unfold endsInFiveSquare
  simp only [plainSquare_whole, ok_bind, front, square]
  refine ((Value.line_written _).bind fun _ _ => (Value.line_written _).bind fun _ _ =>
    (Value.line_written _).bind fun _ _ => .ok ?_).congr ?_
  · exact ⟨rfl, by simp [equal_whole], by rw [sq]⟩
  · have parts : Writable ((10 * a + 5 : Nat) ^ 2) →
        Writable a ∧ Writable (a + 1) ∧ Writable (a * (a + 1)) := by
      intro hr
      have left : 0 ≤ (a : Int) * (a + 1) := by positivity
      rw [sq, ← square] at hr
      exact ⟨hr.of_between (by omega) (by nlinarith), hr.of_between (by omega) (by nlinarith),
        hr.of_between left (by omega)⟩
    simp [Value.wholeNumbers, sq] at parts ⊢
    tauto

/-- Two digits. -/
theorem duplexSquare_exact {n : Nat} (h : 10 ≤ n ∧ n ≤ 99) :
    WrittenWhen (duplexSquare (n / 10) (n % 10) (.whole n)) [(n : Int), (n : Int) ^ 2]
      (Answers ((n : Int) ^ 2)) := by
  obtain ⟨a, b, hb, rfl⟩ : ∃ a b, b ≤ 9 ∧ n = 10 * a + b := ⟨n / 10, n % 10, by omega, by omega⟩
  have tens : (10 * a + b) / 10 = a := by omega
  have units : (10 * a + b) % 10 = b := by omega
  have number : (a : Int) * 10 + b = (10 * a + b : Nat) := by push_cast; ring
  have square : (a : Int) * a * 100 + 2 * a * b * 10 + b * b =
      (10 * a + b : Nat) * (10 * a + b : Nat) := by push_cast; ring
  unfold duplexSquare
  simp only [plainSquare_whole, ok_bind, tens, units, number, square]
  refine ((Value.line_written _).bind fun _ _ => (Value.line_written _).bind fun _ _ =>
    (Value.line_written _).bind fun _ _ => (Value.line_written _).bind fun _ _ =>
    (Value.line_written _).bind fun _ _ => .ok ?_).congr ?_
  · exact ⟨rfl, by simp [equal_whole], by rw [sq]⟩
  · have parts : Writable ((10 * a + b : Nat) ^ 2) → Writable a ∧ Writable b ∧
        Writable (a * a) ∧ Writable (2 * a * b) ∧ Writable (b * b) := by
      intro hr
      rw [sq, ← square] at hr
      have first : 0 ≤ (a : Int) * a := by positivity
      have second : 0 ≤ 2 * (a : Int) * b := by positivity
      have third : 0 ≤ (b : Int) * b := by positivity
      exact ⟨writable_of_small (by omega), writable_of_small (by omega),
        hr.of_between first (by omega), hr.of_between second (by omega),
        hr.of_between third (by omega)⟩
    simp [Value.wholeNumbers, sq] at parts ⊢
    tauto

/-- Whichever rule applies, the square is exact. -/
theorem square_exact (n : Int) :
    WrittenWhen (square (.whole n)) [n, n ^ 2] (Answers (n ^ 2)) := by
  unfold square whole?
  simp only
  split
  · exact standardSquare_exact n
  · rename_i k hk
    obtain ⟨hn, rfl⟩ : 0 ≤ n ∧ n.toNat = k := by simpa using hk
    lift n to Nat using hn
    rw [Int.toNat_natCast]
    split
    · rename_i base hbase
      exact nearBaseSquare_exact (List.mem_of_find?_eq_some hbase) (List.find?_some hbase)
    · split_ifs with h5 h2
      · exact endsInFiveSquare_exact h5
      · exact duplexSquare_exact h2
      · exact standardSquare_exact n

/-! ## Products -/

theorem standardProduct_exact (m n : Int) :
    WrittenWhen (standardProduct (.whole m) (.whole n)) [m, n, m * n] (Answers (m * n)) := by
  unfold standardProduct
  simp only [mul_whole, ok_bind]
  refine ((Value.line_written _).bind fun _ _ => .ok ?_).congr ?_
  · exact ⟨rfl, by simp [equal_whole], rfl⟩
  · simp [Value.wholeNumbers]

theorem twoDigits_whole {n : Int} {a : Nat × Nat} (h : twoDigits? (.whole n) = some a) :
    n = a.1 * 10 + a.2 ∧ a.1 ≤ 9 ∧ a.2 ≤ 9 := by
  unfold twoDigits? whole? at h
  simp only at h
  split at h
  · rename_i k hk
    obtain ⟨hn, rfl⟩ : 0 ≤ n ∧ n.toNat = k := by simpa using hk
    simp only [Bool.and_eq_true, decide_eq_true_eq, Option.ite_none_right_eq_some,
      Option.some.injEq] at h
    obtain ⟨⟨h1, h2⟩, rfl⟩ := h
    simp only
    omega
  · cases h

/-- The parts of a crosswise product add up to the product, and none of them is negative. -/
theorem crosswiseProduct_exact (a b : Nat × Nat) (ha : a.1 ≤ 9 ∧ a.2 ≤ 9)
    (hb : b.1 ≤ 9 ∧ b.2 ≤ 9) (m n : Int) (hm : m = a.1 * 10 + a.2) (hn : n = b.1 * 10 + b.2) :
    WrittenWhen (crosswiseProduct (.whole m) (.whole n) a b) [m, n, m * n] (Answers (m * n)) := by
  obtain ⟨a1, a0⟩ := a
  obtain ⟨b1, b0⟩ := b
  simp only at ha hb hm hn
  have product : (a1 : Int) * b1 * 100 + (a0 * b1 + a1 * b0) * 10 + a0 * b0 = m * n := by
    rw [hm, hn]; ring
  unfold crosswiseProduct
  simp only [mul_whole, ok_bind, product]
  refine ((Value.line_written _).bind fun _ _ => (Value.line_written _).bind fun _ _ =>
    (Value.line_written _).bind fun _ _ => (Value.line_written _).bind fun _ _ =>
    (Value.line_written _).bind fun _ _ => .ok ?_).congr ?_
  · exact ⟨rfl, by simp [equal_whole], rfl⟩
  · have parts : Writable (m * n) → Writable (a1 * b1) ∧ Writable (a0 * b1 + a1 * b0) ∧
        Writable (a0 * b0) := by
      intro hr
      rw [← product] at hr
      have left : 0 ≤ (a1 : Int) * b1 := by positivity
      have cross : 0 ≤ (a0 : Int) * b1 + a1 * b0 := by positivity
      have right : 0 ≤ (a0 : Int) * b0 := by positivity
      exact ⟨hr.of_between left (by omega), hr.of_between cross (by omega),
        hr.of_between right (by omega)⟩
    have digits : Writable a1 ∧ Writable a0 ∧ Writable b1 ∧ Writable b0 :=
      ⟨writable_of_small (by omega), writable_of_small (by omega), writable_of_small (by omega),
        writable_of_small (by omega)⟩
    simp [Value.wholeNumbers]
    tauto

/-- Whichever rule applies, the product is exact. -/
theorem multiply_exact (m n : Int) :
    WrittenWhen (multiply (.whole m) (.whole n)) [m, n, m * n] (Answers (m * n)) := by
  unfold multiply
  split
  · rename_i a b ha hb
    obtain ⟨hm, h1⟩ := twoDigits_whole ha
    obtain ⟨hn, h2⟩ := twoDigits_whole hb
    exact crosswiseProduct_exact a b h1 h2 m n hm hn
  · exact standardProduct_exact m n

/-! ## Cubes -/

theorem standardCube_exact (n : Int) :
    WrittenWhen (standardCube (.whole n)) [n, n ^ 3] (Answers (n ^ 3)) := by
  have cube : n ^ 3 = n * n * n := by ring
  unfold standardCube
  simp only [plainCube_whole, ok_bind]
  refine ((Value.line_written _).bind fun _ _ => .ok ?_).congr ?_
  · exact ⟨rfl, by simp [equal_whole], by rw [cube]⟩
  · simp [Value.wholeNumbers, cube]

/-- The four terms add up to the cube, and none of them is negative. -/
theorem endsInFiveCube_exact {n : Nat} (h : n % 10 = 5) :
    WrittenWhen (endsInFiveCube n (.whole n)) [(n : Int), (n : Int) ^ 3]
      (Answers ((n : Int) ^ 3)) := by
  obtain ⟨a, rfl⟩ : ∃ a, n = 10 * a + 5 := ⟨n / 10, by omega⟩
  have front : ((10 * a + 5 : Nat) : Int) / 10 = a := by omega
  have cube : 1000 * (a : Int) ^ 3 + 1500 * a ^ 2 + 750 * a + 125 = (10 * a + 5 : Nat) ^ 3 := by
    push_cast; ring
  have product : ((10 * a + 5 : Nat) : Int) * (10 * a + 5 : Nat) * (10 * a + 5 : Nat) =
      (10 * a + 5 : Nat) ^ 3 := by ring
  unfold endsInFiveCube
  simp only [plainCube_whole, ok_bind, front, cube, product]
  refine ((Value.line_written _).bind fun _ _ => (Value.line_written _).bind fun _ _ =>
    (Value.line_written _).bind fun _ _ => (Value.line_written _).bind fun _ _ =>
    (Value.line_written _).bind fun _ _ => .ok ?_).congr ?_
  · exact ⟨rfl, by simp [equal_whole], rfl⟩
  · have parts : Writable ((10 * a + 5 : Nat) ^ 3) → Writable a ∧ Writable (1000 * a ^ 3) ∧
        Writable (1500 * a ^ 2) ∧ Writable (750 * a) := by
      intro hr
      rw [← cube] at hr
      have third : 0 ≤ (a : Int) ^ 3 := by positivity
      have second : 0 ≤ (a : Int) ^ 2 := by positivity
      exact ⟨hr.of_between (by omega) (by omega), hr.of_between (by omega) (by omega),
        hr.of_between (by omega) (by omega), hr.of_between (by omega) (by omega)⟩
    have last : Writable 125 := writable_of_small (by norm_num)
    simp [Value.wholeNumbers] at parts ⊢
    tauto

/-- Whichever rule applies, the cube is exact. -/
theorem cube_exact (n : Int) :
    WrittenWhen (cube (.whole n)) [n, n ^ 3] (Answers (n ^ 3)) := by
  unfold cube whole?
  simp only
  split
  · rename_i k hk
    obtain ⟨hn, rfl⟩ : 0 ≤ n ∧ n.toNat = k := by simpa using hk
    lift n to Nat using hn
    rw [Int.toNat_natCast]
    split_ifs with h5
    · exact endsInFiveCube_exact h5
    · exact standardCube_exact n
  · exact standardCube_exact n

/-! ## Quotients -/

/-- The solution answers with the quotient rounded down, and gives what it leaves. -/
structure Divides (p q : Int) (s : Solution) : Prop where
  answers : Answers ⌊(p : ℚ) / q⌋ s
  quotient : s.detail "quotient" = .whole ⌊(p : ℚ) / q⌋
  remainder : s.detail "remainder" = .whole (p - q * ⌊(p : ℚ) / q⌋)

theorem floor_between_of_pos (p : Int) {q : Int} (hq : 0 < q) :
    ⌊(p : ℚ) / q⌋ * q ≤ p ∧ p < (⌊(p : ℚ) / q⌋ + 1) * q := by
  have hq' : (0 : ℚ) < q := by exact_mod_cast hq
  have below := (le_div_iff₀ hq').1 (Int.floor_le ((p : ℚ) / q))
  have above := (div_lt_iff₀ hq').1 (Int.lt_floor_add_one ((p : ℚ) / q))
  exact ⟨by exact_mod_cast below, by exact_mod_cast above⟩

theorem floor_between_of_neg (p : Int) {q : Int} (hq : q < 0) :
    p ≤ ⌊(p : ℚ) / q⌋ * q ∧ (⌊(p : ℚ) / q⌋ + 1) * q < p := by
  have hq' : (q : ℚ) < 0 := by exact_mod_cast hq
  have below := (le_div_iff_of_neg hq').1 (Int.floor_le ((p : ℚ) / q))
  have above := (div_lt_iff_of_neg hq').1 (Int.lt_floor_add_one ((p : ℚ) / q))
  exact ⟨by exact_mod_cast below, by exact_mod_cast above⟩

/-- The remainder is less than the divisor and has its sign. -/
theorem remainder_bounds (p : Int) {q : Int} (hq : q ≠ 0) :
    |p - q * ⌊(p : ℚ) / q⌋| < |q| ∧ 0 ≤ (p - q * ⌊(p : ℚ) / q⌋) * q := by
  rcases lt_or_gt_of_ne hq with hneg | hpos
  · obtain ⟨h1, h2⟩ := floor_between_of_neg p hneg
    refine ⟨?_, mul_nonneg_of_nonpos_of_nonpos (by linarith) hneg.le⟩
    rw [abs_of_neg hneg, abs_lt]
    constructor <;> linarith
  · obtain ⟨h1, h2⟩ := floor_between_of_pos p hpos
    refine ⟨?_, mul_nonneg (by linarith) hpos.le⟩
    rw [abs_of_pos hpos, abs_lt]
    constructor <;> linarith

theorem fdiv_eq_floor (p : Int) {q : Int} (hq : q ≠ 0) : Int.fdiv p q = ⌊(p : ℚ) / q⌋ := by
  have of_pos : ∀ (p : Int) {q : Int}, 0 < q → Int.fdiv p q = ⌊(p : ℚ) / q⌋ := by
    intro p q hq
    lift q to Nat using hq.le
    rw [Int.fdiv_eq_ediv_of_nonneg _ (by omega)]
    exact_mod_cast (Rat.floor_intCast_div_natCast p q).symm
  rcases lt_or_gt_of_ne hq with hneg | hpos
  · have h := of_pos (-p) (Int.neg_pos_of_neg hneg)
    rwa [Int.neg_fdiv_neg, Int.cast_neg, Int.cast_neg, neg_div_neg_eq] at h
  · exact of_pos p hpos

theorem fmod_eq (p : Int) {q : Int} (hq : q ≠ 0) : Int.fmod p q = p - q * ⌊(p : ℚ) / q⌋ := by
  rw [Int.fmod_def, fdiv_eq_floor p hq]

/-- The quotient is no longer than the number that is divided. -/
theorem writable_quotient {p q : Int} (hq : q ≠ 0) (hp : Writable p) :
    Writable ⌊(p : ℚ) / q⌋ := by
  apply hp.of_le
  rcases lt_or_gt_of_ne hq with hneg | hpos
  · obtain ⟨h1, h2⟩ := floor_between_of_neg p hneg
    rcases le_or_gt 0 ⌊(p : ℚ) / q⌋ with hk | hk
    · have : ⌊(p : ℚ) / q⌋ * q ≤ -⌊(p : ℚ) / q⌋ := by nlinarith
      omega
    · have : -(⌊(p : ℚ) / q⌋ + 1) ≤ (⌊(p : ℚ) / q⌋ + 1) * q := by nlinarith
      omega
  · obtain ⟨h1, h2⟩ := floor_between_of_pos p hpos
    rcases le_or_gt 0 ⌊(p : ℚ) / q⌋ with hk | hk
    · have : ⌊(p : ℚ) / q⌋ ≤ ⌊(p : ℚ) / q⌋ * q := by nlinarith
      omega
    · have : (⌊(p : ℚ) / q⌋ + 1) * q ≤ ⌊(p : ℚ) / q⌋ + 1 := by nlinarith
      omega

theorem writable_remainder {p q : Int} (hq : q ≠ 0) (h : Writable q) :
    Writable (p - q * ⌊(p : ℚ) / q⌋) := by
  obtain ⟨small, -⟩ := remainder_bounds p hq
  exact h.of_le (by zify; exact small.le)

theorem divide_exact (p : Int) {q : Int} (hq : q ≠ 0) :
    WrittenWhen (divide (.whole p) (.whole q)) [p, q] (Divides p q) := by
  have quotient : (Value.whole p).wholeQuotient (.whole q) = .ok (.whole ⌊(p : ℚ) / q⌋) := by
    rw [← fdiv_eq_floor p hq]
    simp [Value.wholeQuotient, Value.onNumbers, Value.quantity?, Quantity.wholeQuotient,
      Quantity.combine, Except.map, Value.whole, hq]
  have remainder : (Value.whole p).remainder (.whole q) =
      .ok (.whole (p - q * ⌊(p : ℚ) / q⌋)) := by
    rw [← fmod_eq p hq]
    simp [Value.remainder, Value.onNumbers, Value.quantity?, Quantity.remainder,
      Quantity.combine, Except.map, Value.whole, hq]
  have sum : ∀ m n : Int, (Value.whole m).add (.whole n) = .ok (.whole (m + n)) := fun _ _ => rfl
  unfold divide
  simp only [equal_whole, hq, decide_false, Bool.false_eq_true, if_false, quotient, remainder,
    mul_whole, sum, ok_bind]
  refine ((Value.line_written _).bind fun _ _ => (Value.line_written _).bind fun _ _ =>
    (Value.line_written _).bind fun _ _ => .ok ?_).congr ?_
  · exact ⟨⟨rfl, by simp, rfl⟩, rfl, rfl⟩
  · have := @writable_quotient p q hq
    have := @writable_remainder p q hq
    simp [Value.wholeNumbers]
    tauto

/-- A division by zero is answered with the reason, however long the number is. -/
theorem divide_zero (p : Int) : divide (.whole p) (.whole 0) = .ok (.failure "dhvajanka"
    "Division by zero" [] [("dividend", .whole p), ("divisor", .whole 0)]) := by
  unfold divide
  simp only [equal_whole, decide_true, if_true]
  rfl

/-! ## Laws -/

/-- Every solver gives the number of plain arithmetic and checks it, for all whole numbers and by
whichever rule. It gives nothing only where a number is too long to be written. -/
theorem mental_arithmetic_is_exact (m n : Int) :
    WrittenWhen (square (.whole n)) [n, n ^ 2] (Answers (n ^ 2)) ∧
      WrittenWhen (cube (.whole n)) [n, n ^ 3] (Answers (n ^ 3)) ∧
      WrittenWhen (multiply (.whole m) (.whole n)) [m, n, m * n] (Answers (m * n)) ∧
      if n = 0 then
        divide (.whole m) (.whole n) = .ok (.failure "dhvajanka" "Division by zero" []
          [("dividend", .whole m), ("divisor", .whole n)])
      else
        WrittenWhen (divide (.whole m) (.whole n)) [m, n] (Divides m n) ∧
          |m - n * ⌊(m : ℚ) / n⌋| < |n| ∧ 0 ≤ (m - n * ⌊(m : ℚ) / n⌋) * n := by
  refine ⟨square_exact n, cube_exact n, multiply_exact m n, ?_⟩
  split_ifs with hn
  · subst hn
    exact divide_zero m
  · exact ⟨divide_exact m hn, remainder_bounds m hn⟩

end Vedic

end Reckoner
