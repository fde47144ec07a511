-- The numeric value of plain arithmetic. Each sum, product and power asks its parts for more bits
-- than it loses, so at any depth the value is off by a few units of its last bit.
import Mathlib
import Reckoner.Algebra.Numeric
import Reckoner.Proofs.Number.Powers

namespace Reckoner

open Binary

/-! ## Measured values -/

/-- The part of a value that an evaluation may be off, when it was asked for `prec` bits. -/
noncomputable def lastBits (prec : ℕ) : ℝ := (⟨1, 4 - prec⟩ : Binary).toReal

theorem lastBits_eq_zpow (prec : ℕ) : lastBits prec = 2 ^ (4 - prec : Int) := by
  rw [lastBits, toReal, Int.cast_one, one_mul]

theorem lastBits_pos (prec : ℕ) : 0 < lastBits prec := by
  rw [lastBits_eq_zpow]
  exact two_zpow_pos _

theorem lastBits_anti {p q : ℕ} (h : p ≤ q) : lastBits q ≤ lastBits p := by
  rw [lastBits_eq_zpow, lastBits_eq_zpow]
  exact zpow_le_zpow_right₀ one_le_two (by omega)

/-- With more bits the value is off by less, by a power of two for each bit. -/
theorem lastBits_add (p k : ℕ) : lastBits (p + k) * 2 ^ k = lastBits p := by
  rw [lastBits_eq_zpow, lastBits_eq_zpow, ← zpow_natCast, ← two_zpow_add]
  congr 1
  push_cast
  ring

theorem lastBits_eq (prec : ℕ) : lastBits prec = 16 * 2 ^ (-prec : Int) := by
  rw [lastBits_eq_zpow, sub_eq_add_neg, two_zpow_add]
  norm_num

theorem unit_small {prec : ℕ} (h : 57 ≤ prec) : (2 : ℝ) ^ (-prec : Int) ≤ 1 / 2 ^ 57 := by
  calc (2 : ℝ) ^ (-prec : Int) ≤ 2 ^ (-57 : Int) := zpow_le_zpow_right₀ one_le_two (by omega)
    _ = 1 / 2 ^ 57 := by norm_num

/-- A part that stands for a number other than zero, with as many sure bits as were asked for. -/
def Part.Holds (prec : ℕ) (v : ℝ) (p : Part) : Prop :=
  ∃ b bits, p.value = .approx b bits ∧ v ≠ 0 ∧ (prec : Int) ≤ p.accuracy ∧
    bitLength b.man.natAbs ≤ 2 ^ 18 ∧ Near (lastBits prec) b.toReal v

/-- A real number with as many sure bits as were asked for; zero is exact. -/
inductive Numeric.Holds (prec : ℕ) (v : ℝ) : Numeric → Prop where
  | zero (h : v = 0) : Holds prec v (.value none none)
  | part {p : Part} (h : p.Holds prec v) : Holds prec v (.value (some p) none)

theorem Part.Holds.mono {p q : ℕ} {v : ℝ} {part : Part} (h : part.Holds q v) (hpq : p ≤ q) :
    part.Holds p v := by
  obtain ⟨b, bits, hb, hv, sure, length, near⟩ := h
  exact ⟨b, bits, hb, hv, by omega, length, near.mono (lastBits_anti hpq)⟩

theorem lastBits_le {prec : ℕ} (h : 57 ≤ prec) : lastBits prec ≤ 1 / 2 ^ 53 := by
  rw [lastBits_eq]
  linarith [unit_small h]

theorem lastBits_small {prec : ℕ} (h : 57 ≤ prec) : lastBits prec < 1 :=
  (lastBits_le h).trans_lt (by norm_num)

theorem Numeric.holds_real {prec : ℕ} {v : ℝ} {b : Binary} (hp : 57 ≤ prec) (hcap : prec < 2 ^ 18)
    (hb : bitLength b.man.natAbs ≤ prec + 1) (h : Near (lastBits prec) b.toReal v) :
    (Numeric.real b prec).Holds prec v := by
  unfold Numeric.real Numeric.ofBinary
  split_ifs with h0
  · refine .zero ?_
    by_contra hv
    exact h.ne_zero (lastBits_small hp) hv (toReal_eq_zero.2 h0)
  · refine .part ⟨b, prec, rfl, ?_, le_rfl, by omega, h⟩
    rintro rfl
    exact h0 (toReal_eq_zero.1 h.eq_zero)

/-! ## Sums -/

/-- Dropping what lies far below the rest changes a sum by a small part of both. -/
theorem addWithin_near (bits : ℕ) (a : Binary) {b : Binary} (hb : b.man ≠ 0) :
    |(addWithin bits a b).toReal - (a.toReal + b.toReal)| ≤
      2 ^ (-bits : Int) * (|a.toReal| + |b.toReal|) := by
  have far : ∀ {x y : Binary}, y.man ≠ 0 → x.magnitude + (bits : Int) < y.exp →
      |x.toReal| ≤ 2 ^ (-bits : Int) * |y.toReal| := fun {x y} hy h => by
    calc |x.toReal| ≤ 2 ^ x.magnitude := (abs_toReal_lt x).le
      _ ≤ 2 ^ (-bits + y.exp : Int) := zpow_le_zpow_right₀ one_le_two (by omega)
      _ = 2 ^ (-bits : Int) * 2 ^ y.exp := two_zpow_add _ _
      _ ≤ 2 ^ (-bits : Int) * |y.toReal| :=
        mul_le_mul_of_nonneg_left (two_zpow_exp_le hy) (two_zpow_pos _).le
  have unit := two_zpow_pos (-bits : Int)
  have nonneg := mul_nonneg unit.le (abs_nonneg a.toReal)
  have nonneg' := mul_nonneg unit.le (abs_nonneg b.toReal)
  unfold addWithin
  split_ifs with hab hba
  · simp only [Bool.and_eq_true, decide_eq_true_eq] at hab
    rw [sub_add_cancel_right, abs_neg, mul_add]
    linarith [far hb hab.2]
  · simp only [Bool.and_eq_true, decide_eq_true_eq] at hba
    rw [sub_add_cancel_left, abs_neg, mul_add]
    linarith [far hba.1.2 hba.2]
  · rw [toReal_add, sub_self, abs_zero]
    positivity

/-- Many sums, one after the other. -/
theorem foldl_addWithin_near {bits : ℕ} {η : ℝ} (hη : η = 2 ^ (-bits : Int)) (l : List Binary) :
    ∀ acc : Binary, (∀ b ∈ l, b.man ≠ 0) →
      |(l.foldl (addWithin bits) acc).toReal - (acc.toReal + (l.map toReal).sum)| ≤
        ((1 + η) ^ l.length - 1) * (|acc.toReal| + (l.map fun b => |b.toReal|).sum) := by
  have positive : 0 ≤ η := hη ▸ (two_zpow_pos _).le
  induction l with
  | nil => intro acc _; simp
  | cons b l ih =>
    intro acc hl
    have step := addWithin_near bits acc (hl b List.mem_cons_self)
    have rest := ih (addWithin bits acc b) fun c hc => hl c (List.mem_cons_of_mem b hc)
    rw [← hη] at step
    simp only [List.foldl_cons, List.map_cons, List.sum_cons, List.length_cons]
    set total := (l.foldl (addWithin bits) (addWithin bits acc b)).toReal
    set next := (addWithin bits acc b).toReal
    set sum := (l.map toReal).sum
    set size := (l.map fun b => |b.toReal|).sum
    have size_nonneg : 0 ≤ size := List.sum_nonneg (by simp)
    have factor : 0 ≤ (1 + η) ^ l.length - 1 := sub_nonneg.2 (one_le_pow₀ (by linarith))
    have grown : |next| ≤ (1 + η) * (|acc.toReal| + |b.toReal|) := by
      have := abs_sub_abs_le_abs_sub next (acc.toReal + b.toReal)
      have := abs_add_le acc.toReal b.toReal
      linarith
    have parts : total - (acc.toReal + (b.toReal + sum)) =
        (total - (next + sum)) + (next - (acc.toReal + b.toReal)) := by ring
    rw [parts]
    calc _ ≤ |total - (next + sum)| + |next - (acc.toReal + b.toReal)| := abs_add_le _ _
      _ ≤ ((1 + η) ^ l.length - 1) * ((1 + η) * (|acc.toReal| + |b.toReal|) + size) +
          η * (|acc.toReal| + |b.toReal|) := by gcongr; exact rest.trans (by gcongr)
      _ ≤ ((1 + η) ^ (l.length + 1) - 1) * (|acc.toReal| + (|b.toReal| + size)) := by
          rw [pow_succ]
          have large : 0 ≤ (1 + η) ^ l.length := pow_nonneg (by linarith) _
          have := mul_nonneg large (mul_nonneg positive size_nonneg)
          nlinarith

/-- The binary fraction of a part. -/
def Part.binary (p : Part) : Binary :=
  match p.value with
  | .approx b _ => b
  | _ => .zero

theorem Part.Holds.ne_zero {prec : ℕ} {v : ℝ} {p : Part} (h : p.Holds prec v) : v ≠ 0 := by
  obtain ⟨-, -, -, nonzero, -⟩ := h
  exact nonzero

theorem Part.Holds.value_eq {prec : ℕ} {v : ℝ} {p : Part} (h : p.Holds prec v) :
    ∃ bits, p.value = .approx p.binary bits := by
  obtain ⟨b, bits, hb, -⟩ := h
  exact ⟨bits, by simp [Part.binary, hb]⟩

theorem Part.finite?_some {p : Part} {bits : ℕ} (h : p.value = .approx p.binary bits) :
    Part.finite? (some p) = some p.binary := by
  obtain ⟨value, accuracy⟩ := p
  simp only at h
  rw [h]
  rfl

theorem Part.Holds.near {prec : ℕ} {v : ℝ} {p : Part} (h : p.Holds prec v) :
    Near (lastBits prec) p.binary.toReal v := by
  obtain ⟨b, bits, hb, -, -, -, near⟩ := h
  simpa [Part.binary, hb] using near

theorem Part.Holds.man_ne_zero {prec : ℕ} {v : ℝ} {p : Part} (hp : 57 ≤ prec)
    (h : p.Holds prec v) : p.binary.man ≠ 0 := by
  have near := h.near
  obtain ⟨b, bits, hb, hv, -⟩ := h
  exact fun h0 => near.ne_zero (lastBits_small hp) hv (toReal_eq_zero.2 h0)

theorem foldl_parts {bits : ℕ} {f : Binary → Part → Binary}
    (hf : ∀ acc p b n, p.value = .approx b n → f acc p = acc.addWithin bits b)
    {parts : List Part} (h : ∀ p ∈ parts, ∃ n, p.value = .approx p.binary n) :
    ∀ acc : Binary, parts.foldl f acc = (parts.map Part.binary).foldl (addWithin bits) acc := by
  induction parts with
  | nil => intro acc; rfl
  | cons p parts ih =>
    intro acc
    obtain ⟨n, hn⟩ := h p List.mem_cons_self
    rw [List.foldl_cons, List.map_cons, List.foldl_cons, hf acc p _ n hn]
    exact ih (fun q hq => h q (List.mem_cons_of_mem p hq)) _

theorem foldl_max_le {c : Int} {parts : List Part} (h : ∀ p ∈ parts, p.errorExponent ≤ c) :
    ∀ acc ≤ c, parts.foldl (fun acc p => max acc p.errorExponent) acc ≤ c := by
  induction parts with
  | nil => exact fun acc hacc => hacc
  | cons p parts ih =>
    exact fun acc hacc => ih (fun q hq => h q (List.mem_cons_of_mem p hq)) _
      (max_le hacc (h p List.mem_cons_self))

/-- Terms that are off by a part of themselves make a sum that is off by that part of their
sizes. -/
theorem sum_near {ε : ℝ} {parts : List Part} {vs : List ℝ}
    (h : List.Forall₂ (fun p v => Near ε p.binary.toReal v) parts vs) :
    |((parts.map Part.binary).map toReal).sum - vs.sum| ≤ ε * (vs.map fun v => |v|).sum ∧
      ((parts.map Part.binary).map fun b => |b.toReal|).sum ≤
        (1 + ε) * (vs.map fun v => |v|).sum := by
  induction h with
  | nil => simp
  | @cons p v parts vs hp _ ih =>
    obtain ⟨off, size⟩ := ih
    simp only [List.map_cons, List.sum_cons]
    constructor
    · rw [add_sub_add_comm, mul_add]
      exact (abs_add_le _ _).trans (add_le_add hp off)
    · rw [mul_add]
      exact add_le_add hp.upper size

theorem exists_of_forall₂ {α β : Type*} {R : α → β → Prop} {l : List α} {m : List β}
    (h : List.Forall₂ R l m) : ∀ a ∈ l, ∃ b ∈ m, R a b := by
  induction h with
  | nil => simp
  | cons hab _ ih =>
    intro a ha
    rcases List.mem_cons.1 ha with rfl | ha
    · exact ⟨_, List.mem_cons_self, hab⟩
    · obtain ⟨b, hb, hr⟩ := ih a ha
      exact ⟨b, List.mem_cons_of_mem _ hb, hr⟩

/-- The binary fractions of terms that do not cancel each other add up to what the terms do. -/
theorem foldl_near {prec : ℕ} {parts : List Part} {vs : List ℝ} (hp : 57 ≤ prec)
    (hlen : parts.length ≤ 2 ^ 12) (h : List.Forall₂ (fun p v => p.Holds (prec + 10) v) parts vs)
    (hsum : (vs.map fun v => |v|).sum ≤ 256 * |vs.sum|) :
    Near (5 * 2 ^ (-prec : Int))
      ((parts.map Part.binary).foldl (addWithin (2 * prec)) Binary.zero).toReal vs.sum := by
  set u : ℝ := 2 ^ (-prec : Int) with hu
  have unit : 0 < u := two_zpow_pos _
  have small : u ≤ 1 / 2 ^ 57 := unit_small hp
  set η : ℝ := 2 ^ (-(2 * prec : ℕ) : Int) with hη
  have square : η = u * u := by
    rw [hη, hu, ← two_zpow_add]
    congr 1
    push_cast
    ring
  have tenth : lastBits (prec + 10) * 2 ^ 10 = 16 * u := by
    rw [lastBits_add, lastBits_eq]
  have least := lastBits_pos (prec + 10)
  obtain ⟨terms, sizes⟩ := sum_near (h.imp fun _ _ hr => hr.near)
  have drops := foldl_addWithin_near hη (parts.map Part.binary) Binary.zero (by
    intro b hb
    obtain ⟨p, hmem, rfl⟩ := List.mem_map.1 hb
    obtain ⟨v, -, hv⟩ := exists_of_forall₂ h p hmem
    exact hv.man_ne_zero (by omega))
  rw [toReal_zero, zero_add, abs_zero, zero_add, List.length_map] at drops
  set total := ((parts.map Part.binary).foldl (addWithin (2 * prec)) Binary.zero).toReal
  set T := (vs.map fun v => |v|).sum
  set S := ((parts.map Part.binary).map toReal).sum
  set A := ((parts.map Part.binary).map fun b => |b.toReal|).sum
  have nonneg : 0 ≤ T := List.sum_nonneg (by simp)
  have nonneg' : 0 ≤ A := List.sum_nonneg (by simp)
  have few : (parts.length : ℝ) ≤ 4096 := by exact_mod_cast hlen
  have lost : (1 + η) ^ parts.length - 1 ≤ u / 2 ^ 20 := by
    have bound : parts.length * η ≤ 4096 * (1 / 2 ^ 57 * u) := by
      rw [square]
      gcongr
    have := Near.errors_le (by positivity : 0 ≤ η) (n := parts.length) (by linarith)
    linarith
  have double : A ≤ 2 * T := by nlinarith
  have dropped : |total - S| ≤ u / 2 ^ 19 * T := by
    have := mul_le_mul lost double nonneg' (by positivity)
    linarith
  have off := abs_sub_le total S vs.sum
  rw [Near]
  nlinarith

/-- Terms that do not cancel each other have a sum. -/
theorem sum_ne_zero {vs : List ℝ} {v : ℝ} (hv : v ∈ vs) (h0 : v ≠ 0)
    (hsum : (vs.map fun v => |v|).sum ≤ 256 * |vs.sum|) : vs.sum ≠ 0 := by
  intro zero
  rw [zero, abs_zero, mul_zero] at hsum
  have part : |v| ≤ (vs.map fun v => |v|).sum :=
    List.single_le_sum (by simp) _ (List.mem_map_of_mem hv)
  exact absurd (part.trans hsum) (not_le.2 (abs_pos.2 h0))

/-- The error of a term is below the last bit of a total that is not much smaller. -/
theorem Part.Holds.errorExponent_le {prec : ℕ} {r : Part} {x : ℝ} {total : Binary} (hp : 57 ≤ prec)
    (h : r.Holds (prec + 10) x) (size : |x| ≤ 512 * |total.toReal|) :
    r.errorExponent ≤ total.magnitude - prec := by
  obtain ⟨b, bits, hb, hx0, sure, -, close⟩ := h
  have size : |b.toReal| < 2 ^ (10 + total.magnitude) := by
    have above := close.upper
    have one := lastBits_small (show 57 ≤ prec + 10 by omega)
    have below := abs_toReal_lt total
    rw [two_zpow_add]
    norm_num
    nlinarith [abs_nonneg x]
  have nonzero : b.man ≠ 0 := fun h0 =>
    close.ne_zero (lastBits_small (by omega)) hx0 (toReal_eq_zero.2 h0)
  have := magnitude_le nonzero size
  rw [Part.errorExponent, hb]
  simp only
  push_cast at sure
  omega

/-- A sum of several terms that do not cancel each other. -/
theorem sumParts_holds {prec : ℕ} {parts : List Part} {vs : List ℝ} (hp : 57 ≤ prec)
    (hcap : prec < 2 ^ 17) (hlen : parts.length ≤ 2 ^ 12)
    (h : List.Forall₂ (fun p v => p.Holds (prec + 10) v) parts vs)
    (hsum : (vs.map fun v => |v|).sum ≤ 256 * |vs.sum|) :
    (Numeric.value (sumParts prec parts) none).Holds prec vs.sum := by
  match parts, h with
  | [], .nil => exact .zero rfl
  | [p], .cons hp' .nil =>
    rw [List.sum_singleton]
    exact .part (hp'.mono (Nat.le_add_right prec 10))
  | p :: q :: rest, h =>
    have near := foldl_near hp hlen h hsum
    set l := p :: q :: rest with hl
    set total := (l.map Part.binary).foldl (addWithin (2 * prec)) Binary.zero
    have value : ∀ r ∈ l, ∃ n, r.value = .approx r.binary n := fun r hr => by
      obtain ⟨v, -, hv⟩ := exists_of_forall₂ h r hr
      exact hv.value_eq
    have finite : l.filter (fun r => !r.value.isFinite) = [] := by
      rw [List.filter_eq_nil_iff]
      intro r hr
      obtain ⟨n, hn⟩ := value r hr
      simp [hn, Number.isFinite]
    have nonzero : vs.sum ≠ 0 := by
      obtain ⟨v, ws, hv, -, rfl⟩ := List.forall₂_cons_left_iff.1 h
      exact sum_ne_zero List.mem_cons_self hv.ne_zero hsum
    set u : ℝ := 2 ^ (-prec : Int) with hu
    have unit : 0 < u := two_zpow_pos _
    have small : u ≤ 1 / 2 ^ 57 := unit_small hp
    have man : total.man ≠ 0 := fun h0 =>
      near.ne_zero (by linarith) nonzero (toReal_eq_zero.2 h0)
    have least : |vs.sum| ≤ 2 * |total.toReal| := by
      have := near.lower
      nlinarith [abs_nonneg vs.sum]
    have error : ∀ r ∈ l, r.errorExponent ≤ total.magnitude - prec := by
      intro r hr
      obtain ⟨x, hx, holds⟩ := exists_of_forall₂ h r hr
      have part : |x| ≤ (vs.map fun v => |v|).sum :=
        List.single_le_sum (by simp) _ (List.mem_map_of_mem hx)
      exact holds.errorExponent_le hp (by linarith)
    have top := foldl_max_le error p.errorExponent (error p List.mem_cons_self)
    unfold sumParts
    simp only [hl]
    rw [← hl, finite, foldl_parts (fun acc r b n hr => by rw [hr]) value, if_neg (by simp),
      if_neg man]
    refine .part ⟨total.round .nearest prec, prec, rfl, nonzero, ?_, ?_, ?_⟩
    · change (prec : Int) ≤ total.magnitude - _
      omega
    · exact (bitLength_round _ _ _).trans (by omega)
    · refine (near.trans (round_nearest_near prec total) unit.le).mono ?_
      rw [lastBits_eq]
      nlinarith

theorem Numeric.Holds.eq_value {prec : ℕ} {v : ℝ} {n : Numeric} (h : n.Holds prec v) :
    ∃ re, n = .value re none := by
  cases h with
  | zero => exact ⟨none, rfl⟩
  | part => exact ⟨_, rfl⟩

theorem any_values {prec : ℕ} {values : List Numeric} {vs : List ℝ}
    (h : List.Forall₂ (fun n v => n.Holds prec v) values vs) {test : Numeric → Bool}
    (ht : ∀ re, test (.value re none) = false) : values.any test = false := by
  rw [List.any_eq_false]
  intro n hn
  obtain ⟨v, -, hv⟩ := exists_of_forall₂ h n hn
  obtain ⟨re, rfl⟩ := hv.eq_value
  simp [ht]

/-- The values other than zero have parts, and add up to what all of them do. -/
theorem parts_of_values {prec : ℕ} {values : List Numeric} {vs : List ℝ}
    (h : List.Forall₂ (fun n v => n.Holds prec v) values vs) {f : Numeric → Option Part}
    (hf : ∀ re, f (.value re none) = re) :
    ∃ ws, List.Forall₂ (fun p v => p.Holds prec v) (values.filterMap f) ws ∧
      ws.sum = vs.sum ∧ (ws.map fun v => |v|).sum = (vs.map fun v => |v|).sum := by
  induction h with
  | nil => exact ⟨[], .nil, rfl, rfl⟩
  | @cons n v values vs hn _ ih =>
    obtain ⟨ws, hws, sum, size⟩ := ih
    cases hn with
    | zero h0 =>
      refine ⟨ws, ?_, ?_, ?_⟩
      · rwa [List.filterMap_cons_none (hf none)]
      · rw [List.sum_cons, h0, zero_add, sum]
      · rw [List.map_cons, List.sum_cons, h0, abs_zero, zero_add, size]
    | @part p hp =>
      refine ⟨v :: ws, ?_, ?_, ?_⟩
      · rw [List.filterMap_cons_some (hf (some p))]
        exact .cons hp hws
      · rw [List.sum_cons, List.sum_cons, sum]
      · rw [List.map_cons, List.map_cons, List.sum_cons, List.sum_cons, size]

theorem no_parts {prec : ℕ} {values : List Numeric} {vs : List ℝ}
    (h : List.Forall₂ (fun n v => n.Holds prec v) values vs) {g : Numeric → Option Part}
    (hg : ∀ re, g (.value re none) = none) : values.filterMap g = [] := by
  rw [List.filterMap_eq_nil_iff]
  intro n hn
  obtain ⟨v, -, hv⟩ := exists_of_forall₂ h n hn
  obtain ⟨r, rfl⟩ := hv.eq_value
  exact hg r

/-- The real part of a value. -/
def Numeric.realPart : Numeric → Option Part
  | .value r _ => r
  | _ => none

/-- A sum is sure of enough bits at once. -/
theorem sumNumeric_holds {prec : ℕ} {eval : ℕ → Expr → Numeric} {terms : List Expr}
    {vs : List ℝ} (hp : 57 ≤ prec) (hcap : prec < 2 ^ 17) (hlen : terms.length ≤ 2 ^ 12)
    (h : List.Forall₂ (fun x v => (eval (prec + 10) x).Holds (prec + 10) v) terms vs)
    (hsum : (vs.map fun v => |v|).sum ≤ 256 * |vs.sum|) :
    (sumNumeric eval terms prec 40 prec 0).Holds prec vs.sum := by
  have values : List.Forall₂ (fun n v => n.Holds (prec + 10) v) (terms.map (eval (prec + 10))) vs :=
    List.forall₂_map_left_iff.2 h
  rw [sumNumeric, if_neg (by simp [any_values values]), if_neg (by simp [any_values values])]
  extract_lets infinities re im odd sure more
  have finite : infinities = 0 := by
    rw [List.countP_eq_zero]
    intro n hn
    obtain ⟨v, -, hv⟩ := exists_of_forall₂ values n hn
    obtain ⟨r, rfl⟩ := hv.eq_value
    simp
  have no_im : im = none := by
    unfold im
    rw [no_parts values fun _ => rfl]
    rfl
  obtain ⟨ws, hws, sum, size⟩ := parts_of_values values
    (f := Numeric.realPart) fun _ => rfl
  have short := (List.length_filterMap_le Numeric.realPart _).trans
    (terms.length_map (eval (prec + 10))).le
  have whole := sumParts_holds hp hcap (short.trans hlen) hws (by rwa [sum, size])
  rw [sum] at whole
  have enough : (prec : Int) ≤ sure := by
    unfold sure
    rw [no_im]
    cases hre : re with
    | none => exact le_rfl
    | some p =>
      change (Numeric.value re none).Holds prec vs.sum at whole
      rw [hre] at whole
      cases whole with
      | part h =>
        obtain ⟨b, bits, -, -, enough, -⟩ := h
        exact enough
  rw [finite, if_neg (by omega), if_neg (by omega), if_pos (by simp [enough]), no_im]
  exact whole

/-! ## Products -/

/-- Some factor is zero, or each of them has a part. -/
theorem zero_or_parts {prec : ℕ} {values : List Numeric} {vs : List ℝ}
    (h : List.Forall₂ (fun n v => n.Holds prec v) values vs) :
    (Numeric.value none none ∈ values ∧ vs.prod = 0) ∨
      ∃ parts : List Part, values = parts.map (fun p => .value (some p) none) ∧
        List.Forall₂ (fun p v => p.Holds prec v) parts vs := by
  induction h with
  | nil => exact .inr ⟨[], rfl, .nil⟩
  | @cons n v values vs hn _ ih =>
    rcases ih with ⟨zero, prod⟩ | ⟨parts, rfl, hparts⟩
    · exact .inl ⟨List.mem_cons_of_mem n zero, by rw [List.prod_cons, prod, mul_zero]⟩
    · cases hn with
      | zero h0 => exact .inl ⟨List.mem_cons_self, by rw [List.prod_cons, h0, zero_mul]⟩
      | @part p hp => exact .inr ⟨p :: parts, rfl, .cons hp hparts⟩

theorem prod_near {ε : ℝ} (hε : 0 ≤ ε) {parts : List Part} {vs : List ℝ}
    (h : List.Forall₂ (fun p v => Near ε p.binary.toReal v) parts vs) :
    Near ((1 + ε) ^ parts.length - 1) (parts.map fun p => p.binary.toReal).prod vs.prod := by
  induction h with
  | nil => simpa using Near.refl le_rfl 1
  | @cons p v parts vs hp _ ih =>
    rw [List.map_cons, List.prod_cons, List.prod_cons, List.length_cons, add_comm parts.length]
    exact hp.one_error.mul_errors ih hε

/-- Real factors are multiplied up exactly. -/
theorem foldl_product {f : BinaryPair × Nat × BinaryPair → Part → BinaryPair × Nat × BinaryPair}
    (hf : ∀ acc p bits, p.value = .approx p.binary bits →
      f acc p = ((acc.1.1.mul p.binary, .zero), acc.2)) {parts : List Part}
    (h : ∀ p ∈ parts, ∃ bits, p.value = .approx p.binary bits) :
    ∀ acc : BinaryPair × Nat × BinaryPair, (parts.foldl f acc).2 = acc.2 ∧
      (parts.foldl f acc).1.1.toReal =
        acc.1.1.toReal * (parts.map fun p => p.binary.toReal).prod := by
  induction parts with
  | nil => intro acc; simp
  | cons p parts ih =>
    intro acc
    obtain ⟨bits, hbits⟩ := h p List.mem_cons_self
    obtain ⟨rest, value⟩ := ih (fun q hq => h q (List.mem_cons_of_mem p hq)) (f acc p)
    rw [List.foldl_cons, rest, value, hf acc p bits hbits, List.map_cons, List.prod_cons]
    exact ⟨rfl, by rw [toReal_mul, mul_assoc]⟩

theorem ofPair_real {prec : ℕ} {a z : Binary} (hz : z.man = 0) :
    Numeric.ofPair prec (a, z) = .real a prec := by
  unfold Numeric.ofPair Numeric.real Numeric.ofBinary
  simp [hz]

theorem man_round_of_zero {prec : ℕ} {b : Binary} (h : b.toReal = 0) :
    (round .nearest prec b).man = 0 := by
  have near := round_nearest_near prec b
  rw [h] at near
  exact toReal_eq_zero.1 near.eq_zero

/-- The factors are asked for so many bits more that their errors together stay below the last
one. -/
theorem round_product_near {prec : ℕ} {parts : List Part} {vs : List ℝ} {b : Binary}
    (hp : 57 ≤ prec) (h : List.Forall₂ (fun p v => p.Holds (prec + parts.length + 5) v) parts vs)
    (hb : b.toReal = (parts.map fun p => p.binary.toReal).prod) :
    Near (lastBits prec) (round .nearest prec b).toReal vs.prod := by
  generalize hn : parts.length = n at h
  set u : ℝ := 2 ^ (-prec : Int) with hu
  have unit : 0 < u := two_zpow_pos _
  have small : u ≤ 1 / 2 ^ 57 := unit_small hp
  have least := lastBits_pos (prec + n + 5)
  have near := prod_near least.le (h.imp fun _ _ hr => hr.near)
  have spare : n * lastBits (prec + n + 5) ≤ u / 2 := by
    have power : lastBits (prec + n + 5) * 2 ^ (n + 5) = 16 * u := by
      rw [add_assoc, lastBits_add, lastBits_eq]
    have few : (n : ℝ) ≤ 2 ^ n := by exact_mod_cast (Nat.lt_two_pow_self).le
    rw [pow_add] at power
    nlinarith
  have lost : (1 + lastBits (prec + n + 5)) ^ n - 1 ≤ u := by
    have := Near.errors_le least.le (n := n) (by linarith)
    linarith
  rw [← hb, hn] at near
  refine ((near.mono lost).trans (round_nearest_near prec b) unit.le).mono ?_
  rw [lastBits_eq]
  nlinarith

theorem prodNumeric_holds {prec : ℕ} {values : List Numeric} {vs : List ℝ} (hp : 57 ≤ prec)
    (hcap : prec < 2 ^ 17)
    (h : List.Forall₂ (fun n v => n.Holds (prec + values.length + 5) v) values vs) :
    (prodNumeric prec values).Holds prec vs.prod := by
  unfold prodNumeric
  extract_lets isZoo odd hasZero pair size turns rest z z'
  have noOdd : odd = [] := by
    unfold odd
    rw [List.filterMap_eq_nil_iff]
    intro n hn
    obtain ⟨v, -, hv⟩ := exists_of_forall₂ h n hn
    cases hv with
    | zero => rfl
    | part hp =>
      obtain ⟨bits, hbits⟩ := hp.value_eq
      simp [hbits, Number.isFinite]
  have noZoo : values.any isZoo = false := any_values h fun _ => rfl
  rw [if_neg (by simp [any_values h]), if_neg (by simp [any_values h]), noOdd, noZoo,
    if_neg (by simp)]
  rcases zero_or_parts h with ⟨zero, prod⟩ | ⟨parts, rfl, hparts⟩
  · rw [if_pos (List.any_eq_true.2 ⟨_, zero, rfl⟩), prod]
    exact .zero rfl
  · have noZero : hasZero = false := by
      unfold hasZero
      simp
    rw [noZero, if_neg (by simp)]
    rw [List.length_map] at hparts
    set n := parts.length
    have fold : pair.2 = (0, (.ofInt 1, .zero)) ∧
        pair.1.1.toReal = (ofInt 1).toReal * (parts.map fun p => p.binary.toReal).prod := by
      unfold pair
      rw [List.foldl_map]
      refine foldl_product (fun acc p bits hbits => ?_) (fun p hmem => ?_) _
      · simp only [Part.finite?_some hbits]
        rfl
      · obtain ⟨v, -, hv⟩ := exists_of_forall₂ hparts p hmem
        exact hv.value_eq
    obtain ⟨state, product⟩ := fold
    have state' : z' = (size.mul (.ofInt 1), size.mul .zero) := by
      unfold z' turns z rest
      rw [state]
      rfl
    have second : z'.2.toReal = 0 := by
      rw [state', toReal_mul, toReal_zero, mul_zero]
    have first : z'.1.toReal = (parts.map fun p => p.binary.toReal).prod := by
      rw [state', toReal_mul, toReal_ofInt, Int.cast_one, mul_one, product, toReal_ofInt,
        Int.cast_one, one_mul]
    rw [ofPair_real (man_round_of_zero second)]
    exact Numeric.holds_real hp (by omega) (bitLength_round _ _ _)
      (round_product_near hp hparts first)

/-! ## Powers -/

theorem zpow_near {x v ε : ℝ} {n : Int} (h : Near ε x v) (hε : 0 ≤ ε)
    (hn : n.natAbs * ε ≤ 1 / 4) : Near (4 * (n.natAbs * ε)) (x ^ n) (v ^ n) := by
  have nonneg : 0 ≤ n.natAbs * ε := by positivity
  have power := (h.pow hε n.natAbs).mono (Near.errors_le hε (by linarith))
  rcases Int.natAbs_eq n with hn' | hn'
  · rw [hn', zpow_natCast, zpow_natCast, Int.natAbs_natCast]
    exact power.mono (by linarith)
  · rw [hn', zpow_neg, zpow_neg, zpow_natCast, zpow_natCast, Int.natAbs_neg, Int.natAbs_natCast]
    exact (power.inv (by linarith)).mono (by linarith)

/-- A power with a whole exponent that is written out. -/
theorem powIntNumeric_holds {prec : ℕ} {n : Int} {value : Numeric} {v : ℝ} (hp : 57 ≤ prec)
    (hcap : prec < 2 ^ 17) (hn : n ≠ 0) (hv : v ≠ 0 ∨ 0 ≤ n)
    (h : value.Holds (prec + (bitLength n.natAbs - 1) + 5) v) :
    (powIntNumeric prec n value).Holds prec (v ^ n) := by
  cases h with
  | zero h0 =>
    have positive : ¬ n < 0 := by
      rw [not_lt]
      exact hv.resolve_left (not_not.2 h0)
    have power : v ^ n = 0 := by rw [h0, zero_zpow n hn]
    change (if n < 0 then Numeric.zoo else .value none none).Holds prec _
    rw [if_neg positive]
    exact .zero power
  | @part p hpart =>
    obtain ⟨bits, hbits⟩ := hpart.value_eq
    have man := hpart.man_ne_zero (by omega)
    unfold powIntNumeric
    simp only [Part.finite?_some hbits]
    refine Numeric.holds_real hp (by omega) (bitLength_powInt _ _ _ _) ?_
    set u : ℝ := 2 ^ (-prec : Int) with hu
    have unit : 0 < u := two_zpow_pos _
    have small : u ≤ 1 / 2 ^ 57 := unit_small hp
    have length := bitLength_pos (Int.natAbs_ne_zero.2 hn)
    set q := prec + (bitLength n.natAbs - 1) + 5 with hq
    have least := lastBits_pos q
    have spare : n.natAbs * lastBits q ≤ u := by
      have power : lastBits q * 2 ^ bitLength n.natAbs = u := by
        have whole := lastBits_add prec (bitLength n.natAbs + 4)
        rw [lastBits_eq prec, show prec + (bitLength n.natAbs + 4) = q by omega, pow_add] at whole
        linarith
      have few : (n.natAbs : ℝ) ≤ 2 ^ bitLength n.natAbs := by
        exact_mod_cast (lt_two_pow_bitLength n.natAbs).le
      nlinarith
    have first := (zpow_near hpart.near least.le (n := n) (by linarith)).mono
      (by linarith : _ ≤ 4 * u)
    refine (first.trans (powInt_near .towardZero prec man n) (by positivity)).mono ?_
    rw [lastBits_eq]
    nlinarith

theorem log_ten_le : Real.log 10 ≤ 232 / 100 := by
  have power : Real.log (10 ^ 3) ≤ Real.log (2 ^ 10) := Real.log_le_log (by norm_num) (by norm_num)
  rw [Real.log_pow, Real.log_pow] at power
  push_cast at power
  linarith [Real.log_two_lt_d9]

/-- The number of bits before the point is moderate where the logarithm is. -/
theorem magnitude_of_log {x : Binary} (hx : 0 < x.toReal) (h : |Real.log x.toReal| ≤ 300) :
    bitLength x.magnitude.natAbs ≤ 2 ^ 10 := by
  obtain ⟨low, high⟩ := abs_le.1 h
  have two := Real.log_two_gt_d9
  have above := abs_toReal_lt x
  have below := le_abs_toReal (toReal_pos.1 hx).ne'
  rw [abs_of_pos hx] at above below
  have above := Real.log_le_log hx above.le
  have below := Real.log_le_log (two_zpow_pos _) below
  rw [Real.log_zpow] at above below
  push_cast at below
  have most : (x.magnitude : ℝ) ≤ 512 := by nlinarith
  have least : (-512 : ℝ) ≤ x.magnitude := by nlinarith
  have most : x.magnitude ≤ 512 := by exact_mod_cast most
  have least : -512 ≤ x.magnitude := by exact_mod_cast least
  have : bitLength x.magnitude.natAbs ≤ 10 := bitLength_le_iff.2 (by omega)
  omega

theorem Numeric.Holds.mono {p q : ℕ} {v : ℝ} {n : Numeric} (h : n.Holds q v) (hpq : p ≤ q) :
    n.Holds p v := by
  cases h with
  | zero h0 => exact .zero h0
  | part hpart => exact .part (hpart.mono hpq)

/-- A power of parts with more sure bits than are asked for. -/
theorem power_parts_near {prec s : ℕ} {p r : Part} {v w : ℝ} (hp : 57 ≤ prec) (hcap : prec ≤ 2 ^ 17)
    (hpart : p.Holds (prec + 15 + s) v) (rpart : r.Holds (prec + 10) w) (hv : 0 < v)
    (hw : 1 ≤ |w|) (hws : |w| ≤ 2 ^ (s + 1)) (hw' : |w| ≤ 1000) (hl : |w * Real.log v| ≤ 232) :
    Near (lastBits prec) (power .towardZero prec p.binary r.binary).toReal
      (Real.exp (w * Real.log v)) := by
  obtain ⟨bits, hbits⟩ := hpart.value_eq
  have rman := rpart.man_ne_zero (by omega)
  have close := hpart.near
  have near := rpart.near
  have positive : 0 < p.binary.toReal := close.pos (lastBits_small (by omega)) hv
  obtain ⟨b, n, hb, -, -, length, -⟩ := hpart
  obtain rfl : b = p.binary := by
    rw [hb] at hbits
    exact (Number.approx.inj hbits).1
  set u : ℝ := 2 ^ (-prec : Int) with hu
  have unit : 0 < u := two_zpow_pos _
  have less := lastBits_le (show 57 ≤ prec + 15 + s by omega)
  have least := lastBits_pos (prec + 15 + s)
  have part : lastBits (prec + 15 + s) * 2 ^ (15 + s) = 16 * u := by
    rw [add_assoc, lastBits_add, lastBits_eq]
  have tenth : lastBits (prec + 10) * 2 ^ 10 = 16 * u := by
    rw [lastBits_add, lastBits_eq]
  have less' := lastBits_le (show 57 ≤ prec + 10 by omega)
  have upper := near.upper
  have double : |r.binary.toReal| ≤ 2 * |w| := by nlinarith [abs_nonneg w]
  have size : |Real.log v| ≤ 232 := by
    rw [abs_mul] at hl
    exact (le_mul_of_one_le_left (abs_nonneg _) hw).trans hl
  have logs := log_near hv close (by linarith)
  refine (power_near .towardZero hcap (by omega) length
    (magnitude_of_log positive ?_) ?_ hv close ?_ (by linarith) ?_ double hl).mono ?_
  · have := abs_sub_abs_le_abs_sub (Real.log p.binary.toReal) (Real.log v)
    linarith
  · have eleven : (2 : ℝ) ^ (11 : Int) = 2048 := by norm_num
    have := magnitude_le (k := 11) rman (by rw [eleven]; linarith)
    omega
  · rw [pow_add] at part
    rw [pow_succ] at hws
    have := mul_le_mul_of_nonneg_left hws least.le
    linarith
  · have := mul_le_mul_of_nonneg_right near (abs_nonneg (Real.log v))
    rw [mul_assoc, ← abs_mul w] at this
    have := mul_le_mul_of_nonneg_left hl (lastBits_pos (prec + 10)).le
    linarith
  · rw [lastBits_eq]
    linarith

/-- A power with an exponent that is itself worked out. -/
theorem powNumeric_holds {prec s : ℕ} {base exponent : Numeric} {v w : ℝ} (hp : 57 ≤ prec)
    (hcap : prec ≤ 2 ^ 17) (hbase : base.Holds (prec + 15 + s) v)
    (hexponent : exponent.Holds (prec + 10) w) (hv : 0 < v) (hw : w = 0 ∨ 1 ≤ |w|)
    (hws : |w| ≤ 2 ^ (s + 1)) (hw' : |w| ≤ 1000) (hl : |w * Real.log v| ≤ 232) :
    (powNumeric prec false base exponent).Holds prec (Real.exp (w * Real.log v)) := by
  have absent : Part.finite? none = some .zero := rfl
  cases hbase with
  | zero h0 => exact absurd h0 hv.ne'
  | @part p hpart =>
    obtain ⟨bits, hbits⟩ := hpart.value_eq
    have man := hpart.man_ne_zero (by omega)
    unfold powNumeric
    cases hexponent with
    | zero h0 =>
      simp only [Part.finite?_some hbits, absent]
      rw [if_pos (by simp [zero]), h0, zero_mul, Real.exp_zero]
      refine Numeric.holds_real hp (by omega) (bitLength_one_le prec) ?_
      rw [toReal_ofInt, Int.cast_one]
      exact .refl (lastBits_pos prec).le 1
    | @part r rpart =>
      obtain ⟨rbits, hrbits⟩ := rpart.value_eq
      have rman := rpart.man_ne_zero (by omega)
      have positive : 0 < p.binary.toReal := hpart.near.pos (lastBits_small (by omega)) hv
      simp only [Part.finite?_some hbits, Part.finite?_some hrbits, absent]
      rw [if_neg (by simp [rman]), if_neg (by simp [man]), if_neg Bool.false_ne_true,
        if_pos (by simp [zero, toReal_pos.1 positive])]
      exact Numeric.holds_real hp (by omega) (bitLength_exponential _ _ _)
        (power_parts_near hp hcap hpart rpart hv (hw.resolve_left rpart.ne_zero) hws hw' hl)

end Reckoner
