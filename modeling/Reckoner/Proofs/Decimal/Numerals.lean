-- Doubles as they are written. A text of digits, maybe with a point and an exponent, names a
-- decimal, and the text of a finite double names one that is rounded to it, so it reads back.
import Reckoner.Proofs.Decimal.Shortest
import Reckoner.Proofs.Reading.Words

namespace Reckoner

/-! ## Decimals as they are written -/

/-- A decimal as it is written: digits before a point, digits behind it, and an exponent. -/
structure Numeral where
  whole : List Char
  part : List Char := []
  power : Option ℤ := none

namespace Numeral

/-- Only digits stand there, some of them before the point, and a zero comes first alone. -/
structure IsPlain (a : Numeral) : Prop where
  whole : ∀ c ∈ a.whole, c.isDigit
  some : a.whole ≠ []
  leading : ∀ l, a.whole = '0' :: l → l = []
  part : ∀ c ∈ a.part, c.isDigit

def partChars (a : Numeral) : List Char := if a.part = [] then [] else '.' :: a.part

def powerChars (a : Numeral) : List Char :=
  match a.power with
  | none => []
  | some e => 'e' :: (Double.exponentText e).toList

def chars (a : Numeral) : List Char := a.whole ++ (a.partChars ++ a.powerChars)

/-- What is written begins with a digit. -/
theorem IsPlain.exists_first {a : Numeral} (plain : a.IsPlain) :
    ∃ c r, a.chars = c :: r ∧ c.isDigit = true := by
  obtain ⟨first, rest, head⟩ := List.exists_cons_of_ne_nil plain.some
  exact ⟨first, rest ++ (a.partChars ++ a.powerChars), by rw [chars, head]; rfl,
    plain.whole first (head ▸ List.mem_cons_self)⟩

/-- The digits as a whole number, without regard to the point. -/
def digits (a : Numeral) : ℕ := Nat.ofDigitChars 10 (a.whole ++ a.part) 0

/-- The place of the last digit. -/
def place (a : Numeral) : ℤ := a.power.getD 0 - a.part.length

end Numeral

/-! ## Runs of digits -/

/-- A text goes on without a digit. -/
def EndsDigits (rest : List Char) : Prop := ∀ c r, rest = c :: r → c.isDigit = false

theorem endsDigits_nil : EndsDigits [] := fun _ _ h => by cases h

theorem endsDigits_cons {c : Char} (h : c.isDigit = false) (r : List Char) : EndsDigits (c :: r) :=
  fun _ _ eq => (List.cons.inj eq).1 ▸ h

theorem takeWhile_digits {l rest : List Char} (h : ∀ c ∈ l, c.isDigit) (ends : EndsDigits rest) :
    (l ++ rest).takeWhile Char.isDigit = l := by
  rw [List.takeWhile_append_of_pos h]
  cases rest with
  | nil => rw [List.takeWhile_nil, List.append_nil]
  | cons c r =>
    rw [List.takeWhile_cons_of_neg (by rw [ends c r rfl]; exact Bool.false_ne_true),
      List.append_nil]

theorem dropWhile_digits {l rest : List Char} (h : ∀ c ∈ l, c.isDigit) (ends : EndsDigits rest) :
    (l ++ rest).dropWhile Char.isDigit = rest := by
  rw [List.dropWhile_append_of_pos h]
  cases rest with
  | nil => rfl
  | cons c r => exact List.dropWhile_cons_of_neg (by rw [ends c r rfl]; exact Bool.false_ne_true)

namespace Double

theorem digitRun_digits {l rest : List Char} (h : ∀ c ∈ l, c.isDigit) (ends : EndsDigits rest) :
    digitRun (l ++ rest) = (Nat.ofDigitChars 10 l 0, l.length, rest) := by
  cases l with
  | nil =>
    cases rest with
    | nil => rfl
    | cons c r =>
      change digitRun (c :: r) = _
      unfold digitRun
      dsimp only
      rw [ends c r rfl]
      rfl
  | cons c l =>
    obtain ⟨first, later⟩ := List.forall_mem_cons.1 h
    change digitRun (c :: (l ++ rest)) = _
    unfold digitRun
    dsimp only
    rw [if_pos first, takeWhile_digits later ends, dropWhile_digits later ends]
    rfl

theorem isDigit_of_mem_digitsOf {n : ℕ} : ∀ c ∈ digitsOf n, c.isDigit := fun c hc => by
  rw [← isAsciiDigit_iff]
  exact digitsOf_digits n c hc

theorem ofDigitChars_digitsOf (n : ℕ) : Nat.ofDigitChars 10 (digitsOf n) 0 = n := by
  rw [digitsOf_eq, Nat.ofDigitChars_ten_toDigits]

/-! ## Exponents -/

/-- The digits of an exponent, at least two of them. -/
def exponentDigits (e : ℤ) : List Char :=
  if (digitsOf e.natAbs).length < 2 then '0' :: digitsOf e.natAbs else digitsOf e.natAbs

theorem exponentText_chars (e : ℤ) :
    (exponentText e).toList = (if e < 0 then '-' else '+') :: exponentDigits e := by
  unfold exponentText exponentDigits digitsOf
  dsimp only
  rw [String.toList_append, String.length_toList]
  split_ifs <;> simp

theorem exponentDigits_digits (e : ℤ) : ∀ c ∈ exponentDigits e, c.isDigit := by
  unfold exponentDigits
  split_ifs
  · exact List.forall_mem_cons.2 ⟨by decide, isDigit_of_mem_digitsOf⟩
  · exact isDigit_of_mem_digitsOf

theorem exponentDigits_ne_nil (e : ℤ) : exponentDigits e ≠ [] := by
  unfold exponentDigits
  split_ifs
  · exact List.cons_ne_nil _ _
  · exact digitsOf_ne_nil _

theorem ofDigitChars_exponentDigits (e : ℤ) :
    Nat.ofDigitChars 10 (exponentDigits e) 0 = e.natAbs := by
  unfold exponentDigits
  split_ifs
  · exact ofDigitChars_digitsOf _
  · exact ofDigitChars_digitsOf _

/-- A sign and a run of digits after the letter. -/
theorem exponentPart?_run (negative : Bool) {l : List Char} {n k : ℕ}
    (run : digitRun l = (n, k, [])) (some : k ≠ 0) :
    exponentPart? ('e' :: (if negative then '-' else '+') :: l) =
      .some (if negative then -(n : ℤ) else n) := by
  unfold exponentPart?
  cases negative <;> simp [run, some]

/-- An exponent that ends a text is read. -/
theorem exponentPart?_power (a : Numeral) : exponentPart? a.powerChars = some (a.power.getD 0) := by
  unfold Numeral.powerChars
  cases a.power with
  | none => rfl
  | some e =>
    have run := digitRun_digits (exponentDigits_digits e) endsDigits_nil
    have length : (exponentDigits e).length ≠ 0 :=
      mt List.length_eq_zero_iff.1 (exponentDigits_ne_nil e)
    rw [List.append_nil, ofDigitChars_exponentDigits] at run
    dsimp only
    rw [exponentText_chars]
    generalize exponentDigits e = l at run length ⊢
    split_ifs with negative
    · have value := exponentPart?_run true run length
      rw [if_pos rfl, if_pos rfl] at value
      rw [value, Option.getD_some]
      congr 1
      omega
    · have value := exponentPart?_run false run length
      rw [if_neg Bool.false_ne_true, if_neg Bool.false_ne_true] at value
      rw [value, Option.getD_some]
      congr 1
      omega

/-! ## Texts that are read -/

theorem endsDigits_power (a : Numeral) : EndsDigits a.powerChars := by
  unfold Numeral.powerChars
  cases a.power with
  | none => exact endsDigits_nil
  | some e => exact endsDigits_cons rfl _

theorem endsDigits_part (a : Numeral) : EndsDigits (a.partChars ++ a.powerChars) := by
  unfold Numeral.partChars
  split_ifs
  · exact endsDigits_power a
  · exact endsDigits_cons rfl _

/-- A decimal that is written is read as the double that is closest to it. -/
theorem readUnsigned?_chars {a : Numeral} (plain : a.IsPlain) :
    readUnsigned? a.chars = some (ofDecimal a.digits a.place) := by
  obtain ⟨first, rest, head, digit⟩ := plain.exists_first
  have named : ∀ s : List Char, EndsDigits s → a.chars ≠ s := by
    rintro s other rfl
    exact Bool.false_ne_true ((other first rest head).symm.trans digit)
  have run : digitRun a.chars = _ := digitRun_digits plain.whole (endsDigits_part a)
  have count : a.whole.length ≠ 0 := mt List.length_eq_zero_iff.1 plain.some
  have infinite : ¬ (decide (a.chars = "inf".toList) ||
      decide (a.chars = "infinity".toList)) = true := by
    rw [Bool.or_eq_true, decide_eq_true_iff, decide_eq_true_iff, not_or]
    exact ⟨named _ (endsDigits_cons rfl _), named _ (endsDigits_cons rfl _)⟩
  have undefined : a.chars ≠ "nan".toList := named _ (endsDigits_cons rfl _)
  unfold readUnsigned?
  rw [if_neg infinite, if_neg undefined, run]
  dsimp only
  unfold Numeral.digits Numeral.place
  have power := exponentPart?_power a
  by_cases alone : a.part = []
  · have next : a.partChars = [] := if_pos alone
    have last : a.powerChars = [] ∨ ∃ l, a.powerChars = 'e' :: l := by
      unfold Numeral.powerChars
      cases a.power with
      | none => exact .inl rfl
      | some e => exact .inr ⟨_, rfl⟩
    rw [next, List.nil_append, alone, List.append_nil, List.length_nil]
    have read : (if a.whole.length = 0 then none else (exponentPart? a.powerChars).map fun e =>
        ofDecimal (Nat.ofDigitChars 10 a.whole 0) (e - (0 : ℕ))) =
        some (ofDecimal (Nat.ofDigitChars 10 a.whole 0) (a.power.getD 0 - (0 : ℕ))) := by
      rw [if_neg count, power, Option.map_some]
    rcases last with empty | ⟨l, follows⟩
    · rw [empty] at read ⊢
      exact read
    · rw [follows] at read ⊢
      exact read
  · have next : a.partChars = '.' :: a.part := if_neg alone
    have part := digitRun_digits plain.part (endsDigits_power a)
    have value : Nat.ofDigitChars 10 (a.whole ++ a.part) 0 =
        Nat.ofDigitChars 10 a.whole 0 * 10 ^ a.part.length + Nat.ofDigitChars 10 a.part 0 := by
      rw [Nat.ofDigitChars_append, mul_comm]
      exact Nat.ofDigitChars_eq_ofDigitChars_zero
    rw [next, List.cons_append]
    change (if a.whole.length + (digitRun (a.part ++ a.powerChars)).2.1 = 0 then none
      else (exponentPart? (digitRun (a.part ++ a.powerChars)).2.2).map fun e =>
        ofDecimal (Nat.ofDigitChars 10 a.whole 0 * 10 ^ (digitRun (a.part ++ a.powerChars)).2.1 +
          (digitRun (a.part ++ a.powerChars)).1) (e - (digitRun (a.part ++ a.powerChars)).2.1)) = _
    rw [part]
    dsimp only
    rw [if_neg (by omega), power, Option.map_some, value]

/-! ## Layouts -/

/-- The text of a decimal: with a point near the first digit, or with an exponent. -/
def decimalText (n : ℕ) (place : ℤ) : String :=
  let digits := (natText n).toList
  let top := place + digits.length - 1
  if -4 ≤ top && top < 16 then
    if 0 ≤ place then natText (n * 10 ^ place.toNat) ++ ".0"
    else placesText (-place).toNat n
  else
    let front := String.ofList (digits.take 1)
    let back := String.ofList (digits.drop 1)
    (if back.isEmpty then front else front ++ "." ++ back) ++ "e" ++ exponentText top

/-- A text is that of a decimal, with a point or an exponent, of some digits up to a place. -/
structure IsWritten (s : String) (n : ℕ) (place : ℤ) (a : Numeral) : Prop where
  plain : a.IsPlain
  measured : a.part ≠ [] ∨ a.power ≠ none
  chars : s.toList = a.chars
  value : (a.digits : ℚ) * 10 ^ a.place = n * 10 ^ place
  least : min place (-1) ≤ a.place

/-- A whole number is written with a zero behind the point. -/
theorem whole_isWritten (n k : ℕ) :
    IsWritten (natText (n * 10 ^ k) ++ ".0") n k ⟨digitsOf (n * 10 ^ k), ['0'], none⟩ where
  plain := ⟨isDigit_of_mem_digitsOf, digitsOf_ne_nil _, fun _ h => digitsOf_of_zero h,
    List.forall_mem_singleton.2 rfl⟩
  measured := .inl (List.cons_ne_nil _ _)
  chars := by
    rw [String.toList_append]
    rfl
  value := by
    unfold Numeral.digits Numeral.place
    rw [Nat.ofDigitChars_append, ofDigitChars_digitsOf, Nat.ofDigitChars_cons, Nat.ofDigitChars_nil]
    push_cast
    rw [List.length_singleton, Option.getD_none, zpow_natCast]
    norm_num
    ring
  least := by
    rw [min_eq_right (by omega)]
    rfl

/-- A number less than ten times as large as its last place has its digits around the point. -/
theorem places_isWritten (n : ℕ) {k : ℕ} (hk : k ≠ 0) :
    ∃ a, IsWritten (placesText k n) n (-(k : ℤ)) a := by
  obtain ⟨l, hl⟩ : ∃ l, List.replicate (k + 1 - (digitsOf n).length) '0' ++ digitsOf n = l :=
    ⟨_, rfl⟩
  have length : l.length = max (k + 1) (digitsOf n).length := by
    rw [← hl, List.length_append, List.length_replicate]
    omega
  have digits : ∀ c ∈ l, c.isDigit := by
    rw [← hl]
    refine List.forall_mem_append.2 ⟨fun c hc => ?_, isDigit_of_mem_digitsOf⟩
    rw [List.eq_of_mem_replicate hc]
    rfl
  have value : Nat.ofDigitChars 10 l 0 = n := by
    rw [← hl, Nat.ofDigitChars_append, Nat.ofDigitChars_replicate_zero, mul_zero,
      ofDigitChars_digitsOf]
  have part : (l.drop (l.length - k)).length = k := by
    rw [List.length_drop]
    omega
  refine ⟨⟨l.take (l.length - k), l.drop (l.length - k), none⟩, ?_, ?_, ?_, ?_, ?_⟩
  · refine ⟨fun c hc => digits c (List.mem_of_mem_take hc), ?_, ?_,
      fun c hc => digits c (List.mem_of_mem_drop hc)⟩
    · refine mt (congrArg List.length) ?_
      rw [List.length_take, List.length_nil]
      omega
    · -- the first of several digits is not a zero, and a zero that is put in stands alone
      intro r front
      rcases le_or_gt (digitsOf n).length k with short | long
      · have one := congrArg List.length front
        rw [List.length_take, List.length_cons] at one
        exact List.eq_nil_of_length_eq_zero (by omega)
      · have all : '0' :: (r ++ l.drop (l.length - k)) = l := by
          rw [← List.cons_append, ← front, List.take_append_drop]
        rw [← all, show k + 1 - (digitsOf n).length = 0 by omega] at hl
        exact (List.append_eq_nil_iff.1 (digitsOf_of_zero hl)).1
  · refine .inl fun none => hk ?_
    exact part.symm.trans (congrArg List.length none)
  · have shape : placesText k n = String.ofList (l.take (l.length - k)) ++
        (if k = 0 then "" else "." ++ String.ofList (l.drop (l.length - k))) := by
      rw [← hl]
      rfl
    have some : l.drop (l.length - k) ≠ [] := fun none =>
      hk (part.symm.trans (congrArg List.length none))
    rw [shape, if_neg hk, String.toList_append, String.toList_append, String.toList_ofList,
      String.toList_ofList, Numeral.chars, Numeral.partChars, if_neg some, Numeral.powerChars]
    simp
  · unfold Numeral.digits Numeral.place
    rw [List.take_append_drop, value, part]
    simp
  · unfold Numeral.place
    rw [part]
    simp

/-- A number far from the point is written with an exponent. -/
theorem power_isWritten (n : ℕ) (place : ℤ) : ∃ a, IsWritten
    ((if (String.ofList ((digitsOf n).drop 1)).isEmpty then String.ofList ((digitsOf n).take 1)
      else String.ofList ((digitsOf n).take 1) ++ "." ++ String.ofList ((digitsOf n).drop 1)) ++
      "e" ++ exponentText (place + (digitsOf n).length - 1)) n place a := by
  have value := ofDigitChars_digitsOf n
  have digits := @isDigit_of_mem_digitsOf n
  have some := digitsOf_ne_nil n
  generalize digitsOf n = l at *
  obtain ⟨c, r, rfl⟩ := List.exists_cons_of_ne_nil some
  obtain ⟨first, later⟩ := List.forall_mem_cons.1 digits
  refine ⟨⟨[c], r, .some (place + (c :: r).length - 1)⟩, ?_, .inr (Option.some_ne_none _),
    ?_, ?_, ?_⟩
  · refine ⟨List.forall_mem_singleton.2 first, List.cons_ne_nil _ _, fun s h => ?_, later⟩
    exact (List.cons.inj h).2.symm
  · unfold Numeral.chars Numeral.partChars Numeral.powerChars
    cases r <;> simp
  · have places : Numeral.place ⟨[c], r, .some (place + (c :: r).length - 1)⟩ = place := by
      unfold Numeral.place
      rw [List.length_cons, Option.getD_some]
      push_cast
      ring
    rw [places]
    exact congrArg (fun m : ℕ => (m : ℚ) * 10 ^ place) value
  · unfold Numeral.place
    rw [List.length_cons, Option.getD_some]
    push_cast
    omega

/-- The text of a decimal names it. -/
theorem decimalText_isWritten (n : ℕ) (place : ℤ) :
    ∃ a, IsWritten (decimalText n place) n place a := by
  unfold decimalText
  dsimp only
  by_cases near : -4 ≤ place + (natText n).toList.length - 1 ∧
      place + (natText n).toList.length - 1 < 16
  · rw [if_pos (by rwa [Bool.and_eq_true, decide_eq_true_iff, decide_eq_true_iff])]
    by_cases whole : 0 ≤ place
    · obtain ⟨k, rfl⟩ := Int.eq_ofNat_of_zero_le whole
      rw [if_pos whole]
      exact ⟨_, whole_isWritten n k⟩
    · obtain ⟨k, rfl⟩ : ∃ k : ℕ, place = -k := ⟨(-place).toNat, by omega⟩
      rw [if_neg whole, neg_neg, Int.toNat_natCast]
      exact places_isWritten n (by omega)
  · rw [if_neg (by rwa [Bool.and_eq_true, decide_eq_true_iff, decide_eq_true_iff])]
    exact power_isWritten n place

/-! ## Texts of doubles -/

variable {x : Float} {v : ℚ}

/-- A decimal, behind a sign, is the text of a double, and it is rounded to its size. -/
structure IsTextOf (x : Float) (a : Numeral) (size : ℚ) : Prop where
  plain : a.IsPlain
  measured : a.part ≠ [] ∨ a.power ≠ none
  chars : (text x).toList = if isNegative x then '-' :: a.chars else a.chars
  value : toRat? (ofDecimal a.digits a.place) = some size
  sign : isNegative (ofDecimal a.digits a.place) = false

theorem isNegative_zero : isNegative 0 = false := by decide +kernel

theorem isNegative_neg_zero : isNegative (-0) = true := by decide +kernel

/-- The text of a double is a decimal that is rounded to it. -/
theorem exists_isTextOf (hx : toRat? x = some v) : ∃ a, IsTextOf x a |v| := by
  obtain ⟨s, n, place, written, value⟩ : ∃ s n place, text x = signText x ++ s ∧
      (∃ a, IsWritten s n place a) ∧ ∀ a, IsWritten s n place a →
        toRat? (ofDecimal a.digits a.place) = some |v| ∧
          isNegative (ofDecimal a.digits a.place) = false := by
    have special : special? x = none := by
      unfold special?
      rw [not_isNaN_of_value hx, not_isInf_of_value hx]
      rfl
    by_cases zero : v = 0
    · refine ⟨natText (0 * 10 ^ 0) ++ ".0", 0, 0, ?_, ⟨_, whole_isWritten 0 0⟩, fun a ha => ?_⟩
      · unfold text
        rw [special]
        dsimp only
        rw [if_pos ((isZero_iff_of_value hx).2 zero)]
        rfl
      · have none : a.digits = 0 := by
          have value := ha.value
          rw [Nat.cast_zero, zero_mul, mul_eq_zero] at value
          exact_mod_cast value.resolve_right (by positivity)
        rw [none, ofDecimal_zero, zero, abs_zero]
        exact ⟨toRat?_zero, isNegative_zero⟩
    · have form := (partsOf_value hx).1
      have positive : 0 < (partsOf x).man := by
        refine Nat.pos_of_ne_zero fun none => zero ?_
        rw [← abs_eq_zero, ← partsOf_abs hx, none, Nat.cast_zero, zero_mul]
      have decimal := DoubleParts.shortest_isDecimal form positive
      refine ⟨decimalText (partsOf x).shortest.1 (partsOf x).shortest.2, _, _, ?_,
        decimalText_isWritten _ _, fun a ha => ?_⟩
      · unfold text
        rw [special]
        dsimp only
        rw [if_neg (mt (isZero_iff_of_value hx).1 zero)]
        rfl
      · rw [← partsOf_abs hx]
        have reads : toRat? (ofDecimal a.digits a.place) = some (partsOf x).value :=
          decimal.reads form ha.value (by have := ha.least; have := decimal.least; omega)
        exact ⟨reads, isNegative_of_pos reads (mul_pos (Nat.cast_pos.2 positive) (two_zpow_pos _))⟩
  obtain ⟨⟨a, ha⟩, value⟩ := value
  refine ⟨a, ha.plain, ha.measured, ?_, (value a ha).1, (value a ha).2⟩
  rw [written, String.toList_append, ha.chars]
  unfold signText
  split_ifs <;> rfl

/-- The text of a finite double reads back as the double. -/
theorem read?_text (hx : toRat? x = some v) : read? (text x) = some x := by
  obtain ⟨a, plain, -, chars, value, sign⟩ := exists_isTextOf hx
  have read := readUnsigned?_chars plain
  generalize ofDecimal a.digits a.place = y at read value sign
  unfold read?
  rw [chars]
  cases negative : isNegative x with
  | true =>
    have below : v ≤ 0 := by
      by_contra above
      rw [isNegative_of_pos hx (not_le.1 above)] at negative
      cases negative
    have opposite : toRat? (-y) = some v := by
      rw [toRat?_neg value, abs_of_nonpos below, neg_neg]
    have same : isNegative (-y) = true := by
      rcases below.lt_or_eq with less | rfl
      · exact isNegative_of_neg opposite less
      · rw [abs_zero] at value
        rw [eq_of_value value toRat?_zero (sign.trans isNegative_zero.symm)]
        exact isNegative_neg_zero
    change (readUnsigned? a.chars).map (fun x => -x) = some x
    rw [read, Option.map_some, eq_of_value opposite hx (same.trans negative.symm)]
  | false =>
    have above : 0 ≤ v := by
      by_contra below
      rw [isNegative_of_neg hx (not_le.1 below)] at negative
      cases negative
    have same : y = x := by
      rw [abs_of_nonneg above] at value
      exact eq_of_value value hx (sign.trans negative.symm)
    obtain ⟨first, rest, head, digit⟩ := plain.exists_first
    have unsigned : ∀ c r, a.chars = c :: r → c.isDigit := fun c r eq => by
      rw [← (List.cons.inj (head.symm.trans eq)).1]
      exact digit
    rw [if_neg Bool.false_ne_true]
    split
    · exact absurd (unsigned _ _ ‹_›) (by decide)
    · exact absurd (unsigned _ _ ‹_›) (by decide)
    · rw [read, same]

end Double

end Reckoner
