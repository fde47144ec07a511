-- Values as objects and back. A reader of object notation finds every value of plain data again
-- in the text that is written for it, character for character and bit for bit.
import Reckoner.Log.Line
import Reckoner.Proofs.Decimal.Numerals
import Reckoner.Proofs.Value.Writing

namespace Reckoner

/-! ## Plain data -/

mutual
/-- Whether a value is plain data: no function, no endless or undefined number, and no name twice in
a record. -/
def Value.isData : Value → Bool
  | .nothing | .truth _ | .text _ => true
  | .number q => q.isFinite
  | .list l => areData l
  | .record l => decide (l.map Prod.fst).Nodup && fieldsAreData l
  | .formula _ | .cycle _ => false
def areData : List Value → Bool
  | [] => true
  | v :: rest => v.isData && areData rest
def fieldsAreData : List (String × Value) → Bool
  | [] => true
  | (_, v) :: rest => v.isData && fieldsAreData rest
end

/-! ## Reading texts -/

/-- The text without the blanks that begin it. -/
def skipBlanks (s : List Char) : List Char :=
  s.dropWhile fun c => c = ' ' || c = '\t' || c = '\n' || c = '\r'

/-- The value of a digit of a code unit. -/
def unitDigit? (c : Char) : Option ℕ :=
  if c.isDigit then some (c.toNat - '0'.toNat)
  else if 'a' ≤ c && c ≤ 'f' then some (c.toNat - 'a'.toNat + 10)
  else if 'A' ≤ c && c ≤ 'F' then some (c.toNat - 'A'.toNat + 10)
  else none

/-- The code unit with four digits. -/
def unit? (a b c d : Char) : Option ℕ := do
  let high := (← unitDigit? a) * 16 + (← unitDigit? b)
  let low := (← unitDigit? c) * 16 + (← unitDigit? d)
  return high * 256 + low

/-- What a character behind a backslash stands for. -/
def escapedUnit? (c : Char) : Option ℕ :=
  if c = '"' || c = '\\' || c = '/' then some c.toNat
  else if c = 'b' then some 8
  else if c = 'f' then some 12
  else if c = 'n' then some 10
  else if c = 'r' then some 13
  else if c = 't' then some 9
  else none

/-- The code units up to the quote that ends a text, and what follows it. -/
def readUnits? : List Char → Option (List ℕ × List Char)
  | [] => none
  | '"' :: rest => some ([], rest)
  | '\\' :: 'u' :: a :: b :: c :: d :: rest => do
    let n ← unit? a b c d
    let (units, rest) ← readUnits? rest
    return (n :: units, rest)
  | '\\' :: c :: rest => do
    let n ← escapedUnit? c
    let (units, rest) ← readUnits? rest
    return (n :: units, rest)
  | c :: rest =>
    if c.toNat < 32 then none
    else do
      let (units, rest) ← readUnits? rest
      return (c.toNat :: units, rest)

/-- The character of a code unit that stands alone. -/
def unitChar? (n : ℕ) : Option Char := if n.isValidChar then some (Char.ofNat n) else none

/-- Whether two code units are a pair that stands for one character. -/
def isPair (n m : ℕ) : Bool := 55296 ≤ n && n < 56320 && 56320 ≤ m && m < 57344

/-- The characters of code units. -/
def joinUnits? : List ℕ → Option (List Char)
  | [] => some []
  | [n] => (unitChar? n).map fun c => [c]
  | n :: m :: rest =>
    if isPair n m then
      (joinUnits? rest).map (Char.ofNat (65536 + (n - 55296) * 1024 + (m - 56320)) :: ·)
    else do
      let c ← unitChar? n
      (joinUnits? (m :: rest)).map (c :: ·)

/-- The text up to the quote that ends it, and what follows. -/
def readText? (s : List Char) : Option (String × List Char) := do
  let (units, rest) ← readUnits? s
  return (String.ofList (← joinUnits? units), rest)

/-! ## Reading numbers -/

/-- The point and the digits behind it, where there are some. -/
def readPart : List Char → List Char × List Char
  | '.' :: rest =>
    let digits := rest.takeWhile Char.isDigit
    if digits.isEmpty then ([], '.' :: rest) else ('.' :: digits, rest.dropWhile Char.isDigit)
  | s => ([], s)

/-- The exponent, where there is one. -/
def readPower : List Char → List Char × List Char
  | [] => ([], [])
  | e :: rest =>
    if e = 'e' || e = 'E' then
      let (sign, s) := match rest with
        | '+' :: r => (['+'], r)
        | '-' :: r => (['-'], r)
        | r => ([], r)
      let digits := s.takeWhile Char.isDigit
      if digits.isEmpty then ([], e :: rest)
      else (e :: (sign ++ digits), s.dropWhile Char.isDigit)
    else ([], e :: rest)

/-- The number without a sign that begins a text: a whole number, or a double where a point or an
exponent stands in it. -/
def readUnsignedNumber? (negative : Bool) (s : List Char) : Option (Value × List Char) :=
  let whole := s.takeWhile Char.isDigit
  let (part, rest) := readPart (s.dropWhile Char.isDigit)
  let (power, rest) := readPower rest
  if whole.isEmpty || (whole.head? = some '0' && whole.length ≠ 1) then none
  else if part.isEmpty && power.isEmpty then
    let n := Nat.ofDigitChars 10 whole 0
    some (.whole (if negative then -(n : ℤ) else n), rest)
  else
    let chars := whole ++ (part ++ power)
    (Double.read? (String.ofList (if negative then '-' :: chars else chars))).map fun x =>
      (.measure x, rest)

def readNumber? : List Char → Option (Value × List Char)
  | '-' :: rest => readUnsignedNumber? true rest
  | s => readUnsignedNumber? false s

/-! ## Reading values -/

/-- A value that a word stands for. -/
def readWord? (word : String) (v : Value) (s : List Char) : Option (Value × List Char) :=
  if word.toList.isPrefixOf s then some (v, s.drop word.length) else none

/-- The name of an entry, up to the colon behind it. -/
def readName? (s : List Char) : Option (String × List Char) :=
  match skipBlanks s with
  | '"' :: rest => do
    let (name, rest) ← readText? rest
    match skipBlanks rest with
    | ':' :: rest => return (name, rest)
    | _ => none
  | _ => none

mutual
/-- The value that begins a text, and what follows it. Each call that is within another reads a
shorter text, so as much fuel as there are characters is enough. -/
def readValue? : ℕ → List Char → Option (Value × List Char)
  | 0, _ => none
  | fuel + 1, s =>
    match skipBlanks s with
    | [] => none
    | c :: rest =>
      if c = '"' then (readText? rest).map fun (t, rest) => (.text t, rest)
      else if c = '[' then
        match skipBlanks rest with
        | ']' :: rest => some (.list [], rest)
        | _ => do
          let (v, rest) ← readValue? fuel rest
          let (l, rest) ← readItems? fuel rest
          return (.list (v :: l), rest)
      else if c = '\x7b' then
        match skipBlanks rest with
        | '\x7d' :: rest => some (.record [], rest)
        | _ => do
          let (name, rest) ← readName? rest
          let (v, rest) ← readValue? fuel rest
          let (l, rest) ← readEntries? fuel rest
          return (.record ((name, v) :: l), rest)
      else if c = 'n' then readWord? "ull" .nothing rest
      else if c = 't' then readWord? "rue" (.truth true) rest
      else if c = 'f' then readWord? "alse" (.truth false) rest
      else readNumber? (c :: rest)
/-- The items that follow the first one of a list. -/
def readItems? : ℕ → List Char → Option (List Value × List Char)
  | 0, _ => none
  | fuel + 1, s =>
    match skipBlanks s with
    | ',' :: rest => do
      let (v, rest) ← readValue? fuel rest
      let (l, rest) ← readItems? fuel rest
      return (v :: l, rest)
    | ']' :: rest => some ([], rest)
    | _ => none
/-- The entries that follow the first one of a record. -/
def readEntries? : ℕ → List Char → Option (List (String × Value) × List Char)
  | 0, _ => none
  | fuel + 1, s =>
    match skipBlanks s with
    | ',' :: rest => do
      let (name, rest) ← readName? rest
      let (v, rest) ← readValue? fuel rest
      let (l, rest) ← readEntries? fuel rest
      return ((name, v) :: l, rest)
    | '\x7d' :: rest => some ([], rest)
    | _ => none
end

/-- The value that a line stands for. -/
def readObject? (line : String) : Option Value :=
  match readValue? (line.length + 1) line.toList with
  | some (v, rest) => if (skipBlanks rest).isEmpty then some v else none
  | none => none

/-! ## Texts are found again -/

theorem unitDigit?_digitChar : ∀ d < 16, unitDigit? (Nat.digitChar d) = some d := by decide

/-- Four digits are read as their code unit. -/
theorem unit?_digits {n : ℕ} (h : n < 65536) :
    unit? (Nat.digitChar (n / 4096)) (Nat.digitChar (n / 256 % 16)) (Nat.digitChar (n / 16 % 16))
      (Nat.digitChar (n % 16)) = some n := by
  unfold unit?
  rw [unitDigit?_digitChar _ (by omega), unitDigit?_digitChar _ (by omega),
    unitDigit?_digitChar _ (by omega), unitDigit?_digitChar _ (by omega)]
  simp only [Option.bind_eq_bind, Option.bind_some, Option.pure_def, Option.some.injEq]
  omega

theorem unitEscape_chars (n : ℕ) : (unitEscape n).toList =
    ['\\', 'u', Nat.digitChar (n / 4096), Nat.digitChar (n / 256 % 16),
      Nat.digitChar (n / 16 % 16), Nat.digitChar (n % 16)] := by
  simp [unitEscape, unitEscape.hexDigit]

theorem readUnits?_unit {n : ℕ} (h : n < 65536) (rest : List Char) :
    readUnits? ((unitEscape n).toList ++ rest) =
      (readUnits? rest).map fun p => (n :: p.1, p.2) := by
  rw [unitEscape_chars]
  change (do
    let n ← unit? (Nat.digitChar (n / 4096)) (Nat.digitChar (n / 256 % 16))
      (Nat.digitChar (n / 16 % 16)) (Nat.digitChar (n % 16))
    let (units, rest) ← readUnits? rest
    return (n :: units, rest)) = _
  rw [unit?_digits h]
  cases readUnits? rest <;> rfl

/-- The code units of a character. -/
def unitsOf (c : Char) : List ℕ :=
  if c.toNat < 65536 then [c.toNat]
  else [55296 + (c.toNat - 65536) / 1024, 56320 + (c.toNat - 65536) % 1024]

theorem toNat_lt (c : Char) : c.toNat < 1114112 := by
  rcases c.valid with h | h
  · exact lt_trans h (by decide)
  · exact h.2

theorem readUnits?_backslash {d : Char} (h : d ∈ ['"', '\\', 'n', 'r', 't', 'f', 'b'])
    (rest : List Char) : readUnits? ('\\' :: d :: rest) =
      (escapedUnit? d).bind fun n => (readUnits? rest).map fun p => (n :: p.1, p.2) := by
  simp only [List.mem_cons, List.not_mem_nil, or_false] at h
  rcases h with rfl | rfl | rfl | rfl | rfl | rfl | rfl <;> cases h : readUnits? rest <;>
    simp [readUnits?, h, escapedUnit?]

theorem readUnits?_plain {c : Char} (quote : c ≠ '"') (slash : c ≠ '\\') (h : 32 ≤ c.toNat)
    (rest : List Char) :
    readUnits? (c :: rest) = (readUnits? rest).map fun p => (c.toNat :: p.1, p.2) := by
  rw [readUnits?]
  · rw [if_neg (not_lt.2 h)]
    cases readUnits? rest <;> rfl
  · exact quote
  · intros
    exact absurd ‹c = '\\'› slash
  · intros
    exact absurd ‹c = '\\'› slash

/-- A character that is written is read as its code units. -/
theorem readUnits?_escaped (c : Char) (rest : List Char) :
    readUnits? ((escapedChar c).toList ++ rest) =
      (readUnits? rest).map fun p => (unitsOf c ++ p.1, p.2) := by
  have one : c.toNat < 65536 → unitsOf c = [c.toNat] := fun h => if_pos h
  have simple : ∀ d ∈ ['"', '\\', 'n', 'r', 't', 'f', 'b'], escapedUnit? d = some c.toNat →
      c.toNat < 65536 → readUnits? ('\\' :: d :: rest) =
        (readUnits? rest).map fun p => (unitsOf c ++ p.1, p.2) := by
    intro d hd unit small
    rw [readUnits?_backslash hd, unit, one small]
    rfl
  unfold escapedChar
  split_ifs with quote slash line home tab feed back plain small
  · subst quote
    exact simple '"' (by decide) rfl (by decide)
  · subst slash
    exact simple '\\' (by decide) rfl (by decide)
  · subst line
    exact simple 'n' (by decide) rfl (by decide)
  · subst home
    exact simple 'r' (by decide) rfl (by decide)
  · subst tab
    exact simple 't' (by decide) rfl (by decide)
  · exact simple 'f' (by decide) (by rw [feed]; rfl) (by omega)
  · exact simple 'b' (by decide) (by rw [back]; rfl) (by omega)
  · rw [Bool.and_eq_true, decide_eq_true_iff, decide_eq_true_iff] at plain
    rw [String.toList_singleton, List.singleton_append, readUnits?_plain quote slash plain.1,
      one (by omega)]
    rfl
  · rw [readUnits?_unit small, one small]
    rfl
  · have size := toNat_lt c
    rw [String.toList_append, List.append_assoc, readUnits?_unit (by omega),
      readUnits?_unit (by omega), Option.map_map, unitsOf, if_neg small]
    rfl

/-- Code units of characters are joined to them. -/
theorem joinUnits?_append (c : Char) (units : List ℕ) :
    joinUnits? (unitsOf c ++ units) = (joinUnits? units).map (c :: ·) := by
  have range : c.toNat < 55296 ∨ 57343 < c.toNat ∧ c.toNat < 1114112 := c.valid
  unfold unitsOf
  split_ifs with small
  · have own : unitChar? c.toNat = some c := by
      have valid : c.toNat.isValidChar := c.valid
      rw [unitChar?, if_pos valid, Char.ofNat_toNat]
    have alone : ∀ m, isPair c.toNat m = false := by
      intro m
      have outside : ¬ (55296 ≤ c.toNat ∧ c.toNat < 56320) := by omega
      rw [isPair, ← Bool.decide_and, decide_eq_false outside]
      rfl
    cases units with
    | nil =>
      change (unitChar? c.toNat).map (fun c => [c]) = _
      rw [own]
      rfl
    | cons m units =>
      rw [List.singleton_append, joinUnits?, alone m, own]
      rfl
  · have pair : isPair (55296 + (c.toNat - 65536) / 1024) (56320 + (c.toNat - 65536) % 1024) := by
      simp only [isPair, Bool.and_eq_true, decide_eq_true_eq]
      omega
    have value : 65536 + (55296 + (c.toNat - 65536) / 1024 - 55296) * 1024 +
        (56320 + (c.toNat - 65536) % 1024 - 56320) = c.toNat := by omega
    rw [List.cons_append, List.singleton_append, joinUnits?, if_pos pair, value, Char.ofNat_toNat]

theorem readUnits?_text (l rest : List Char) :
    readUnits? ((l.flatMap fun c => (escapedChar c).toList) ++ '"' :: rest) =
      some (l.flatMap unitsOf, rest) := by
  induction l with
  | nil => rfl
  | cons c l ih =>
    rw [List.flatMap_cons, List.append_assoc, readUnits?_escaped, ih]
    rfl

theorem joinUnits?_text (l : List Char) : joinUnits? (l.flatMap unitsOf) = some l := by
  induction l with
  | nil => rfl
  | cons c l ih =>
    rw [List.flatMap_cons, joinUnits?_append, ih]
    rfl

theorem objectText_chars (s : String) : (objectText s).toList =
    '"' :: ((s.toList.flatMap fun c => (escapedChar c).toList) ++ ['"']) := by
  simp [objectText, String.toList_join, List.flatMap, Function.comp_def]

/-- A text that is written is read up to its last quote. -/
theorem readText?_written (s : String) (rest : List Char) :
    ∃ l, (objectText s).toList ++ rest = '"' :: l ∧ readText? l = some (s, rest) := by
  refine ⟨_, by rw [objectText_chars, List.cons_append], ?_⟩
  rw [List.append_assoc, List.singleton_append, readText?, readUnits?_text]
  change (joinUnits? (s.toList.flatMap unitsOf)).bind (fun l => some (String.ofList l, rest)) = _
  rw [joinUnits?_text, Option.bind_some, String.ofList_toList]

/-! ## Numbers are found again -/

/-- What follows a value: nothing, the next one, or the end of what it stands in. -/
def EndsValue (rest : List Char) : Prop :=
  ∀ c r, rest = c :: r → c = ',' ∨ c = ']' ∨ c = '\x7d'

theorem endsValue_cons {c : Char} (h : c = ',' ∨ c = ']' ∨ c = '\x7d') (r : List Char) :
    EndsValue (c :: r) := fun _ _ eq => (List.cons.inj eq).1 ▸ h

section Numbers

variable {rest : List Char} {a : Numeral}

theorem EndsValue.endsDigits (h : EndsValue rest) : EndsDigits rest := by
  intro c r eq
  rcases h c r eq with rfl | rfl | rfl <;> rfl

theorem readPart_of_endsValue (h : EndsValue rest) : readPart rest = ([], rest) := by
  cases rest with
  | nil => rfl
  | cons c r => rcases h c r rfl with rfl | rfl | rfl <;> rfl

theorem readPower_of_endsValue (h : EndsValue rest) : readPower rest = ([], rest) := by
  cases rest with
  | nil => rfl
  | cons c r => rcases h c r rfl with rfl | rfl | rfl <;> rfl

/-- The exponent of a number is read up to what follows the number. -/
theorem readPower_chars (h : EndsValue rest) :
    readPower (a.powerChars ++ rest) = (a.powerChars, rest) := by
  unfold Numeral.powerChars
  cases a.power with
  | none => exact readPower_of_endsValue h
  | some e =>
    have digits := takeWhile_digits (Double.exponentDigits_digits e) h.endsDigits
    have after := dropWhile_digits (Double.exponentDigits_digits e) h.endsDigits
    have some := Double.exponentDigits_ne_nil e
    dsimp only
    rw [Double.exponentText_chars]
    generalize Double.exponentDigits e = l at digits after some ⊢
    have nonempty : ¬ l.isEmpty = true := mt List.isEmpty_iff.1 some
    have read : ∀ sign : Char, sign = '-' ∨ sign = '+' →
        readPower ('e' :: sign :: (l ++ rest)) = ('e' :: sign :: l, rest) := by
      intro sign which
      have shape : readPower ('e' :: sign :: (l ++ rest)) =
          if ((l ++ rest).takeWhile Char.isDigit).isEmpty then ([], 'e' :: sign :: (l ++ rest))
          else ('e' :: ([sign] ++ (l ++ rest).takeWhile Char.isDigit),
            (l ++ rest).dropWhile Char.isDigit) := by
        rcases which with rfl | rfl <;> rfl
      rw [shape, digits, after, if_neg nonempty]
      rfl
    exact read _ (by split_ifs <;> simp)

theorem endsDigits_power_append (h : EndsValue rest) : EndsDigits (a.powerChars ++ rest) := by
  unfold Numeral.powerChars
  cases a.power with
  | none => exact h.endsDigits
  | some e => exact endsDigits_cons rfl _

/-- The digits behind the point are read up to the exponent. -/
theorem readPart_chars (plain : a.IsPlain) (h : EndsValue rest) :
    readPart (a.partChars ++ (a.powerChars ++ rest)) = (a.partChars, a.powerChars ++ rest) := by
  unfold Numeral.partChars
  by_cases alone : a.part = []
  · rw [if_pos alone, List.nil_append]
    unfold Numeral.powerChars
    cases a.power with
    | none => exact readPart_of_endsValue h
    | some e => rfl
  · have ends := endsDigits_power_append (a := a) h
    have nonempty : ¬ a.part.isEmpty = true := mt List.isEmpty_iff.1 alone
    rw [if_neg alone, List.cons_append]
    generalize a.powerChars ++ rest = s at ends ⊢
    have shape : readPart ('.' :: (a.part ++ s)) =
        if ((a.part ++ s).takeWhile Char.isDigit).isEmpty then ([], '.' :: (a.part ++ s))
        else ('.' :: (a.part ++ s).takeWhile Char.isDigit, (a.part ++ s).dropWhile Char.isDigit) :=
      rfl
    rw [shape, takeWhile_digits plain.part ends, dropWhile_digits plain.part ends, if_neg nonempty]

theorem endsDigits_part_append (h : EndsValue rest) :
    EndsDigits (a.partChars ++ (a.powerChars ++ rest)) := by
  unfold Numeral.partChars
  split_ifs
  · exact endsDigits_power_append h
  · exact endsDigits_cons rfl _

/-- A number is read as it is written: as a whole one where it has neither a point nor an
exponent. -/
theorem readUnsignedNumber?_chars (plain : a.IsPlain) (h : EndsValue rest) (negative : Bool) :
    readUnsignedNumber? negative (a.chars ++ rest) =
      if a.part = [] ∧ a.power = none then
        some (.whole (if negative then -(a.digits : ℤ) else a.digits), rest)
      else (Double.read? (String.ofList (if negative then '-' :: a.chars else a.chars))).map
        fun x => (.measure x, rest) := by
  have split : a.chars ++ rest = a.whole ++ (a.partChars ++ (a.powerChars ++ rest)) := by
    rw [Numeral.chars, List.append_assoc, List.append_assoc]
  have ends := endsDigits_part_append (a := a) h
  have regular : ¬ (a.whole.isEmpty ||
      (a.whole.head? = some '0' && a.whole.length ≠ 1)) = true := by
    obtain ⟨c, l, head⟩ := List.exists_cons_of_ne_nil plain.some
    rw [head]
    simp only [List.isEmpty_cons, Bool.false_or, List.head?_cons, Option.some.injEq,
      List.length_cons, Bool.and_eq_true, decide_eq_true_eq, not_and, not_not]
    rintro rfl
    rw [plain.leading l head]
    rfl
  have parts : (a.partChars.isEmpty && a.powerChars.isEmpty) = true ↔
      a.part = [] ∧ a.power = none := by
    rw [Bool.and_eq_true, List.isEmpty_iff, List.isEmpty_iff]
    refine and_congr ?_ ?_
    · unfold Numeral.partChars
      split_ifs with alone <;> simp [alone]
    · unfold Numeral.powerChars
      cases a.power <;> simp
  unfold readUnsignedNumber?
  rw [split, takeWhile_digits plain.whole ends, dropWhile_digits plain.whole ends,
    readPart_chars plain h]
  dsimp only
  rw [readPower_chars h]
  dsimp only
  rw [if_neg regular]
  by_cases whole : a.part = [] ∧ a.power = none
  · rw [if_pos (parts.2 whole), if_pos whole, Numeral.digits, whole.1, List.append_nil]
  · rw [if_neg (mt parts.1 whole), if_neg whole]
    rfl

/-- A number behind a sign is read with it. -/
theorem readNumber?_chars (plain : a.IsPlain) (negative : Bool) :
    readNumber? ((if negative then '-' :: a.chars else a.chars) ++ rest) =
      readUnsignedNumber? negative (a.chars ++ rest) := by
  cases negative with
  | true => rfl
  | false =>
    obtain ⟨c, l, head, digit⟩ := plain.exists_first
    rw [if_neg Bool.false_ne_true, head, List.cons_append]
    unfold readNumber?
    split
    · rename_i r eq
      rw [(List.cons.inj eq).1] at digit
      cases digit
    · rfl

/-- A whole number as it is written, without its sign. -/
def Numeral.ofNat (n : ℕ) : Numeral := ⟨digitsOf n, [], none⟩

theorem Numeral.ofNat_isPlain (n : ℕ) : (Numeral.ofNat n).IsPlain :=
  ⟨Double.isDigit_of_mem_digitsOf, digitsOf_ne_nil n, fun _ h => digitsOf_of_zero h,
    List.forall_mem_nil _⟩

theorem intText_signed (n : ℤ) : (intText n).toList =
    if decide (n < 0) then '-' :: (Numeral.ofNat n.natAbs).chars
    else (Numeral.ofNat n.natAbs).chars := by
  have own : (Numeral.ofNat n.natAbs).chars = digitsOf n.natAbs := List.append_nil _
  rw [own, chars_intText]
  split_ifs <;> rfl

/-- A whole number that is written is read. -/
theorem readNumber?_whole (n : ℤ) (h : EndsValue rest) :
    readNumber? ((intText n).toList ++ rest) = some (.whole n, rest) := by
  have plain := Numeral.ofNat_isPlain n.natAbs
  have digits : (Numeral.ofNat n.natAbs).digits = n.natAbs := by
    rw [Numeral.digits, Numeral.ofNat, List.append_nil, Double.ofDigitChars_digitsOf]
  rw [intText_signed, readNumber?_chars plain, readUnsignedNumber?_chars plain h,
    if_pos ⟨rfl, rfl⟩, digits]
  by_cases negative : n < 0
  · rw [decide_eq_true negative, if_pos rfl, show -(n.natAbs : ℤ) = n by omega]
  · rw [decide_eq_false negative, if_neg Bool.false_ne_true, show (n.natAbs : ℤ) = n by omega]

/-- A finite double that is written is read, bit for bit. -/
theorem readNumber?_measure {x : Float} (finite : x.isFinite = true) (h : EndsValue rest) :
    readNumber? ((Double.text x).toList ++ rest) = some (.measure x, rest) := by
  obtain ⟨v, value⟩ := Double.exists_value finite
  obtain ⟨a, text⟩ := Double.exists_isTextOf value
  have other : ¬ (a.part = [] ∧ a.power = none) := fun h =>
    text.measured.elim (fun some => some h.1) (fun some => some h.2)
  rw [text.chars, readNumber?_chars text.plain, readUnsignedNumber?_chars text.plain h,
    if_neg other, ← text.chars, String.ofList_toList, Double.read?_text value]
  rfl

end Numbers

/-! ## Values are found again -/

/-- The texts of what follows the first one, each behind a comma. -/
def laterChars (texts : List String) : List Char := texts.flatMap fun s => ',' :: ' ' :: s.toList

theorem laterChars_cons (s : String) (texts : List String) :
    laterChars (s :: texts) = ',' :: ' ' :: (s.toList ++ laterChars texts) := rfl

theorem joinTexts_chars (s : String) (texts : List String) :
    (Value.joinTexts ", " (s :: texts)).toList = s.toList ++ laterChars texts := by
  induction texts generalizing s with
  | nil => simp [Value.joinTexts, laterChars]
  | cons t texts ih =>
    rw [Value.joinTexts, String.toList_append, String.toList_append, ih, laterChars_cons,
      List.append_assoc]
    · rfl
    · exact fun h => by cases h

theorem readValue?_blank (fuel : ℕ) (s : List Char) :
    readValue? fuel (' ' :: s) = readValue? fuel s := by
  cases fuel <;> rfl

theorem readName?_blank (s : List Char) : readName? (' ' :: s) = readName? s := rfl

/-- No value begins with the end of a list. -/
theorem readValue?_of_bracket {s r : List Char} (h : skipBlanks s = ']' :: r) (fuel : ℕ) :
    readValue? fuel s = none := by
  cases fuel with
  | zero => rfl
  | succ fuel =>
    rw [readValue?, h]
    rfl

theorem readValue?_number {a : Numeral} (plain : a.IsPlain) (negative : Bool) (fuel : ℕ)
    (rest : List Char) :
    readValue? (fuel + 1) ((if negative then '-' :: a.chars else a.chars) ++ rest) =
      readNumber? ((if negative then '-' :: a.chars else a.chars) ++ rest) := by
  cases negative with
  | true => rfl
  | false =>
    obtain ⟨c, r, head, digit⟩ := plain.exists_first
    have other : ∀ d : Char, d.isDigit = false → c ≠ d := by
      rintro d none rfl
      exact Bool.false_ne_true (none.symm.trans digit)
    have begins : skipBlanks (c :: (r ++ rest)) = c :: (r ++ rest) := by
      rw [skipBlanks, List.dropWhile_cons_of_neg]
      simp [other ' ' rfl, other '\t' rfl, other '\n' rfl, other '\r' rfl]
    rw [if_neg Bool.false_ne_true, head, List.cons_append, readValue?, begins]
    dsimp only
    rw [if_neg (other _ rfl), if_neg (other _ rfl), if_neg (other _ rfl), if_neg (other _ rfl),
      if_neg (other _ rfl), if_neg (other _ rfl)]

/-- A number that is written is read again. -/
theorem readValue?_objectNumber {q : Quantity} {s : String} (finite : q.isFinite = true)
    (form : objectNumber q = .ok s) (fuel : ℕ) {rest : List Char} (ends : EndsValue rest) :
    readValue? (fuel + 1) (s.toList ++ rest) = some (.number q, rest) := by
  cases q with
  | whole n =>
    unfold objectNumber Quantity.wholeText at form
    dsimp only at form
    split_ifs at form
    obtain rfl := Except.ok.inj form
    have read := readNumber?_whole n ends
    rw [intText_signed] at read ⊢
    rw [readValue?_number (Numeral.ofNat_isPlain _), read]
    rfl
  | measure x =>
    obtain ⟨v, value⟩ := Double.exists_value finite
    obtain ⟨a, text⟩ := Double.exists_isTextOf value
    unfold objectNumber at form
    dsimp only at form
    rw [Double.not_isNaN_of_value value, Double.not_isInf_of_value value,
      if_neg Bool.false_ne_true, if_neg Bool.false_ne_true] at form
    obtain rfl := Except.ok.inj form
    have read := readNumber?_measure finite ends
    rw [text.chars] at read ⊢
    rw [readValue?_number text.plain, read]
    rfl

section Steps

variable {fuel : ℕ} {name : String} {v : Value} {s r later rest : List Char}

/-- A list with a first item and later ones. -/
theorem readValue?_list {l : List Value} (first : readValue? fuel s = some (v, later))
    (items : readItems? fuel later = some (l, rest)) :
    readValue? (fuel + 1) ('[' :: s) = some (.list (v :: l), rest) := by
  have shape : readValue? (fuel + 1) ('[' :: s) = match skipBlanks s with
      | ']' :: rest => some (.list [], rest)
      | _ => do
        let (v, rest) ← readValue? fuel s
        let (l, rest) ← readItems? fuel rest
        return (Value.list (v :: l), rest) := rfl
  rw [shape]
  split
  · rename_i ends
    rw [readValue?_of_bracket ends] at first
    cases first
  · rw [first]
    change (do
      let (l, rest) ← readItems? fuel later
      return (Value.list (v :: l), rest)) = _
    rw [items]
    rfl

theorem readItems?_cons {l : List Value} (first : readValue? fuel s = some (v, later))
    (items : readItems? fuel later = some (l, rest)) :
    readItems? (fuel + 1) (',' :: ' ' :: s) = some (v :: l, rest) := by
  change (do
    let (v, rest) ← readValue? fuel (' ' :: s)
    let (l, rest) ← readItems? fuel rest
    return (v :: l, rest)) = _
  rw [readValue?_blank, first]
  change (do
    let (l, rest) ← readItems? fuel later
    return (v :: l, rest)) = _
  rw [items]
  rfl

/-- A record with a first entry and later ones. -/
theorem readValue?_record {l : List (String × Value)} (named : readName? s = some (name, r))
    (first : readValue? fuel r = some (v, later))
    (entries : readEntries? fuel later = some (l, rest)) :
    readValue? (fuel + 1) ('\x7b' :: s) = some (.record ((name, v) :: l), rest) := by
  have shape : readValue? (fuel + 1) ('\x7b' :: s) = match skipBlanks s with
      | '\x7d' :: rest => some (.record [], rest)
      | _ => do
        let (name, rest) ← readName? s
        let (v, rest) ← readValue? fuel rest
        let (l, rest) ← readEntries? fuel rest
        return (Value.record ((name, v) :: l), rest) := rfl
  rw [shape]
  split
  · rename_i ends
    rw [readName?, ends] at named
    cases named
  · rw [named]
    change (do
      let (v, rest) ← readValue? fuel r
      let (l, rest) ← readEntries? fuel rest
      return (Value.record ((name, v) :: l), rest)) = _
    rw [first]
    change (do
      let (l, rest) ← readEntries? fuel later
      return (Value.record ((name, v) :: l), rest)) = _
    rw [entries]
    rfl

theorem readEntries?_cons {l : List (String × Value)} (named : readName? s = some (name, r))
    (first : readValue? fuel r = some (v, later))
    (entries : readEntries? fuel later = some (l, rest)) :
    readEntries? (fuel + 1) (',' :: ' ' :: s) = some ((name, v) :: l, rest) := by
  change (do
    let (name, rest) ← readName? (' ' :: s)
    let (v, rest) ← readValue? fuel rest
    let (l, rest) ← readEntries? fuel rest
    return ((name, v) :: l, rest)) = _
  rw [readName?_blank, named]
  change (do
    let (v, rest) ← readValue? fuel r
    let (l, rest) ← readEntries? fuel rest
    return ((name, v) :: l, rest)) = _
  rw [first]
  change (do
    let (l, rest) ← readEntries? fuel later
    return ((name, v) :: l, rest)) = _
  rw [entries]
  rfl

end Steps

theorem endsValue_later (texts : List String) {c : Char} (h : c = ',' ∨ c = ']' ∨ c = '\x7d')
    (rest : List Char) : EndsValue (laterChars texts ++ c :: rest) := by
  cases texts with
  | nil => exact endsValue_cons h rest
  | cons t texts => exact endsValue_cons (.inl rfl) _

/-- The name of an entry is read up to its colon. -/
theorem readName?_written (name : String) (rest : List Char) :
    readName? ((objectText name).toList ++ ':' :: rest) = some (name, rest) := by
  obtain ⟨l, chars, read⟩ := readText?_written name (':' :: rest)
  rw [chars]
  change (do
    let (name, rest) ← readText? l
    match skipBlanks rest with
    | ':' :: rest => return (name, rest)
    | _ => none) = _
  rw [read]
  rfl

mutual
/-- Plain data that is written is read again, up to what follows it. -/
theorem readValue?_objectForm : ∀ (v : Value) {s : String}, v.isData → v.objectForm = .ok s →
    ∀ (fuel : ℕ) (rest : List Char), (s.toList ++ rest).length < fuel → EndsValue rest →
      readValue? fuel (s.toList ++ rest) = some (v, rest)
  | _, _, _, _, 0, _, short, _ => absurd short (Nat.not_lt_zero _)
  | .nothing, s, _, form, fuel + 1, rest, _, _ => by
    obtain rfl := Except.ok.inj form
    rfl
  | .truth b, s, _, form, fuel + 1, rest, _, _ => by
    obtain rfl := Except.ok.inj form
    cases b <;> rfl
  | .text t, s, _, form, fuel + 1, rest, _, _ => by
    obtain rfl := Except.ok.inj form
    obtain ⟨l, chars, read⟩ := readText?_written t rest
    rw [chars]
    change (readText? l).map _ = _
    rw [read]
    rfl
  | .number q, s, data, form, fuel + 1, rest, _, ends => readValue?_objectNumber data form fuel ends
  | .list [], s, _, form, fuel + 1, rest, _, _ => by
    obtain rfl := Except.ok.inj form
    rfl
  | .list (v :: l), s, data, form, fuel + 1, rest, short, _ => by
    obtain ⟨first, later⟩ := Bool.and_eq_true_iff.1 data
    obtain ⟨texts, items, told⟩ := ok_of_bind form
    obtain ⟨t, ht, items⟩ := ok_of_bind items
    obtain ⟨ts, hts, eq⟩ := ok_of_bind items
    obtain rfl := Except.ok.inj eq
    obtain rfl := Except.ok.inj told
    have chars : ("[" ++ Value.joinTexts ", " (t :: ts) ++ "]").toList ++ rest =
        '[' :: (t.toList ++ (laterChars ts ++ ']' :: rest)) := by
      simp [joinTexts_chars]
    rw [chars] at short ⊢
    rw [List.length_cons, List.length_append] at short
    have read := readValue?_objectForm v first ht fuel _ (by rw [List.length_append]; omega)
      (endsValue_later ts (.inr (.inl rfl)) rest)
    exact readValue?_list read (readItems?_objectItems l later hts fuel rest (by omega))
  | .record [], s, _, form, fuel + 1, rest, _, _ => by
    obtain rfl := Except.ok.inj form
    rfl
  | .record ((name, v) :: l), s, data, form, fuel + 1, rest, short, _ => by
    obtain ⟨first, later⟩ := Bool.and_eq_true_iff.1 (Bool.and_eq_true_iff.1 data).2
    obtain ⟨texts, entries, told⟩ := ok_of_bind form
    obtain ⟨t, ht, entries⟩ := ok_of_bind entries
    obtain ⟨ts, hts, eq⟩ := ok_of_bind entries
    obtain rfl := Except.ok.inj eq
    obtain rfl := Except.ok.inj told
    have chars : ("\x7b" ++ Value.joinTexts ", " ((objectText name ++ ": " ++ t) :: ts) ++
        "\x7d").toList ++ rest = '\x7b' :: ((objectText name).toList ++
          ':' :: ' ' :: (t.toList ++ (laterChars ts ++ '\x7d' :: rest))) := by
      simp [joinTexts_chars]
    rw [chars] at short ⊢
    simp only [List.length_cons, List.length_append] at short
    have read := readValue?_objectForm v first ht fuel _
      (by simp only [List.length_cons, List.length_append]; omega)
      (endsValue_later ts (.inr (.inr rfl)) rest)
    rw [← readValue?_blank] at read
    exact readValue?_record (readName?_written name _) read
      (readEntries?_objectEntries l later hts fuel rest
        (by simp only [List.length_cons, List.length_append]; omega))
  | .formula _, _, data, _, _ + 1, _, _, _ | .cycle _, _, data, _, _ + 1, _, _, _ => by
    cases data
/-- The items that follow the first one are read up to the end of their list. -/
theorem readItems?_objectItems : ∀ (l : List Value) {texts : List String}, areData l →
    objectItems l = .ok texts → ∀ (fuel : ℕ) (rest : List Char),
      (laterChars texts ++ ']' :: rest).length < fuel →
        readItems? fuel (laterChars texts ++ ']' :: rest) = some (l, rest)
  | _, _, _, _, 0, _, short => absurd short (Nat.not_lt_zero _)
  | [], texts, _, form, fuel + 1, rest, _ => by
    obtain rfl := Except.ok.inj form
    rfl
  | v :: l, texts, data, form, fuel + 1, rest, short => by
    obtain ⟨first, later⟩ := Bool.and_eq_true_iff.1 data
    obtain ⟨t, ht, items⟩ := ok_of_bind form
    obtain ⟨ts, hts, eq⟩ := ok_of_bind items
    obtain rfl := Except.ok.inj eq
    rw [laterChars_cons, List.cons_append, List.cons_append, List.append_assoc] at short ⊢
    simp only [List.length_cons, List.length_append] at short
    exact readItems?_cons
      (readValue?_objectForm v first ht fuel _
        (by simp only [List.length_cons, List.length_append]; omega)
        (endsValue_later ts (.inr (.inl rfl)) rest))
      (readItems?_objectItems l later hts fuel rest
        (by simp only [List.length_cons, List.length_append]; omega))
/-- The entries that follow the first one are read up to the end of their record. -/
theorem readEntries?_objectEntries : ∀ (l : List (String × Value)) {texts : List String},
    fieldsAreData l → objectEntries l = .ok texts → ∀ (fuel : ℕ) (rest : List Char),
      (laterChars texts ++ '\x7d' :: rest).length < fuel →
        readEntries? fuel (laterChars texts ++ '\x7d' :: rest) = some (l, rest)
  | _, _, _, _, 0, _, short => absurd short (Nat.not_lt_zero _)
  | [], texts, _, form, fuel + 1, rest, _ => by
    obtain rfl := Except.ok.inj form
    rfl
  | (name, v) :: l, texts, data, form, fuel + 1, rest, short => by
    obtain ⟨first, later⟩ := Bool.and_eq_true_iff.1 data
    obtain ⟨t, ht, entries⟩ := ok_of_bind form
    obtain ⟨ts, hts, eq⟩ := ok_of_bind entries
    obtain rfl := Except.ok.inj eq
    have chars : laterChars ((objectText name ++ ": " ++ t) :: ts) ++ '\x7d' :: rest =
        ',' :: ' ' :: ((objectText name).toList ++
          ':' :: ' ' :: (t.toList ++ (laterChars ts ++ '\x7d' :: rest))) := by
      simp [laterChars_cons]
    rw [chars] at short ⊢
    simp only [List.length_cons, List.length_append] at short
    have read := readValue?_objectForm v first ht fuel _
      (by simp only [List.length_cons, List.length_append]; omega)
      (endsValue_later ts (.inr (.inr rfl)) rest)
    rw [← readValue?_blank] at read
    exact readEntries?_cons (readName?_written name _) read
      (readEntries?_objectEntries l later hts fuel rest
        (by simp only [List.length_cons, List.length_append]; omega))
end

/-- The line of plain data is read as the data that it was written for. -/
theorem readObject?_objectForm {v : Value} {line : String} (data : v.isData)
    (form : v.objectForm = .ok line) : readObject? line = some v := by
  have short : (line.toList ++ []).length < line.length + 1 := by
    rw [List.append_nil, String.length_toList]
    exact Nat.lt_succ_self _
  have read := readValue?_objectForm v data form (line.length + 1) [] short fun _ _ h => by cases h
  rw [List.append_nil] at read
  rw [readObject?, read]
  rfl

end Reckoner
