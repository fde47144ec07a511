-- The text of an expression in normal form, built of exact numbers, the circle constant and single
-- letters. It is a phrase of arithmetic, and the phrase denotes the expression.
import Mathlib
import Reckoner.Proofs.Algebra.Plain
import Reckoner.Proofs.Algebra.Printing

namespace Reckoner

theorem Number.isNegative_exact {q : ℚ} : (Number.exact q).isNegative = true ↔ q < 0 := by
  rw [isNegative, sign?, beq_iff_eq, Option.some.injEq, Int.sign_eq_neg_one_iff_neg, Rat.num_neg]

namespace Expr

/-! ## Expressions with a plain text -/

/-- The reciprocal of a fraction. In a normal form it is a number itself. -/
def isInverseFraction : Expr → Bool
  | .pow (.num n) e => e = .negOne && (Expr.num n).level = productLevel
  | _ => false

/-- A negative number in front gives up its sign, and nothing else changes. -/
def givesUpSign : List Expr → Bool
  | .num c :: rest =>
    !c.isNegative ||
      decide (unsigned (.num c :: rest) =
        rawProd (if c.neg = .exact 1 then rest else .num c.neg :: rest))
  | _ => true

/-- The text of the node has no plain meaning: a measured number, a constant that is written with a
letter, a name of several letters, a function without a name to read, or a sum or product that is
not in normal form. -/
def isObscure : Expr → Bool
  | .num n => !n.isExact
  | .const c => c ≠ .pi
  | .sym s => !(decide (s.toList.length = 1) && s.toList.all isAsciiLetter)
  | .sum l => l.length < 2
  | .prod l =>
    l.length < 2 || showsNumbers l || l.any isInverseFraction || !givesUpSign l
  | .pow _ _ => false
  | .app f _ => decide (f ∉ [Fn.sin, .cos, .tan, .exp, .log])

/-- The expression is built of exact numbers, single letters and the circle constant by sums,
products, powers and the functions that a text can name, all in normal form. -/
def isPlain (x : Expr) : Bool := !x.any isObscure

section Plain

variable {x b e : Expr} {l : List Expr}

theorem isPlain_num {n : Number} : (Expr.num n).isPlain = true ↔ ∃ q, n = .exact q := by
  cases n <;> simp [isPlain, any, isObscure, Number.isExact]

theorem isPlain_const {c : Constant} : (Expr.const c).isPlain = true ↔ c = .pi := by
  simp [isPlain, any, isObscure]

theorem isPlain_sym {s : String} : (Expr.sym s).isPlain = true ↔
    ∃ c, s = String.singleton c ∧ isAsciiLetter c = true := by
  simp only [isPlain, any, isObscure, Bool.not_not, Bool.and_eq_true, decide_eq_true_eq]
  constructor
  · rintro ⟨one, letters⟩
    obtain ⟨c, chars⟩ := List.length_eq_one_iff.1 one
    refine ⟨c, String.toList_inj.1 (by simp [chars]), ?_⟩
    simpa [chars] using letters
  · rintro ⟨c, rfl, letter⟩
    simp [letter]

theorem isPlain_sum : (Expr.sum l).isPlain = true ↔
    2 ≤ l.length ∧ ∀ x ∈ l, x.isPlain = true := by
  simp [isPlain, any, anyList_eq, isObscure, Nat.lt_iff_add_one_le]

/-- The factors of a product in normal form, the number in front. -/
structure IsPlainProduct (l : List Expr) : Prop where
  several : 2 ≤ l.length
  gathered : showsNumbers l = false
  reduced : ∀ x ∈ l, x.isInverseFraction = false
  signed : givesUpSign l = true
  plain : ∀ x ∈ l, x.isPlain = true

theorem isPlain_prod : (Expr.prod l).isPlain = true ↔ IsPlainProduct l := by
  constructor
  · intro h
    simp only [isPlain, any, anyList_eq, isObscure, Bool.not_eq_true', Bool.or_eq_false_iff,
      decide_eq_false_iff_not, not_lt, List.any_eq_false, Bool.not_eq_true, Bool.not_eq_false'] at h
    obtain ⟨⟨⟨⟨several, gathered⟩, reduced⟩, signed⟩, plain⟩ := h
    exact ⟨several, gathered, reduced, signed, fun x hx => by simp [isPlain, plain x hx]⟩
  · rintro ⟨several, gathered, reduced, signed, plain⟩
    simp only [isPlain, any, anyList_eq, isObscure, Bool.not_eq_true', Bool.or_eq_false_iff,
      decide_eq_false_iff_not, not_lt, List.any_eq_false, Bool.not_eq_true, Bool.not_eq_false']
    refine ⟨⟨⟨⟨several, gathered⟩, reduced⟩, signed⟩, fun x hx => ?_⟩
    simpa [isPlain] using plain x hx

theorem isPlain_pow : (Expr.pow b e).isPlain = true ↔ b.isPlain = true ∧ e.isPlain = true := by
  simp [isPlain, any, isObscure]

theorem isPlain_app {f : Fn} : (Expr.app f x).isPlain = true ↔
    f ∈ [Fn.sin, .cos, .tan, .exp, .log] ∧ x.isPlain = true := by
  simp only [isPlain, any, isObscure, Bool.not_or, Bool.and_eq_true, Bool.not_eq_true',
    decide_eq_false_iff_not, not_not]

theorem isPlain_ofInt (n : ℤ) : (ofInt n).isPlain = true := isPlain_num.2 ⟨_, rfl⟩

theorem isPlain_ofNat (n : ℕ) : (ofNat n).isPlain = true := isPlain_num.2 ⟨_, rfl⟩

end Plain

namespace IsPlainProduct

variable {x : Expr} {l : List Expr}

/-- Only the first factor is a number, and it is not one. -/
theorem gathered_cons : showsNumbers (x :: l) = false → x ≠ .one ∧ ∀ y ∈ l, y.isNum = false := by
  intro h
  rw [showsNumbers, Bool.or_eq_false_iff, decide_eq_false_iff_not] at h
  refine ⟨h.1, fun y hy => ?_⟩
  have := List.any_eq_false.1 h.2 y hy
  cases y <;> first | rfl | exact absurd rfl this

theorem ne_one (h : IsPlainProduct l) : ∀ x ∈ l, x ≠ .one := by
  cases l with
  | nil => simp
  | cons y l =>
    obtain ⟨first, later⟩ := gathered_cons h.gathered
    rintro x hx rfl
    rcases List.mem_cons.1 hx with rfl | hx
    · exact first rfl
    · cases later _ hx

/-- The sign of the number in front may be left out. -/
theorem negated {q : ℚ} (h : IsPlainProduct (.num (.exact q) :: l)) (negative : q < 0)
    (ne : q ≠ -1) : IsPlainProduct (.num (.exact (-q)) :: l) where
  several := h.several
  gathered := by
    have old := h.gathered
    rw [showsNumbers, Bool.or_eq_false_iff] at old ⊢
    refine ⟨decide_eq_false fun one => ne ?_, old.2⟩
    have : -q = 1 := by simpa [Expr.one] using one
    linarith
  reduced := List.forall_mem_cons.2 ⟨rfl, (List.forall_mem_cons.1 h.reduced).2⟩
  signed := by
    have positive : ¬ -q < 0 := by linarith
    rw [givesUpSign, Bool.eq_false_iff.2 (mt Number.isNegative_exact.1 positive)]
    rfl
  plain := List.forall_mem_cons.2 ⟨isPlain_num.2 ⟨_, rfl⟩, (List.forall_mem_cons.1 h.plain).2⟩

/-- What is left of a product without its first factor. -/
theorem tail (h : IsPlainProduct (x :: l)) (more : 2 ≤ l.length) : IsPlainProduct l where
  several := more
  gathered := by
    obtain ⟨-, noNumber⟩ := gathered_cons h.gathered
    have old := h.gathered
    cases l with
    | nil => rfl
    | cons y l =>
      rw [showsNumbers, Bool.or_eq_false_iff, List.any_cons, Bool.or_eq_false_iff] at old
      rw [showsNumbers, Bool.or_eq_false_iff]
      refine ⟨decide_eq_false fun one => ?_, old.2.2⟩
      cases one ▸ noNumber y (List.mem_cons_self ..)
  reduced := (List.forall_mem_cons.1 h.reduced).2
  signed := by
    obtain ⟨-, noNumber⟩ := gathered_cons h.gathered
    cases l with
    | nil => rfl
    | cons y l =>
      have := noNumber y (List.mem_cons_self ..)
      cases y <;> first | rfl | cases this
  plain := (List.forall_mem_cons.1 h.plain).2

theorem isPlain_rawProd (h : IsPlainProduct (x :: l)) : (rawProd l).isPlain = true := by
  match l with
  | [] => exact isPlain_num.2 ⟨_, rfl⟩
  | [y] => exact (List.forall_mem_cons.1 (List.forall_mem_cons.1 h.plain).2).1
  | y :: z :: l => exact isPlain_prod.2 (h.tail (by simp))

end IsPlainProduct

theorem size_rawProd_le {l : List Expr} (some : l ≠ []) : (rawProd l).size ≤ 1 + sizeList l := by
  match l with
  | [] => exact absurd rfl some
  | [y] => rw [rawProd, sizeList, sizeList]; omega
  | y :: z :: l => rw [rawProd, size] <;> simp

theorem symbolList_rawProd (l : List Expr) : (rawProd l).symbolList = symbolsOfList l := by
  match l with
  | [] => rfl
  | [y] => rw [rawProd, symbolsOfList, symbolsOfList, List.append_nil]
  | y :: z :: l => rw [rawProd, symbolList] <;> simp

/-! ## Below the bar -/

/-- The first is the reciprocal of the second, which is a power or the base of the first. -/
structure Inverts (x z : Expr) : Prop where
  plain : z.isPlain = true
  size : z.size ≤ x.size
  alike : x.Alike (.pow z .negOne)
  power : z.IsPlainPower ∨ x = .pow z .negOne

/-- A power with the opposite exponent. -/
theorem inverts_power {b e f : Expr} (plain : (Expr.pow b e).isPlain = true) (plain' : f.isPlain = true)
    (size : f.size ≤ e.size) (number : ∀ q, f = .num (.exact q) → 0 ≤ q)
    (value : ∀ {K : Type} [Field K] (I : Interpretation K), e.value I = -f.value I)
    (symbols : f.symbolList = e.symbolList) : (Expr.pow b e).Inverts (.pow b f) where
  plain := isPlain_pow.2 ⟨(isPlain_pow.1 plain).1, plain'⟩
  size := by rw [Expr.size, Expr.size]; omega
  alike := by
    refine ⟨fun I => ?_, fun s => ?_⟩
    · rw [value_inverse, value_pow, value_pow, value, I.power_neg]
    · simp [symbolList, symbols, negOne]
  power := by
    refine .inl ⟨?_, ?_⟩ <;>
    · rintro rfl
      have := number _ rfl
      norm_num at this

/-- A power whose exponent is a product with a negative number. -/
theorem inverts_power_prod {b : Expr} {n : Number} {rest : List Expr}
    (plain : (Expr.pow b (.prod (.num n :: rest))).isPlain = true) (negative : n.isNegative = true) :
    (Expr.pow b (.prod (.num n :: rest))).Inverts
      (if n = .exact (-1) then .pow b (rawProd rest) else .pow b (.prod (.num n.neg :: rest))) := by
  have product := isPlain_prod.1 (isPlain_pow.1 plain).2
  obtain ⟨q, rfl⟩ := isPlain_num.1 (product.plain _ (List.mem_cons_self ..))
  obtain ⟨-, noNumber⟩ := IsPlainProduct.gathered_cons product.gathered
  by_cases one : q = -1
  · subst one
    have some : rest ≠ [] := by
      rintro rfl
      exact absurd product.several (by simp)
    rw [if_pos rfl]
    refine inverts_power plain product.isPlain_rawProd ?_ (fun r hr => ?_) (fun I => ?_) ?_
    · have := size_rawProd_le some
      rw [size, sizeList, size]
      omega
    · rcases rest with - | ⟨y, - | ⟨z, l⟩⟩
      · exact absurd rfl some
      · obtain rfl : y = .num (.exact r) := hr
        cases noNumber _ (List.mem_singleton_self _)
      · cases hr
    · simp [value_rawProd]
    · rw [symbolList_rawProd]
      simp [symbolList, symbolsOfList]
  · rw [if_neg (by simpa using one)]
    refine inverts_power plain (isPlain_prod.2 (product.negated (Number.isNegative_exact.1 negative) one))
      le_rfl (fun r hr => by cases hr) (fun I => ?_) rfl
    simp [Number.neg]

theorem inverts_reciprocalBase {x : Expr} (plain : x.isPlain = true) (h : x.isReciprocal = true) :
    x.Inverts x.reciprocalBase := by
  cases x with
  | pow b e =>
    obtain ⟨plainBase, plainExponent⟩ := isPlain_pow.1 plain
    rw [isReciprocal] at h
    unfold reciprocalBase
    dsimp only
    by_cases unit : e = .negOne
    · rw [if_pos unit, unit]
      exact ⟨plainBase, by rw [Expr.size]; omega, .refl _, .inr rfl⟩
    rw [if_neg unit]
    cases e with
    | num n =>
      obtain ⟨q, rfl⟩ := isPlain_num.1 plainExponent
      have negative := Number.isNegative_exact.1 h
      have ne : Number.exact q ≠ .exact (-1) := fun same => unit (congrArg Expr.num same)
      simp only [if_neg ne, Number.neg]
      refine inverts_power plain (isPlain_num.2 ⟨_, rfl⟩) le_rfl ?_ (fun I => by simp) rfl
      rintro r hr
      obtain rfl : -q = r := by simpa using hr
      linarith
    | prod l =>
      cases l with
      | nil => cases h
      | cons x rest =>
        cases x with
        | num n => exact inverts_power_prod plain h
        | _ => cases h
    | _ => simp [coeffMul, Number.isNegative, Number.sign?] at h
  | _ => simp [isReciprocal] at h

/-! ## Quotients -/

/-- What stands above the bar. -/
def aboveBar (factors : List Expr) : List Expr :=
  if ((factors.map splitFactor).flatMap Prod.fst).isEmpty then [.one]
  else (factors.map splitFactor).flatMap Prod.fst

/-- What stands below the bar. -/
def belowBar (factors : List Expr) : List Expr := (factors.map splitFactor).flatMap Prod.snd

/-- The products and powers that have brackets of their own below the bar. -/
def wrapped (factors : List Expr) : List Expr :=
  factors.filterMap fun f => match f with
    | .pow (.prod l) e => if e = .negOne then some (Expr.prod l) else none
    | .pow (.pow b e') e => if e = .negOne then some (Expr.pow b e') else none
    | _ => none

/-- The text of what stands below the bar. -/
def underText (factors : List Expr) (level : Nat) (part : Expr → String) (y : Expr) : String :=
  if (wrapped factors).contains y then "(" ++ bracket y level (part y) ++ ")"
  else bracket y level (part y)

theorem level_prod (l : List Expr) : (Expr.prod l).level =
    if (Expr.prod l).coeffMul.1.isNegative then sumLevel else productLevel := by
  cases l with
  | nil => rfl
  | cons x rest => cases x <;> rfl

theorem level_num {n : Number} : (powerLevel < (Expr.num n).level ∨ (Expr.num n).level = sumLevel) ∨
    (Expr.num n).level = productLevel := by
  unfold level
  split <;> (try split_ifs) <;> simp_all [powerLevel, atomLevel]

/-- A product or power does not hold tighter than a power. -/
theorem level_le_powerLevel {x : Expr} (h : x.isProd = true ∨ x.isPow = true) : x.level ≤ powerLevel := by
  cases x with
  | prod l =>
    rw [level_prod]
    split_ifs <;> decide
  | pow b e => exact le_rfl
  | _ => simp [isProd, isPow] at h

section Bars

variable {x y : Expr} {l factors : List Expr}

/-- A factor stands above the bar, or the power with the opposite exponent stands below it. An exact
number is a quotient itself. -/
theorem splitFactor_cases (plain : x.isPlain = true) :
    (∃ q, x = .num (.exact q) ∧ splitFactor x =
      (if q.num = 1 then [] else [.ofInt q.num], if q.den = 1 then [] else [.ofNat q.den])) ∨
    (x.isReciprocal = true ∧ splitFactor x = ([], [x.reciprocalBase])) ∨ splitFactor x = ([x], []) := by
  cases x with
  | num n =>
    obtain ⟨q, rfl⟩ := isPlain_num.1 plain
    exact .inl ⟨q, rfl, rfl⟩
  | _ =>
    refine .inr ?_
    unfold splitFactor
    dsimp only
    split_ifs with h
    · exact .inl ⟨h, rfl⟩
    · exact .inr rfl

theorem mem_splitFactor_fst (plain : x.isPlain = true) (h : y ∈ (splitFactor x).1) :
    y = x ∨ ∃ n, y = .ofInt n := by
  rcases splitFactor_cases plain with ⟨q, rfl, split⟩ | ⟨-, split⟩ | split <;> rw [split] at h
  · dsimp only at h
    split_ifs at h
    · cases h
    · exact .inr ⟨_, List.mem_singleton.1 h⟩
  · cases h
  · exact .inl (List.mem_singleton.1 h)

theorem mem_splitFactor_snd (plain : x.isPlain = true) (h : y ∈ (splitFactor x).2) :
    (x.isReciprocal = true ∧ y = x.reciprocalBase) ∨ ∃ n, y = .ofNat n := by
  rcases splitFactor_cases plain with ⟨q, rfl, split⟩ | ⟨reciprocal, split⟩ | split <;> rw [split] at h
  · dsimp only at h
    split_ifs at h
    · cases h
    · exact .inr ⟨_, List.mem_singleton.1 h⟩
  · exact .inl ⟨reciprocal, List.mem_singleton.1 h⟩
  · cases h

/-- What a factor is split into denotes the factor. -/
theorem alike_splitFactor (plain : x.isPlain = true) :
    (quotientOf (splitFactor x).1 (splitFactor x).2).Alike x := by
  rcases splitFactor_cases plain with ⟨q, rfl, split⟩ | ⟨reciprocal, split⟩ | split <;> rw [split]
  · refine ⟨fun {K} _ I => ?_, fun s => ?_⟩
    · have num : ((if q.num = 1 then [] else [Expr.ofInt q.num]).map (value I)).prod = (q.num : K) := by
        split_ifs with one <;> simp [one, ofInt]
      have den : ((if q.den = 1 then [] else [Expr.ofNat q.den]).map (value I)).prod = (q.den : K) := by
        split_ifs with one <;> simp [one, ofNat]
      rw [value_quotientOf, num, den, value_num, Rat.cast_def, div_eq_mul_inv]
    · rw [mem_symbols_quotientOf]
      dsimp only
      split_ifs <;> simp [ofInt, ofNat, symbolList]
  · have same := (inverts_reciprocalBase plain reciprocal).alike
    exact (alike_singleton _).symm.trans same.symm
  · exact (alike_singleton x).symm

/-- Each factor but one has a place above or below the bar. -/
theorem splitFactor_some (plain : x.isPlain = true) (ne : x ≠ .one) :
    1 ≤ (splitFactor x).1.length + (splitFactor x).2.length := by
  rcases splitFactor_cases plain with ⟨q, rfl, split⟩ | ⟨-, split⟩ | split <;> rw [split]
  · by_cases num : q.num = 1
    · by_cases den : q.den = 1
      · refine absurd ?_ ne
        rw [one, ← Rat.num_div_den q, num, den]
        norm_num
      · simp [num, den]
    · simp [num]
  · simp
  · simp

end Bars

section Bar

variable {factors : List Expr}

/-- The parts of all factors denote the product. -/
theorem alike_split (plain : ∀ x ∈ factors, x.isPlain = true) :
    (quotientOf ((factors.map splitFactor).flatMap Prod.fst) (belowBar factors)).Alike
      (.prod factors) := by
  induction factors with
  | nil => exact .refl _
  | cons x l ih =>
    obtain ⟨first, later⟩ := List.forall_mem_cons.1 plain
    have head := alike_splitFactor first
    have tail := ih later
    unfold belowBar at tail ⊢
    refine ⟨fun I => ?_, fun s => ?_⟩
    · have headValue := head.value I
      have tailValue := tail.value I
      rw [value_quotientOf] at headValue tailValue ⊢
      rw [value_prod] at tailValue ⊢
      simp only [List.map_cons, List.flatMap_cons, List.map_append, List.prod_append, List.prod_cons]
      rw [mul_inv, mul_mul_mul_comm, headValue, tailValue]
    · have headSymbols := head.symbols s
      have tailSymbols := tail.symbols s
      simp only [mem_symbols_quotientOf, symbolList, List.mem_append, or_and_right, exists_or] at headSymbols tailSymbols
      simp only [mem_symbols_quotientOf, symbolList, symbolsOfList, List.map_cons, List.flatMap_cons,
        List.mem_append, or_and_right, exists_or, ← headSymbols, ← tailSymbols]
      exact or_or_or_comm

/-- What stands above and below the bar denotes the product. -/
theorem alike_bars (plain : ∀ x ∈ factors, x.isPlain = true) :
    (quotientOf (aboveBar factors) (belowBar factors)).Alike (.prod factors) := by
  have split := alike_split plain
  unfold aboveBar
  split_ifs with none
  · refine .trans ⟨fun I => ?_, fun s => ?_⟩ split
    · rw [value_quotientOf, value_quotientOf, List.isEmpty_iff.1 none]
      simp [value_one]
    · rw [mem_symbols_quotientOf, mem_symbols_quotientOf, List.isEmpty_iff.1 none]
      simp [one, symbolList]
  · exact split

/-- No less parts stand above and below the bar than there are factors. -/
theorem length_bars (plain : ∀ x ∈ factors, x.isPlain = true) (ne : ∀ x ∈ factors, x ≠ .one) :
    factors.length ≤ (aboveBar factors).length + (belowBar factors).length := by
  have parts : factors.length ≤
      ((factors.map splitFactor).flatMap Prod.fst).length + (belowBar factors).length := by
    unfold belowBar
    induction factors with
    | nil => simp
    | cons x l ih =>
      obtain ⟨first, later⟩ := List.forall_mem_cons.1 plain
      obtain ⟨first', later'⟩ := List.forall_mem_cons.1 ne
      have head := splitFactor_some first first'
      have tail := ih later later'
      simp only [List.map_cons, List.flatMap_cons, List.length_append, List.length_cons]
      omega
  unfold aboveBar
  split_ifs with none
  · rw [List.isEmpty_iff.1 none] at parts
    exact parts.trans (by simp)
  · exact parts

theorem aboveBar_ne_nil (factors : List Expr) : aboveBar factors ≠ [] := by
  unfold aboveBar
  split_ifs with none
  · exact List.cons_ne_nil _ _
  · simpa using none

theorem mem_aboveBar {y : Expr} (plain : ∀ x ∈ factors, x.isPlain = true) (h : y ∈ aboveBar factors) :
    y ∈ factors ∨ ∃ n, y = .ofInt n := by
  unfold aboveBar at h
  split_ifs at h
  · exact .inr ⟨1, List.mem_singleton.1 h⟩
  · obtain ⟨_, hp, hy⟩ := List.mem_flatMap.1 h
    obtain ⟨x, hx, rfl⟩ := List.mem_map.1 hp
    rcases mem_splitFactor_fst (plain x hx) hy with rfl | number
    · exact .inl hx
    · exact .inr number

theorem mem_belowBar {y : Expr} (plain : ∀ x ∈ factors, x.isPlain = true) (h : y ∈ belowBar factors) :
    (∃ x ∈ factors, x.isReciprocal = true ∧ y = x.reciprocalBase) ∨ ∃ n, y = .ofNat n := by
  obtain ⟨_, hp, hy⟩ := List.mem_flatMap.1 h
  obtain ⟨x, hx, rfl⟩ := List.mem_map.1 hp
  exact (mem_splitFactor_snd (plain x hx) hy).imp_left fun below => ⟨x, hx, below⟩

/-- Below the bar the base of a reciprocal has brackets of its own if it is a product or a power. -/
theorem mem_wrapped {y : Expr} :
    y ∈ wrapped factors ↔ (y.isProd = true ∨ y.isPow = true) ∧ Expr.pow y .negOne ∈ factors := by
  unfold wrapped
  rw [List.mem_filterMap]
  constructor
  · rintro ⟨f, hf, wraps⟩
    split at wraps
    · split_ifs at wraps with unit
      obtain rfl := Option.some.inj wraps
      exact ⟨.inl rfl, unit ▸ hf⟩
    · split_ifs at wraps with unit
      obtain rfl := Option.some.inj wraps
      exact ⟨.inr rfl, unit ▸ hf⟩
    · cases wraps
  · rintro ⟨kind, hf⟩
    refine ⟨_, hf, ?_⟩
    cases y <;> first | rfl | simp [isProd, isPow] at kind

/-- The text of what stands below the bar is a power. -/
theorem shown_underText {level : Nat} {part : Expr → String} {f y : Expr} (hf : f ∈ factors)
    (inverts : f.Inverts y) (reduced : f.isInverseFraction = false) (low : sumLevel ≤ level)
    (high : level ≤ productLevel) (printed : y.Printed (part y)) :
    Shown .power 3 (underText factors level part y) y := by
  have below : ∀ {n : Nat}, powerLevel ≤ n → ¬ n ≤ level := by
    intro n hn hl
    have : productLevel < powerLevel := by decide
    omega
  unfold underText
  split_ifs with wraps
  · obtain ⟨kind, -⟩ := mem_wrapped.1 (List.contains_iff_mem.1 wraps)
    have loose := printed.loose (level_le_powerLevel kind)
    have inside : Shown .sum 2 (bracket y level (part y)) y := by
      unfold bracket
      split_ifs
      · exact loose.brackets.alone.factor.term
      · exact loose.mono (by omega)
    exact (inside.brackets.mono (by omega)).alone
  · rcases inverts.power with plain | rfl
    · rw [bracket, if_neg (below plain.level.ge)]
      exact (printed.power plain).mono (by omega)
    · have bare : ¬ (y.isProd = true ∨ y.isPow = true) := fun kind =>
        wraps (List.contains_iff_mem.2 (mem_wrapped.2 ⟨kind, hf⟩))
      have tight : powerLevel < y.level ∨ y.level = sumLevel := by
        cases y with
        | num n =>
          have whole : (Expr.num n).level ≠ productLevel := by simpa [isInverseFraction] using reduced
          exact level_num.resolve_right whole
        | sum l => exact .inr rfl
        | prod l => exact absurd (.inl rfl) bare
        | pow b e => exact absurd (.inr rfl) bare
        | const c | sym s | app f a => exact .inl (by simp [Expr.level, powerLevel, atomLevel, functionLevel])
      unfold bracket
      rcases tight with tight | sum
      · rw [if_neg (below tight.le)]
        exact (printed.atom tight).alone
      · rw [if_pos (sum.trans_le low)]
        exact ((printed.loose (sum.trans_le (by decide))).brackets.mono (by omega)).alone

/-- A whole number below the bar has no brackets. -/
theorem shown_underText_number {level : Nat} {part : Expr → String} (n : ℕ)
    (high : level ≤ productLevel) (printed : (Expr.ofNat n).Printed (part (.ofNat n))) :
    Shown .power 3 (underText factors level part (.ofNat n)) (.ofNat n) := by
  have bare : ¬ (wrapped factors).contains (.ofNat n) = true := by
    intro wraps
    obtain ⟨kind, -⟩ := mem_wrapped.1 (List.contains_iff_mem.1 wraps)
    simp [ofNat, isProd, isPow] at kind
  have tight : (Expr.ofNat n).level = atomLevel := by simp [ofNat, Expr.level]
  have loose : productLevel < atomLevel := by decide
  rw [underText, if_neg bare, bracket, if_neg (by omega)]
  exact (printed.atom (by rw [tight]; decide)).alone

end Bar

theorem textAux_prod {l : List Expr} {fuel : Nat} {inner : Bool} (h : showsNumbers l = false) :
    textAux (fuel + 1) inner (.prod l) =
      (if (Expr.prod l).coeffMul.1.isNegative then "-" else "") ++
        quotientText
          ((aboveBar (readFactors (unsigned l))).map fun y =>
            bracket y (Expr.prod l).level (textAux fuel true y))
          ((belowBar (readFactors (unsigned l))).map
            (underText (readFactors (unsigned l)) (Expr.prod l).level (textAux fuel true))) := by
  rw [textAux]
  simp only [h]
  unfold unsigned
  cases sign : (Expr.prod l).coeffMul.1.isNegative <;>
  · simp only [sign, Bool.false_eq_true, if_true, if_false]
    rfl

/-! ## Behind the sign -/

/-- The factors that are written behind the sign of a product. -/
structure Behind (negative : Bool) (l factors : List Expr) : Prop where
  alike : (Expr.prod l).Alike (if negative then .prod [.negOne, .prod factors] else .prod factors)
  plain : ∀ x ∈ factors, x.isPlain = true
  reduced : ∀ x ∈ factors, x.isInverseFraction = false
  ne_one : ∀ x ∈ factors, x ≠ .one
  smaller : ∀ x ∈ factors, x.size < (Expr.prod l).size
  some : factors ≠ []
  several : negative = false → 2 ≤ factors.length

theorem Behind.perm {negative : Bool} {l m factors : List Expr} (h : Behind negative l m)
    (same : factors.Perm m) : Behind negative l factors where
  alike := by
    refine h.alike.trans ?_
    have product := (alike_prod_of_perm same).symm
    cases negative
    · exact product
    · refine ⟨fun I => ?_, fun s => ?_⟩
      · have := product.value I
        simp_all
      · have := product.symbols s
        simp_all [symbolList, symbolsOfList]
  plain := fun x hx => h.plain x (same.mem_iff.1 hx)
  reduced := fun x hx => h.reduced x (same.mem_iff.1 hx)
  ne_one := fun x hx => h.ne_one x (same.mem_iff.1 hx)
  smaller := fun x hx => h.smaller x (same.mem_iff.1 hx)
  some := fun none => h.some (List.Perm.nil_eq (none ▸ same)).symm
  several := fun positive => same.length_eq ▸ h.several positive

theorem size_lt_size_prod {x : Expr} {l : List Expr} (h : x ∈ l) : x.size < (Expr.prod l).size := by
  have := size_add_length_le h
  have := List.length_pos_of_mem h
  rw [size]
  omega

/-- The factors behind a negative number in front, without its sign. -/
theorem IsPlainProduct.behind_sign {q : ℚ} {rest : List Expr}
    (h : IsPlainProduct (.num (.exact q) :: rest)) :
    Behind true (.num (.exact q) :: rest) (if q = -1 then rest else .num (.exact (-q)) :: rest) := by
  have several := h.several
  rw [List.length_cons] at several
  have smaller : ∀ x ∈ rest, x.size < (Expr.prod (.num (.exact q) :: rest)).size := fun x hx =>
    size_lt_size_prod (List.mem_cons_of_mem _ hx)
  obtain ⟨-, plain⟩ := List.forall_mem_cons.1 h.plain
  obtain ⟨-, reduced⟩ := List.forall_mem_cons.1 h.reduced
  obtain ⟨-, ne_one⟩ := List.forall_mem_cons.1 h.ne_one
  by_cases one : q = -1
  · rw [if_pos one, one]
    refine ⟨⟨fun I => ?_, fun s => ?_⟩, plain, reduced, ne_one, one ▸ smaller,
      List.length_pos_iff.1 (by omega), fun positive => by cases positive⟩
    · simp [value_negOne]
    · simp [symbolList, symbolsOfList, negOne]
  · rw [if_neg one]
    refine ⟨⟨fun I => ?_, fun s => ?_⟩, List.forall_mem_cons.2 ⟨isPlain_num.2 ⟨_, rfl⟩, plain⟩,
      List.forall_mem_cons.2 ⟨rfl, reduced⟩, List.forall_mem_cons.2 ⟨fun unit => one ?_, ne_one⟩,
      List.forall_mem_cons.2 ⟨?_, smaller⟩, List.cons_ne_nil _ _, fun positive => by cases positive⟩
    · simp [value_negOne]
    · simp [symbolList, symbolsOfList, negOne]
    · have : -q = 1 := by simpa [Expr.one] using unit
      linarith
    · have first := size_lt_size_prod (List.mem_cons_self (a := Expr.num (.exact q)) (l := rest))
      rwa [size] at first ⊢

/-- A product that is the only factor is taken apart. -/
theorem Behind.opened {l m : List Expr} (h : Behind true l [.prod m]) : Behind true l m := by
  have member : Expr.prod m ∈ [Expr.prod m] := List.mem_singleton_self _
  have product := isPlain_prod.1 (h.plain _ member)
  have several := product.several
  refine ⟨h.alike.trans ⟨fun I => ?_, fun s => ?_⟩, product.plain, product.reduced, product.ne_one,
    fun x hx => (size_lt_size_prod hx).trans (h.smaller _ member), List.length_pos_iff.1 (by omega),
    fun positive => by cases positive⟩
  · simp
  · simp [symbolList, symbolsOfList]

theorem Behind.readFactors {l m : List Expr} (h : Behind true l m) :
    Behind true l (readFactors (rawProd m)) := by
  match m, h with
  | [], h => exact absurd rfl h.some
  | [x], h =>
    rw [rawProd]
    refine Behind.perm ?_ (readFactors_perm x)
    cases x with
    | prod k => exact h.opened
    | _ => exact h
  | x :: y :: m, h => exact h.perm (readFactors_perm (.prod (x :: y :: m)))

/-- A product in normal form is its sign and the factors that are written behind it. -/
theorem IsPlainProduct.behind {l : List Expr} (h : IsPlainProduct l) :
    Behind (Expr.prod l).coeffMul.1.isNegative l (readFactors (unsigned l)) := by
  cases sign : (Expr.prod l).coeffMul.1.isNegative with
  | false =>
    have same : unsigned l = .prod l := by
      unfold unsigned
      simp only [sign, Bool.false_eq_true, if_false]
    have several := h.several
    rw [same]
    exact Behind.perm ⟨.refl _, h.plain, h.reduced, h.ne_one, fun x => size_lt_size_prod,
      List.length_pos_iff.1 (by omega), fun _ => several⟩ (readFactors_perm (.prod l))
  | true =>
    match l, h, sign with
    | .num n :: rest, h, sign =>
      obtain ⟨q, rfl⟩ := isPlain_num.1 (h.plain _ (List.mem_cons_self ..))
      have negative : q < 0 := Number.isNegative_exact.1 sign
      have taken : unsigned (.num (.exact q) :: rest) =
          rawProd (if q = -1 then rest else .num (.exact (-q)) :: rest) := by
        have signed := h.signed
        rw [givesUpSign, Number.isNegative_exact.2 negative, Bool.not_true, Bool.false_or,
          decide_eq_true_eq] at signed
        simpa [Number.neg, neg_eq_iff_eq_neg] using signed
      rw [taken]
      exact h.behind_sign.readFactors

/-! ## The text of a node -/

theorem shown_pi : Shown .atom 3 "pi" (.const .pi) := by
  refine ⟨.pi, ⟨rfl, fun I => ?_, fun s => ?_⟩, by simp [Phrase.Shallow, Phrase.depth]⟩
  · rw [Phrase.value, value_const]
  · simp [Phrase.letters, symbolList]

theorem shown_letter {c : Char} (h : isAsciiLetter c = true) :
    Shown .atom 3 (String.singleton c) (.sym (String.singleton c)) := by
  have letter : String.singleton c = String.ofList [c] := by simp
  refine ⟨.letter c h, ⟨by simp [Phrase.chars], fun I => ?_, fun s => ?_⟩,
    by simp [Phrase.Shallow, Phrase.depth]⟩
  · rw [Phrase.value, value_sym, letter]
  · rw [Phrase.letters, symbolList, letter]

section Node

variable {fuel : Nat} {inner : Bool}

/-- The text of a product in normal form, from those of smaller expressions. -/
theorem IsPlainProduct.printed {l : List Expr} (h : IsPlainProduct l)
    (ih : ∀ y : Expr, y.size < (Expr.prod l).size → y.isPlain = true → y.Printed (textAux fuel true y)) :
    (Expr.prod l).Printed (textAux (fuel + 1) inner (.prod l)) := by
  have behind := h.behind
  have level := level_prod l
  rw [textAux_prod h.gathered]
  generalize readFactors (unsigned l) = factors at behind
  generalize (Expr.prod l).coeffMul.1.isNegative = negative at behind level
  have low : sumLevel ≤ (Expr.prod l).level := sumLevel_le_level _
  have high : (Expr.prod l).level ≤ productLevel := by
    rw [level]
    split_ifs <;> decide
  obtain ⟨x, hx⟩ := List.exists_mem_of_ne_nil _ behind.some
  have one_lt : 1 < (Expr.prod l).size := lt_of_le_of_lt x.size_pos (behind.smaller x hx)
  have above : ∀ y ∈ aboveBar factors,
      Shown .product 3 (bracket y (Expr.prod l).level (textAux fuel true y)) y := by
    intro y hy
    refine Printed.within_product ?_ low (high.trans (by decide))
    rcases mem_aboveBar behind.plain hy with factor | ⟨n, rfl⟩
    · exact ih y (behind.smaller y factor) (behind.plain y factor)
    · exact ih _ one_lt (isPlain_ofInt n)
  have below : ∀ y ∈ belowBar factors,
      Shown .power 3 (underText factors (Expr.prod l).level (textAux fuel true) y) y := by
    intro y hy
    rcases mem_belowBar behind.plain hy with ⟨x, hx, reciprocal, rfl⟩ | ⟨n, rfl⟩
    · have inverts := inverts_reciprocalBase (behind.plain x hx) reciprocal
      exact shown_underText hx inverts (behind.reduced x hx) low high
        (ih _ (inverts.size.trans_lt (behind.smaller x hx)) inverts.plain)
    · exact shown_underText_number n high (ih _ one_lt (isPlain_ofNat n))
  have quotient := (shown_quotientText above below (aboveBar_ne_nil _)).alike (alike_bars behind.plain)
  cases negative with
  | false =>
    have parts := length_bars behind.plain behind.ne_one
    have several := behind.several rfl
    rw [if_neg (by omega)] at quotient
    rw [if_neg (by decide), String.empty_append]
    exact .of_product (quotient.alike behind.alike.symm) (high.trans (by decide)) fun plain => plain.elim
  | true =>
    rw [if_pos rfl]
    exact .of_negative ((quotient.mono (by split_ifs <;> omega)).negated behind.alike) level

/-- The text of a sum, from those of its terms. -/
theorem printed_sum {l : List Expr} (several : 2 ≤ l.length)
    (ih : ∀ y ∈ l, y.Printed (textAux fuel true y)) :
    (Expr.sum l).Printed (textAux (fuel + 1) inner (.sum l)) := by
  have perm : (Builder.full.orderedTerms (.sum l)).Perm l := Builder.full.orderTerms_perm _ l
  have text : textAux (fuel + 1) inner (.sum l) = termsText
      ((Builder.full.orderedTerms (.sum l)).map fun t => signedTerm t (textAux fuel true t)) := by
    rw [textAux]
    rfl
  have length := perm.length_eq
  rw [text]
  match Builder.full.orderedTerms (.sum l), perm, length with
  | [], _, length | [_], _, length => simp at length; omega
  | x :: y :: rest, perm, _ =>
    have summands : ∀ z ∈ x :: y :: rest, ShownSummand (signedTerm z (textAux fuel true z)) z :=
      fun z hz => (ih z (perm.mem_iff.1 hz)).summand
    exact .of_sum ((shown_terms summands (List.cons_ne_nil y rest)).alike (alike_sum_of_perm perm)) rfl

/-- The text of a power, from those of the base and the exponent. -/
theorem printed_pow {b e : Expr} (base : b.Printed (textAux fuel true b))
    (exponent : e.Printed (textAux fuel true e)) :
    (Expr.pow b e).Printed (textAux (fuel + 1) inner (.pow b e)) := by
  have one : Shown .product 3 "1" (.prod [.one]) := by
    have digit := (shown_natText 1).alone.factor.alike (alike_singleton _)
    rwa [show Expr.ofNat 1 = .one by simp [ofNat, Expr.one]] at digit
  -- The reciprocal of what a text shows.
  have reciprocal : ∀ {t : String} {y : Expr}, Shown .power 3 t y →
      Shown .product 1 ("1/" ++ t) (.pow y .negOne) := by
    intro t y shown
    have quotient := one.divided shown
    rw [String.append_assoc, ← String.append_assoc] at quotient
    refine quotient.alike ⟨fun I => ?_, fun s => ?_⟩
    · simp [value_one]
    · simp [symbolList, symbolsOfList, Expr.one]
  have root : Shown .atom 1 ("sqrt(" ++ textAux fuel true b ++ ")") (.pow b .half) := by
    refine base.sum.call (f := "sqrt") (g := none) rfl (fun I => ?_) ?_
    · rw [Interpretation.applied, value_pow, Expr.half, value_num]
    · simp [symbolList, Expr.half]
  rw [textAux]
  split_ifs with half negHalf negOne
  · subst half
    exact .of_product root.alone.factor le_rfl fun _ => root.alone
  · subst negHalf
    have under := reciprocal (root.alone.mono (show 1 ≤ 3 by omega))
    rw [← String.append_assoc, ← String.append_assoc] at under
    refine .of_product (under.alike ⟨fun {K} _ I => ?_, fun s => ?_⟩) le_rfl fun plain => absurd rfl plain.2
    · have half : ((-1 / 2 : ℚ) : K) = -((1 / 2 : ℚ) : K) := by
        rw [← Rat.cast_neg]
        norm_num
      rw [value_inverse, value_pow, value_pow, Expr.half, ofRat, value_num, value_num, half, I.power_neg]
    · simp [symbolList, Expr.half, ofRat, Expr.negOne]
  · subst negOne
    exact .of_product (reciprocal base.within_atom.alone) le_rfl fun plain => absurd rfl plain.1
  · have power := base.within_atom.raised exponent.within_atom
    exact .of_product power.factor le_rfl fun _ => power

/-- The text of a function, from that of its argument. -/
theorem printed_app {f : Fn} {a : Expr} (known : f ∈ [Fn.sin, .cos, .tan, .exp, .log])
    (argument : a.Printed (textAux fuel true a)) :
    (Expr.app f a).Printed (textAux (fuel + 1) inner (.app f a)) := by
  have name : functionOf? f.name = some (some f) := by
    fin_cases known <;> rfl
  have text : textAux (fuel + 1) inner (.app f a) = f.name ++ "(" ++ textAux fuel true a ++ ")" := by
    fin_cases known <;> rfl
  rw [text]
  refine .of_atom ((argument.sum.call name (fun I => ?_) ?_).mono (by omega))
    (show powerLevel < functionLevel by decide)
  · rw [Interpretation.applied, value_app]
  · rw [symbolList]

end Node

/-- The text of an expression with a plain text, if there is fuel enough for its depth. -/
theorem printed_textAux (fuel : Nat) (inner : Bool) (x : Expr) (enough : x.size ≤ fuel)
    (plain : x.isPlain = true) : x.Printed (textAux fuel inner x) := by
  induction fuel generalizing inner x with
  | zero => exact absurd x.size_pos (by omega)
  | succ fuel ih =>
    cases x with
    | num n =>
      obtain ⟨q, rfl⟩ := isPlain_num.1 plain
      exact printed_num inner q
    | const c =>
      obtain rfl := isPlain_const.1 plain
      exact .of_atom shown_pi (show powerLevel < atomLevel by decide)
    | sym s =>
      obtain ⟨c, rfl, letter⟩ := isPlain_sym.1 plain
      exact .of_atom (shown_letter letter) (show powerLevel < atomLevel by decide)
    | sum l =>
      obtain ⟨several, terms⟩ := isPlain_sum.1 plain
      refine printed_sum several fun y hy => ih true y ?_ (terms y hy)
      have := size_add_length_le hy
      have := List.length_pos_of_mem hy
      rw [size] at enough
      omega
    | prod l =>
      refine (isPlain_prod.1 plain).printed fun y hy => ih true y ?_
      omega
    | pow b e =>
      obtain ⟨base, exponent⟩ := isPlain_pow.1 plain
      rw [size] at enough
      exact printed_pow (ih true b (by omega) base) (ih true e (by omega) exponent)
    | app f a =>
      obtain ⟨known, argument⟩ := isPlain_app.1 plain
      rw [size] at enough
      exact printed_app known (ih true a (by omega) argument)

/-- The text of an expression with a plain text shows it. -/
theorem shown_text {x : Expr} (plain : x.isPlain = true) : Shown .sum 3 x.text x :=
  (printed_textAux _ false x (by omega) plain).sum

end Expr

end Reckoner
