-- Texts that are phrases of arithmetic and denote expressions. Texts of parts make up those of
-- products, quotients and sums, with the signs and brackets of printing.
import Mathlib
import Reckoner.Proofs.Algebra.ReadingOrder
import Reckoner.Proofs.Reading.PhraseValues

namespace Reckoner

namespace Expr

/-! ## Expressions that denote the same -/

/-- The expressions have the same value under each interpretation, and the same symbols. -/
structure Alike (x y : Expr) : Prop where
  value : ∀ {K : Type} [Field K] (I : Interpretation K), x.value I = y.value I
  symbols : ∀ s, s ∈ x.symbolList ↔ s ∈ y.symbolList

theorem Alike.refl (x : Expr) : x.Alike x := ⟨fun _ => rfl, fun _ => Iff.rfl⟩

theorem Alike.symm {x y : Expr} (h : x.Alike y) : y.Alike x :=
  ⟨fun I => (h.value I).symm, fun s => (h.symbols s).symm⟩

theorem Alike.trans {x y z : Expr} (hxy : x.Alike y) (hyz : y.Alike z) : x.Alike z :=
  ⟨fun I => (hxy.value I).trans (hyz.value I), fun s => (hxy.symbols s).trans (hyz.symbols s)⟩

theorem mem_symbolsOfList_iff {s : String} {l : List Expr} :
    s ∈ symbolsOfList l ↔ ∃ x ∈ l, s ∈ x.symbolList := by
  induction l with
  | nil => simp [symbolsOfList]
  | cons x l ih => simp [symbolsOfList, ih]

theorem alike_prod_of_perm {l m : List Expr} (h : l.Perm m) : (prod l).Alike (prod m) := by
  refine ⟨fun I => ?_, fun s => ?_⟩
  · rw [value_prod, value_prod, (h.map _).prod_eq]
  · simp only [symbolList, mem_symbolsOfList_iff, h.mem_iff]

theorem alike_sum_of_perm {l m : List Expr} (h : l.Perm m) : (sum l).Alike (sum m) := by
  refine ⟨fun I => ?_, fun s => ?_⟩
  · rw [value_sum, value_sum, (h.map _).sum_eq]
  · simp only [symbolList, mem_symbolsOfList_iff, h.mem_iff]

theorem alike_singleton (x : Expr) : x.Alike (prod [x]) :=
  ⟨fun I => by simp, fun s => by simp [symbolList, symbolsOfList]⟩

theorem value_inverse {K : Type} [Field K] (I : Interpretation K) (x : Expr) :
    (pow x negOne).value I = (x.value I)⁻¹ := by
  rw [value_pow, value_negOne, I.power_neg, I.power_one]

end Expr

/-! ## Texts that show expressions -/

/-- The text is the phrase, and the phrase denotes the expression. -/
structure Phrase.Prints {l : Level} (p : Phrase l) (t : String) (x : Expr) : Prop where
  chars : t.toList = p.chars
  value : ∀ {K : Type} [Field K] (I : Interpretation K), p.value I = x.value I
  letters : ∀ s, s ∈ p.letters ↔ s ∈ x.symbolList

/-- Brackets nest to less than half of the characters, but for so much more. -/
def Phrase.Shallow {l : Level} (k : ℕ) (p : Phrase l) : Prop :=
  5 * p.depth ≤ 2 * p.chars.length + k

/-- The text shows the expression as a phrase of the level. -/
def Shown (l : Level) (k : ℕ) (t : String) (x : Expr) : Prop :=
  ∃ p : Phrase l, p.Prints t x ∧ p.Shallow k

theorem Phrase.chars_length_pos {l : Level} (p : Phrase l) : 0 < p.chars.length := by
  induction p with
  | number n => exact List.length_pos_iff.2 (digitsOf_ne_nil n)
  | _ => simp_all [Phrase.chars]

namespace Shown

variable {l : Level} {k m : ℕ} {s t : String} {x y : Expr}

theorem alike (h : Shown l k t x) (same : x.Alike y) : Shown l k t y := by
  obtain ⟨p, prints, shallow⟩ := h
  exact ⟨p, ⟨prints.chars, fun I => (prints.value I).trans (same.value I),
    fun s => (prints.letters s).trans (same.symbols s)⟩, shallow⟩

theorem mono (h : Shown l k t x) (less : k ≤ m) : Shown l m t x := by
  obtain ⟨p, prints, shallow⟩ := h
  exact ⟨p, prints, shallow.trans (by omega)⟩

theorem alone (h : Shown .atom k t x) : Shown .power k t x := by
  obtain ⟨p, prints, shallow⟩ := h
  exact ⟨.alone p, ⟨prints.chars, prints.value, prints.letters⟩, shallow⟩

theorem factor (h : Shown .power k t x) : Shown .product k t x := by
  obtain ⟨p, prints, shallow⟩ := h
  exact ⟨.factor p, ⟨prints.chars, prints.value, prints.letters⟩, shallow⟩

/-- A product is a sum of one term. -/
theorem term (h : Shown .product k t x) : Shown .sum k t x := by
  obtain ⟨p, prints, shallow⟩ := h
  exact ⟨.term false p, ⟨prints.chars, prints.value, prints.letters⟩, shallow⟩

theorem brackets (h : Shown .sum k t x) : Shown .atom (k + 1) ("(" ++ t ++ ")") x := by
  obtain ⟨p, prints, shallow⟩ := h
  refine ⟨.brackets p, ⟨?_, prints.value, prints.letters⟩, ?_⟩
  · simp [prints.chars, Phrase.chars]
  · simp only [Phrase.Shallow, Phrase.depth, Phrase.chars, List.length_cons, List.length_append,
      List.length_nil] at shallow ⊢
    omega

/-- A function with the brackets behind it takes five characters at least. -/
theorem call {f : String} {g : Option Fn} (h : Shown .sum 3 t x) (known : functionOf? f = some g)
    (same : ∀ {K : Type} [Field K] (I : Interpretation K), I.applied g (x.value I) = y.value I)
    (symbols : y.symbolList = x.symbolList) : Shown .atom 1 (f ++ "(" ++ t ++ ")") y := by
  obtain ⟨p, prints, shallow⟩ := h
  have long : functionNames.all (fun f => decide (2 ≤ f.toList.length)) = true := by decide
  have some : 2 ≤ f.toList.length := by simpa using functionNames_all long known
  refine ⟨.call f g known p, ⟨?_, fun I => ?_, fun s => ?_⟩, ?_⟩
  · simp [prints.chars, Phrase.chars]
  · rw [Phrase.value, prints.value, same]
  · rw [symbols, ← prints.letters s, Phrase.letters]
  · simp only [Phrase.Shallow, Phrase.depth, Phrase.chars, List.length_cons, List.length_append,
      List.length_nil] at shallow ⊢
    omega

theorem raised (hb : Shown .atom 3 s x) (he : Shown .atom 3 t y) :
    Shown .power 1 (s ++ "**" ++ t) (.pow x y) := by
  obtain ⟨p, hp, shallowp⟩ := hb
  obtain ⟨q, hq, shallowq⟩ := he
  have somep := p.chars_length_pos
  have someq := q.chars_length_pos
  refine ⟨.raised p q, ⟨?_, fun I => ?_, fun s => ?_⟩, ?_⟩
  · simp [hp.chars, hq.chars, Phrase.chars]
  · rw [Phrase.value, hp.value, hq.value, Expr.value_pow]
  · simp [Phrase.letters, Expr.symbolList, hp.letters, hq.letters]
  · simp only [Phrase.Shallow, Phrase.depth, Phrase.chars, List.length_cons, List.length_append]
      at shallowp shallowq ⊢
    omega

end Shown

/-! ## Products -/

/-- Two products behind each other are one product. -/
def Phrase.joined (a : Phrase .product) : Phrase .product → Phrase .product
  | factor p => times a p
  | times b p => times (a.joined b) p
  | .over b p => .over (a.joined b) p

namespace Phrase

theorem chars_joined (a : Phrase .product) : ∀ b : Phrase .product,
    (a.joined b).chars = a.chars ++ '*' :: b.chars
  | factor p => by simp [joined, chars]
  | times b p => by simp [joined, chars, chars_joined a b]
  | .over b p => by simp [joined, chars, chars_joined a b]

theorem value_joined {K : Type} [Field K] (I : Interpretation K) (a : Phrase .product) :
    ∀ b : Phrase .product, (a.joined b).value I = a.value I * b.value I
  | factor p => by simp [joined, value]
  | times b p => by simp [joined, value, value_joined I a b, mul_assoc]
  | .over b p => by simp [joined, value, value_joined I a b, mul_div_assoc]

theorem mem_letters_joined (a : Phrase .product) (s : String) : ∀ b : Phrase .product,
    s ∈ (a.joined b).letters ↔ s ∈ a.letters ∨ s ∈ b.letters
  | factor p => by simp [joined, letters]
  | times b p => by simp [joined, letters, mem_letters_joined a s b, or_assoc]
  | .over b p => by simp [joined, letters, mem_letters_joined a s b, or_assoc]

theorem depth_joined (a : Phrase .product) : ∀ b : Phrase .product,
    (a.joined b).depth = max a.depth b.depth
  | factor p => by simp [joined, depth]
  | times b p => by simp [joined, depth, depth_joined a b, max_assoc]
  | .over b p => by simp [joined, depth, depth_joined a b, max_assoc]

end Phrase

namespace Shown

variable {s t : String} {x y : Expr} {l : List Expr}

theorem times (hx : Shown .product 3 s x) (hl : Shown .product 3 t (.prod l)) :
    Shown .product 1 (s ++ "*" ++ t) (.prod (x :: l)) := by
  obtain ⟨p, hp, shallowp⟩ := hx
  obtain ⟨q, hq, shallowq⟩ := hl
  have somep := p.chars_length_pos
  have someq := q.chars_length_pos
  refine ⟨p.joined q, ⟨?_, fun I => ?_, fun s => ?_⟩, ?_⟩
  · simp [hp.chars, hq.chars, Phrase.chars_joined]
  · rw [Phrase.value_joined, hp.value, hq.value, Expr.value_prod, Expr.value_prod, List.map_cons,
      List.prod_cons]
  · rw [Phrase.mem_letters_joined, hp.letters, hq.letters]
    simp [Expr.symbolList, Expr.symbolsOfList]
  · simp only [Phrase.Shallow, Phrase.depth_joined, Phrase.chars_joined, List.length_cons,
      List.length_append] at shallowp shallowq ⊢
    omega

theorem divided (hl : Shown .product 3 s (.prod l)) (hy : Shown .power 3 t y) :
    Shown .product 1 (s ++ "/" ++ t) (.prod (l ++ [.pow y .negOne])) := by
  obtain ⟨p, hp, shallowp⟩ := hl
  obtain ⟨q, hq, shallowq⟩ := hy
  have somep := p.chars_length_pos
  have someq := q.chars_length_pos
  refine ⟨.over p q, ⟨?_, fun I => ?_, fun s => ?_⟩, ?_⟩
  · simp [hp.chars, hq.chars, Phrase.chars]
  · rw [Phrase.value, hp.value, hq.value, Expr.value_prod, Expr.value_prod, List.map_append,
      List.prod_append, List.map_singleton, List.prod_singleton, Expr.value_inverse, div_eq_mul_inv]
  · rw [Phrase.letters, List.mem_append, hp.letters, hq.letters]
    simp [Expr.symbolList, Expr.mem_symbolsOfList_iff, Expr.negOne, or_and_right, exists_or]
  · simp only [Phrase.Shallow, Phrase.depth, Phrase.chars, List.length_cons, List.length_append]
      at shallowp shallowq ⊢
    omega

end Shown

section Quotients

variable {text under : Expr → String} {above below : List Expr}

/-- A product of one factor at least. -/
theorem shown_joinWith (shown : ∀ y ∈ above, Shown .product 3 (text y) y) (some : above ≠ []) :
    Shown .product (if above.length = 1 then 3 else 1) (Expr.joinWith "*" (above.map text))
      (.prod above) := by
  induction above with
  | nil => exact absurd rfl some
  | cons x l ih =>
    obtain ⟨first, later⟩ := List.forall_mem_cons.1 shown
    cases l with
    | nil => exact first.alike (Expr.alike_singleton x)
    | cons y l =>
      have rest := (ih later (List.cons_ne_nil _ _)).mono (m := 3) (by split_ifs <;> omega)
      exact first.times rest

/-- A product and its reciprocal factors. -/
def Expr.quotientOf (above below : List Expr) : Expr :=
  .prod (above ++ below.map fun y => .pow y .negOne)

theorem Expr.value_quotientOf {K : Type} [Field K] (I : Interpretation K) (above below : List Expr) :
    (quotientOf above below).value I =
      (above.map (Expr.value I)).prod * ((below.map (Expr.value I)).prod)⁻¹ := by
  have inverses : (below.map fun y => Expr.pow y .negOne).map (Expr.value I) =
      (below.map (Expr.value I)).map Inv.inv := by
    simp only [List.map_map]
    exact List.map_congr_left fun y _ => value_inverse I y
  rw [quotientOf, value_prod, List.map_append, List.prod_append, inverses, List.prod_inv]

theorem Expr.mem_symbols_quotientOf {above below : List Expr} {s : String} :
    s ∈ (quotientOf above below).symbolList ↔ ∃ y ∈ above ++ below, s ∈ y.symbolList := by
  simp [quotientOf, symbolList, mem_symbolsOfList_iff, negOne, or_and_right, exists_or]

/-- What stands above and below a bar is a quotient of products. -/
theorem shown_quotientText (shown : ∀ y ∈ above, Shown .product 3 (text y) y)
    (shown' : ∀ y ∈ below, Shown .power 3 (under y) y) (some : above ≠ []) :
    Shown .product (if above.length + below.length = 1 then 3 else 1)
      (Expr.quotientText (above.map text) (below.map under)) (Expr.quotientOf above below) := by
  have front := shown_joinWith shown some
  have count := List.length_pos_iff.2 some
  match below with
  | [] => simpa [Expr.quotientOf, Expr.quotientText] using front
  | [y] =>
    have several : ¬ above.length + [y].length = 1 := by
      rw [List.length_singleton]
      omega
    rw [if_neg several]
    exact (front.mono (by split_ifs <;> omega)).divided (shown' y (List.mem_singleton_self y))
  | y :: z :: l =>
    have several : ¬ above.length + (y :: z :: l).length = 1 := by
      rw [List.length_cons, List.length_cons]
      omega
    have behind := shown_joinWith (fun x hx => (shown' x hx).factor) (List.cons_ne_nil y (z :: l))
    rw [if_neg (by simp)] at behind
    have whole := (front.mono (m := 3) (by split_ifs <;> omega)).divided
      (behind.term.brackets.alone.mono (m := 3) (by omega))
    have text : Expr.quotientText (above.map text) ((y :: z :: l).map under) =
        Expr.joinWith "*" (above.map text) ++ "/" ++
          ("(" ++ Expr.joinWith "*" ((y :: z :: l).map under) ++ ")") := by
      simp [Expr.quotientText, ← String.toList_inj]
    rw [if_neg several, text]
    refine whole.alike ⟨fun I => ?_, fun s => ?_⟩
    · rw [Expr.value_quotientOf, Expr.value_prod, List.map_append, List.prod_append,
        List.map_singleton, List.prod_singleton, Expr.value_inverse, Expr.value_prod]
    · rw [Expr.mem_symbols_quotientOf]
      simp [Expr.symbolList, Expr.mem_symbolsOfList_iff, Expr.negOne, or_and_right, exists_or]

end Quotients

/-! ## Signs -/

/-- The text shows the expression as a product, with a sign before it if it is negative. -/
def ShownTerm (negative : Bool) (k : ℕ) (t : String) (x : Expr) : Prop :=
  ∃ p : Phrase .product, (Phrase.term negative p).Prints t x ∧ (Phrase.term negative p).Shallow k

section Signs

variable {negative : Bool} {k : ℕ} {t : String} {x y : Expr}

theorem ShownTerm.sum (h : ShownTerm negative k t x) : Shown .sum k t x := by
  obtain ⟨p, prints, shallow⟩ := h
  exact ⟨.term negative p, prints, shallow⟩

theorem Shown.unsigned (h : Shown .product k t x) : ShownTerm false k t x := by
  obtain ⟨p, prints, shallow⟩ := h
  exact ⟨p, ⟨prints.chars, prints.value, prints.letters⟩, shallow⟩

theorem ShownTerm.product (h : ShownTerm false k t x) : Shown .product k t x := by
  obtain ⟨p, prints, shallow⟩ := h
  exact ⟨p, ⟨prints.chars, prints.value, prints.letters⟩, shallow⟩

theorem Shown.negated (h : Shown .product 3 t y) (same : x.Alike (.prod [.negOne, y])) :
    ShownTerm true 1 ("-" ++ t) x := by
  obtain ⟨p, prints, shallow⟩ := h
  refine ⟨p, ⟨?_, fun I => ?_, fun s => ?_⟩, ?_⟩
  · simp [prints.chars, Phrase.chars]
  · rw [same.value, Phrase.value, if_pos rfl, prints.value]
    simp [Expr.value_negOne]
  · rw [same.symbols, Phrase.letters, prints.letters]
    simp [Expr.symbolList, Expr.symbolsOfList, Expr.negOne]
  · simp only [Phrase.Shallow, Phrase.depth, Phrase.chars, if_true, List.length_append,
      List.length_singleton] at shallow ⊢
    omega

end Signs

/-! ## Sums -/

/-- No product begins with a sign. -/
theorem Phrase.head_chars_ne_minus {l : Level} (p : Phrase l) (h : l ≠ .sum) :
    p.chars.head? ≠ some '-' := by
  have front : ∀ {s : List Char}, s.head? ≠ some '-' → 0 < s.length → ∀ rest,
      (s ++ rest).head? ≠ some '-' := by
    intro s hs some rest
    rwa [List.head?_append_of_ne_nil _ (List.length_pos_iff.1 some)]
  induction p with
  | number n =>
    intro minus
    have digit := digitsOf_digits n _ (List.mem_of_mem_head? minus)
    exact absurd digit (by decide)
  | letter c hc =>
    intro minus
    obtain rfl : c = '-' := Option.some.inj minus
    exact absurd hc (by decide)
  | pi => decide
  | call f g known a =>
    have table : functionNames.all (fun f => f.toList.head? != some '-' && decide (0 < f.toList.length)) =
        true := by decide
    have name := functionNames_all table known
    rw [Bool.and_eq_true, bne_iff_ne, decide_eq_true_eq] at name
    exact front name.1 name.2 _
  | brackets a => simp [Phrase.chars]
  | alone a ih | factor a ih => exact ih (by decide)
  | raised a b ih _ | times a b ih _ | «over» a b ih _ =>
    exact front (ih (by decide)) a.chars_length_pos _
  | term | plus | minus => exact absurd rfl h

/-- A term of a sum behind its sign. -/
structure Summand (negative : Bool) (p : Phrase .product) (x : Expr) : Prop where
  value : ∀ {K : Type} [Field K] (I : Interpretation K), (Phrase.term negative p).value I = x.value I
  letters : ∀ s, s ∈ p.letters ↔ s ∈ x.symbolList
  shallow : p.Shallow 3

/-- The sign and the text show the expression. -/
def ShownSummand (term : String × String) (x : Expr) : Prop :=
  ∃ negative p, Summand negative p x ∧
    term = (if negative then "-" else "+", String.ofList p.chars)

/-- The texts of further terms, with their signs. -/
def furtherText : List (String × String) → String
  | [] => ""
  | (sign, text) :: rest => " " ++ sign ++ " " ++ text ++ furtherText rest

theorem joinWith_terms (text : String) (rest : List (String × String)) :
    Expr.joinWith " " (text :: rest.flatMap fun (sign, text) => [sign, text]) =
      text ++ furtherText rest := by
  induction rest generalizing text with
  | nil => simp [Expr.joinWith, furtherText]
  | cons p rest ih =>
    obtain ⟨sign, next⟩ := p
    rw [List.flatMap_cons, List.cons_append, List.singleton_append, Expr.joinWith, Expr.joinWith, ih,
      furtherText]
    · simp [← String.toList_inj]
    · simp
    · simp

section Sums

variable {t : String} {ys : List Expr}

theorem Shown.added {x : Expr} {term : String × String} (h : Shown .sum 3 t (.sum ys))
    (summand : ShownSummand term x) :
    Shown .sum 1 (t ++ " " ++ term.1 ++ " " ++ term.2) (.sum (ys ++ [x])) := by
  obtain ⟨p, prints, shallow⟩ := h
  obtain ⟨negative, q, ⟨value, letters, shallow'⟩, rfl⟩ := summand
  have somep := p.chars_length_pos
  have someq := q.chars_length_pos
  refine ⟨if negative then .minus p q else .plus p q, ⟨?_, fun I => ?_, fun s => ?_⟩, ?_⟩
  · cases negative <;> simp [prints.chars, Phrase.chars]
  · have first := prints.value I
    have second := value I
    rw [Expr.value_sum] at first ⊢
    rw [List.map_append, List.sum_append, List.map_singleton, List.sum_singleton, ← first, ← second]
    cases negative <;> simp [Phrase.value, sub_eq_add_neg]
  · have member : s ∈ (if negative then Phrase.minus p q else .plus p q).letters ↔
        s ∈ p.letters ∨ s ∈ q.letters := by cases negative <;> simp [Phrase.letters]
    rw [member, prints.letters, letters]
    simp [Expr.symbolList, Expr.mem_symbolsOfList_iff, or_and_right, exists_or]
  · cases negative <;>
    · simp only [Phrase.Shallow, Phrase.depth, Phrase.chars, List.length_append, List.length_cons,
        if_true, if_false, Bool.false_eq_true] at shallow shallow' ⊢
      omega

/-- Further terms are added one by one. -/
theorem Shown.further {xs : List Expr} {term : Expr → String × String}
    (h : Shown .sum 3 t (.sum ys)) (summands : ∀ x ∈ xs, ShownSummand (term x) x) :
    Shown .sum (if xs = [] then 3 else 1) (t ++ furtherText (xs.map term)) (.sum (ys ++ xs)) := by
  induction xs generalizing t ys with
  | nil => simpa [furtherText] using h
  | cons x xs ih =>
    obtain ⟨first, later⟩ := List.forall_mem_cons.1 summands
    have next := ih ((h.added first).mono (by omega)) later
    have text : t ++ furtherText ((x :: xs).map term) =
        t ++ " " ++ (term x).1 ++ " " ++ (term x).2 ++ furtherText (xs.map term) := by
      simp [furtherText, ← String.toList_inj]
    rw [text, if_neg (List.cons_ne_nil _ _)]
    rw [List.append_assoc, List.singleton_append] at next
    obtain rfl | some := eq_or_ne xs []
    · simpa [furtherText] using h.added first
    · rwa [if_neg some] at next

/-- Terms with their signs, the sign of the first one left out if it is a plus. -/
def termsText : List (String × String) → String
  | [] => ""
  | (sign, text) :: rest => (if sign = "+" then "" else sign) ++
      Expr.joinWith " " (text :: rest.flatMap fun (sign, text) => [sign, text])

theorem shown_terms {x : Expr} {xs : List Expr} {term : Expr → String × String}
    (summands : ∀ y ∈ x :: xs, ShownSummand (term y) y) (some : xs ≠ []) :
    Shown .sum 1 (termsText ((x :: xs).map term)) (.sum (x :: xs)) := by
  obtain ⟨⟨negative, p, ⟨value, letters, shallow⟩, first⟩, later⟩ := List.forall_mem_cons.1 summands
  have start : Shown .sum 3 ((if (term x).1 = "+" then "" else (term x).1) ++ (term x).2)
      (.sum [x]) := by
    refine ⟨.term negative p, ⟨?_, fun I => ?_, fun s => ?_⟩, ?_⟩
    · rw [first]
      cases negative <;> simp [Phrase.chars]
    · simp [value]
    · rw [Phrase.letters, letters]
      simp [Expr.symbolList, Expr.symbolsOfList]
    · cases negative <;>
      · simp only [Phrase.Shallow, Phrase.depth, Phrase.chars, List.length_append, List.length_nil,
          List.length_singleton, if_true, if_false, Bool.false_eq_true] at shallow ⊢
        omega
  have whole := start.further later
  rw [if_neg some, String.append_assoc] at whole
  rw [List.map_cons, termsText, joinWith_terms]
  exact whole

end Sums

/-! ## Levels -/

namespace Expr

/-- A power that is not written as a root or below a bar. -/
def IsPlainPower : Expr → Prop
  | .pow _ e => e ≠ .negOne ∧ e ≠ .ofRat (-1 / 2)
  | _ => False

theorem IsPlainPower.level {x : Expr} (h : x.IsPlainPower) : x.level = powerLevel := by
  cases x <;> first | exact h.elim | rfl

theorem sumLevel_le_level (x : Expr) : sumLevel ≤ x.level := by
  unfold level
  split <;> (try split_ifs) <;> decide

theorem level_of_isSum {x : Expr} (h : x.isSum = true) : x.level = sumLevel := by
  cases x <;> first | rfl | cases h

/-- The text shows the expression as each kind of phrase that it can be a part of without
brackets. -/
structure Printed (x : Expr) (t : String) : Prop where
  atom : powerLevel < x.level → Shown .atom 3 t x
  power : x.IsPlainPower → Shown .power 1 t x
  term : x.isSum = false → ∃ negative, ShownTerm negative (if negative then 1 else 3) t x ∧
    (sumLevel < x.level → negative = false)
  sum : Shown .sum 3 t x
  loose : x.level ≤ powerLevel → Shown .sum 1 t x

namespace Printed

variable {x : Expr} {t : String}

theorem of_atom (h : Shown .atom 3 t x) (level : powerLevel < x.level) : x.Printed t where
  atom := fun _ => h
  power := fun plain => absurd plain.level level.ne'
  term := fun _ => ⟨false, h.alone.factor.unsigned, fun _ => rfl⟩
  sum := h.alone.factor.term
  loose := fun less => absurd level (not_lt.2 less)

theorem of_product (h : Shown .product 1 t x) (level : x.level ≤ powerLevel)
    (power : x.IsPlainPower → Shown .power 1 t x) : x.Printed t where
  atom := fun more => absurd more (not_lt.2 level)
  power := power
  term := fun _ => ⟨false, (h.mono (show 1 ≤ 3 by omega)).unsigned, fun _ => rfl⟩
  sum := h.term.mono (by omega)
  loose := fun _ => h.term

theorem of_negative (h : ShownTerm true 1 t x) (level : x.level = sumLevel) : x.Printed t where
  atom := fun more => by rw [level] at more; exact absurd more (by decide)
  power := fun plain => by rw [plain.level] at level; cases level
  term := fun _ => ⟨true, h, fun more => absurd level more.ne'⟩
  sum := h.sum.mono (by omega)
  loose := fun _ => h.sum

theorem of_sum (h : Shown .sum 1 t x) (sum : x.isSum = true) : x.Printed t where
  atom := fun more => by rw [level_of_isSum sum] at more; exact absurd more (by decide)
  power := fun plain => by have := plain.level; rw [level_of_isSum sum] at this; cases this
  term := fun other => by rw [sum] at other; cases other
  sum := h.mono (by omega)
  loose := fun _ => h

/-- Where the surroundings hold tighter, the text is bracketed. -/
theorem within_atom (h : x.Printed t) : Shown .atom 3 (bracket x powerLevel t) x := by
  unfold bracket
  split_ifs with less
  · exact (h.loose less).brackets.mono (by omega)
  · exact h.atom (not_le.1 less)

theorem within_product (h : x.Printed t) {level : Nat} (low : sumLevel ≤ level)
    (high : level ≤ powerLevel) : Shown .product 3 (bracket x level t) x := by
  unfold bracket
  split_ifs with less
  · exact ((h.loose (less.trans high)).brackets.mono (by omega)).alone.factor
  · have noSum : x.isSum = false := by
      by_contra sum
      rw [level_of_isSum (by simpa using sum)] at less
      exact less low
    obtain ⟨negative, term, positive⟩ := h.term noSum
    obtain rfl := positive (lt_of_le_of_lt low (not_le.1 less))
    exact term.product

theorem signedTerm_minus {rest : List Char} (h : t.toList = '-' :: rest) (sum : x.isSum = false) :
    signedTerm x t = ("-", String.ofList rest) := by
  have level : ¬ x.level < sumLevel := not_lt.2 (sumLevel_le_level x)
  simp [signedTerm, h, sum, level]

theorem signedTerm_plus (h : x.isSum = true ∨ t.toList.head? ≠ some '-') :
    signedTerm x t = ("+", if x.isSum then "(" ++ t ++ ")" else t) := by
  have level : ¬ x.level < sumLevel := not_lt.2 (sumLevel_le_level x)
  unfold signedTerm
  cases chars : t.toList with
  | nil => simp [level]
  | cons c rest =>
    by_cases minus : c = '-'
    · subst minus
      have sum := h.resolve_right (by simp [chars])
      simp [sum]
    · simp [minus, level]

/-- A term behind its sign. -/
theorem summand (h : x.Printed t) : ShownSummand (signedTerm x t) x := by
  cases sum : x.isSum with
  | true =>
    obtain ⟨p, prints, shallow⟩ := ((h.loose (by rw [level_of_isSum sum]; decide)).brackets.mono
      (show 1 + 1 ≤ 3 by omega)).alone.factor
    refine ⟨false, p, ⟨prints.value, prints.letters, shallow⟩, ?_⟩
    rw [signedTerm_plus (.inl sum), sum, if_pos rfl, ← prints.chars, String.ofList_toList]
    rfl
  | false =>
    obtain ⟨negative, ⟨p, prints, shallow⟩, -⟩ := h.term sum
    refine ⟨negative, p, ⟨prints.value, prints.letters, ?_⟩, ?_⟩
    · cases negative <;>
      · simp only [Phrase.Shallow, Phrase.depth, Phrase.chars, List.length_append, List.length_nil,
          List.length_singleton, if_true, if_false, Bool.false_eq_true] at shallow ⊢
        omega
    · cases negative with
      | true => exact signedTerm_minus prints.chars sum
      | false =>
        have chars : t.toList = p.chars := prints.chars
        rw [signedTerm_plus (.inr (chars ▸ p.head_chars_ne_minus (by decide))), sum, ← chars,
          String.ofList_toList]
        rfl

end Printed

/-! ## Numbers -/

theorem shown_natText (n : ℕ) : Shown .atom 3 (natText n) (.ofNat n) := by
  refine ⟨.number n, ⟨rfl, fun I => ?_, fun s => ?_⟩, ?_⟩
  · rw [Phrase.value, ofNat, value_num, Rat.cast_natCast]
  · simp [Phrase.letters, ofNat, symbolList]
  · have some := (Phrase.number n).chars_length_pos
    simp only [Phrase.Shallow, Phrase.depth]
    omega

/-- The text of a number without its sign. -/
def sizeText (q : ℚ) : String :=
  if q.den = 1 then natText q.num.natAbs else natText q.num.natAbs ++ "/" ++ natText q.den

theorem text_exact (short : Bool) (q : ℚ) :
    (Number.exact q).text short = (if q < 0 then "-" else "") ++ sizeText q := by
  unfold Number.text sizeText intText
  simp only [Rat.num_neg]
  split_ifs <;> simp [String.append_assoc]

theorem sizeText_neg (q : ℚ) : sizeText (-q) = sizeText q := by
  unfold sizeText
  rw [Rat.neg_num, Rat.neg_den, Int.natAbs_neg]

theorem alike_fraction {q : ℚ} (h : 0 ≤ q) :
    (quotientOf [.ofNat q.num.natAbs] [.ofNat q.den]).Alike (.num (.exact q)) := by
  have num : ((q.num.natAbs : ℕ) : ℤ) = q.num := Int.natAbs_of_nonneg (Rat.num_nonneg.2 h)
  refine ⟨fun {K} _ I => ?_, fun s => by simp [mem_symbols_quotientOf, ofNat, symbolList]⟩
  have num' : ((q.num.natAbs : ℕ) : K) = (q.num : K) := by rw [← Int.cast_natCast, num]
  rw [value_quotientOf, value_num, Rat.cast_def]
  simp only [List.map_singleton, List.prod_singleton, ofNat, value_num, Rat.cast_natCast, num',
    div_eq_mul_inv]

theorem alike_whole {q : ℚ} (h : 0 ≤ q) (whole : q.den = 1) :
    (Expr.ofNat q.num.natAbs).Alike (.num (.exact q)) := by
  have same : ((q.num.natAbs : ℕ) : ℚ) = q := by
    rw [← Int.cast_natCast, Int.natAbs_of_nonneg (Rat.num_nonneg.2 h)]
    exact (Rat.den_eq_one_iff q).1 whole
  rw [ofNat, same]
  exact .refl _

/-- A fraction without a sign. -/
theorem shown_sizeText {q : ℚ} (h : 0 ≤ q) :
    Shown .product (if q.den = 1 then 3 else 1) (sizeText q) (.num (.exact q)) := by
  unfold sizeText
  split_ifs with whole
  · exact (shown_natText _).alone.factor.alike (alike_whole h whole)
  · have number := fun n => shown_natText n
    exact ((number q.num.natAbs).alone.factor.alike (alike_singleton _)).divided
      (number q.den).alone |>.alike (alike_fraction h)

theorem printed_num (short : Bool) (q : ℚ) :
    (Expr.num (.exact q)).Printed ((Number.exact q).text short) := by
  rw [text_exact]
  by_cases negative : q < 0
  · have size := (shown_sizeText (q := -q) (by linarith)).mono (m := 3) (by split_ifs <;> omega)
    rw [sizeText_neg] at size
    rw [if_pos negative]
    refine .of_negative (size.negated ⟨fun I => ?_, fun s => ?_⟩) (by simp [level, negative])
    · simp [value_negOne]
    · simp [symbolList, symbolsOfList, negOne]
  · have size := shown_sizeText (not_lt.1 negative)
    rw [if_neg negative, String.empty_append]
    by_cases whole : q.den = 1
    · refine .of_atom ?_ (by simp [level, negative, whole, powerLevel, atomLevel])
      rw [sizeText, if_pos whole]
      exact (shown_natText _).alike (alike_whole (not_lt.1 negative) whole)
    · rw [if_neg whole] at size
      exact .of_product size (by simp [level, negative, whole, powerLevel, productLevel]) fun plain => plain.elim

end Expr

end Reckoner
