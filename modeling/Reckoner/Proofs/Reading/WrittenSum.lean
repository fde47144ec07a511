-- Sums of powers of one unknown as they are written. Such a text is read as the polynomial that it
-- shows, whatever spaces stand in it.
import Mathlib
import Reckoner.Proofs.Algebra.Arithmetic
import Reckoner.Proofs.Reading.Marks
import Reckoner.Proofs.Reading.SameNames

namespace Reckoner

open Polynomial

/-! ## Sums as they are written -/

/-- A power of the unknown: the unknown alone, or with an exponent behind a sign of powers. -/
inductive WrittenPower where
  | alone
  | raised (caret : Bool) (k : ℕ)

namespace WrittenPower

def exponent : WrittenPower → ℕ
  | alone => 1
  | raised _ k => k

def marks : WrittenPower → List Mark
  | alone => [.unknown]
  | raised caret k => [.unknown, if caret then .caret else .power, .number k]

def tree : WrittenPower → Tree
  | alone => .name "x"
  | raised _ k => .binary .power (.name "x") (.whole (natText k))

end WrittenPower

/-- A number, a power of the unknown, or the product of both. -/
inductive WrittenProduct where
  | number (n : ℕ)
  | power (p : WrittenPower)
  | scaled (n : ℕ) (p : WrittenPower)

namespace WrittenProduct

def size : WrittenProduct → ℕ
  | number n | scaled n _ => n
  | power _ => 1

def exponent : WrittenProduct → ℕ
  | number _ => 0
  | power p | scaled _ p => p.exponent

def marks : WrittenProduct → List Mark
  | number n => [.number n]
  | power p => p.marks
  | scaled n p => .number n :: .times :: p.marks

end WrittenProduct

/-- A term of a sum with its own sign. -/
structure WrittenTerm where
  negative : Bool
  product : WrittenProduct

namespace WrittenTerm

def coefficient (t : WrittenTerm) : ℤ := if t.negative then -t.product.size else t.product.size

noncomputable def polynomial (t : WrittenTerm) : ℤ[X] := monomial t.product.exponent t.coefficient

def marks (t : WrittenTerm) : List Mark :=
  (if t.negative then [.minus] else []) ++ t.product.marks

/-- The tree with the sign before its first factor. -/
def tree (t : WrittenTerm) : Tree :=
  let signed := fun (a : Tree) => if t.negative then .negative a else a
  match t.product with
  | .number n => signed (.whole (natText n))
  | .power p => signed p.tree
  | .scaled n p => .binary .times (signed (.whole (natText n))) p.tree

end WrittenTerm

/-- A sum: a first term, and further terms that are added or, with `minus`, taken away. -/
structure WrittenSum where
  first : WrittenTerm
  rest : List (Bool × WrittenTerm)

/-- The marks of further terms. -/
def termMarks (rest : List (Bool × WrittenTerm)) : List Mark :=
  rest.flatMap fun (minus, t) => (if minus then .minus else .plus) :: t.marks

/-- The tree of further terms behind what stands before them. -/
def termsTree (a : Tree) (rest : List (Bool × WrittenTerm)) : Tree :=
  rest.foldl (fun a (minus, t) => .binary (if minus then .minus else .plus) a t.tree) a

namespace WrittenSum

def terms (s : WrittenSum) : List WrittenTerm := s.first :: s.rest.map Prod.snd

/-- The polynomial that is written. -/
noncomputable def polynomial (s : WrittenSum) : ℤ[X] :=
  s.first.polynomial +
    (s.rest.map fun (minus, t) => if minus then -t.polynomial else t.polynomial).sum

def marks (s : WrittenSum) : List Mark := s.first.marks ++ termMarks s.rest

def tree (s : WrittenSum) : Tree := termsTree s.first.tree s.rest

/-- The text has the marks of the sum, with any spaces before them. -/
def Shows (s : WrittenSum) (text : String) : Prop :=
  ∃ l : List (ℕ × Mark), l.map Prod.snd = s.marks ∧ text = String.ofList (marksText l)

/-- No coefficient is larger than `10 ^ 15`, and no exponent than a hundred. -/
def IsModest (s : WrittenSum) : Prop :=
  ∀ t ∈ s.terms, t.product.size ≤ 10 ^ 15 ∧ t.product.exponent ≤ 100

end WrittenSum

/-! ## Marks -/

namespace WrittenTerm

theorem marks_spread (t : WrittenTerm) : t.marks.IsChain Mark.Apart := by
  obtain ⟨negative, product⟩ := t
  rcases product with n | (_ | ⟨caret, k⟩) | ⟨n, (_ | ⟨caret, k⟩)⟩ <;> cases negative <;>
    try cases caret
  all_goals simp [marks, WrittenProduct.marks, WrittenPower.marks, Mark.Apart, Mark.isOperand,
    Mark.isStar]

/-- A term and what follows it, if that begins with a sign. -/
theorem marks_append_spread (t : WrittenTerm) {ms : List Mark} (h : ms.IsChain Mark.Apart)
    (sign : ∀ m ∈ ms.head?, m = .plus ∨ m = .minus) : (t.marks ++ ms).IsChain Mark.Apart := by
  refine List.isChain_append.2 ⟨t.marks_spread, h, fun a _ b hb => ?_⟩
  rcases sign b hb with rfl | rfl <;> simp [Mark.Apart, Mark.isOperand, Mark.isStar]

end WrittenTerm

theorem termMarks_cons (minus : Bool) (t : WrittenTerm) (rest : List (Bool × WrittenTerm)) :
    termMarks ((minus, t) :: rest) =
      (if minus then .minus else .plus) :: (t.marks ++ termMarks rest) := by simp [termMarks]

theorem termMarks_spread (rest : List (Bool × WrittenTerm)) :
    (termMarks rest).IsChain Mark.Apart ∧ ∀ m ∈ (termMarks rest).head?, m = .plus ∨ m = .minus := by
  induction rest with
  | nil => simp [termMarks]
  | cons p rest ih =>
    obtain ⟨minus, t⟩ := p
    rw [termMarks_cons]
    refine ⟨List.isChain_cons.2 ⟨fun m _ => ?_, t.marks_append_spread ih.1 ih.2⟩, ?_⟩
    · cases minus <;> simp [Mark.Apart, Mark.isOperand, Mark.isStar]
    · cases minus <;> simp

theorem WrittenSum.marks_spread (s : WrittenSum) : s.marks.IsChain Mark.Apart :=
  s.first.marks_append_spread (termMarks_spread s.rest).1 (termMarks_spread s.rest).2

/-! ## Trees -/

/-- A term ends here: the end of the tokens, or a sign of a sum. -/
def EndsTerm (tokens : List Token) : Prop :=
  tokens = [] ∨ ∃ rest, tokens = .op .plus :: rest ∨ tokens = .op .minus :: rest

theorem readStage_product (t : WrittenTerm) {rest : List Token} (h : EndsTerm rest) (fuel : ℕ) :
    readStage (fuel + 12) .product (readTokens t.marks ++ rest) = some (t.tree, rest) := by
  obtain ⟨negative, product⟩ := t
  rcases product with n | (_ | ⟨caret, k⟩) | ⟨n, (_ | ⟨caret, k⟩)⟩ <;> cases negative <;>
    try cases caret
  all_goals
    rcases h with rfl | ⟨rest, rfl | rfl⟩ <;> rfl

theorem readTokens_append (ms more : List Mark) :
    readTokens (ms ++ more) = readTokens ms ++ readTokens more := List.flatMap_append

theorem endsTerm_termMarks (rest : List (Bool × WrittenTerm)) :
    EndsTerm (readTokens (termMarks rest)) := by
  cases rest with
  | nil => exact .inl rfl
  | cons p rest =>
    obtain ⟨minus, t⟩ := p
    rw [termMarks_cons]
    cases minus
    · exact .inr ⟨_, .inl rfl⟩
    · exact .inr ⟨_, .inr rfl⟩

theorem readStage_sumRest (fuel : ℕ) (a : Tree) (minus : Bool) (tokens : List Token) :
    readStage (fuel + 1) (.sumRest a) ((Mark.read (if minus then .minus else .plus)) ++ tokens) =
      (readStage fuel .product tokens).bind fun (b, rest) =>
        readStage fuel (.sumRest (.binary (if minus then .minus else .plus) a b)) rest := by
  cases minus <;> rfl

theorem readStage_sum (fuel : ℕ) (tokens : List Token) : readStage (fuel + 1) .sum tokens =
    (readStage fuel .product tokens).bind fun (a, rest) => readStage fuel (.sumRest a) rest := rfl

theorem readTokens_cons (m : Mark) (ms : List Mark) :
    readTokens (m :: ms) = m.read ++ readTokens ms := rfl

/-- Further terms are read one by one, each with what stands before it. -/
theorem readStage_terms (rest : List (Bool × WrittenTerm)) (a : Tree) (fuel : ℕ) :
    readStage (fuel + rest.length + 13) (.sumRest a) (readTokens (termMarks rest)) =
      some (termsTree a rest, []) := by
  induction rest generalizing a with
  | nil => rfl
  | cons p rest ih =>
    obtain ⟨minus, t⟩ := p
    have product := readStage_product t (endsTerm_termMarks rest) (fuel + rest.length + 1)
    have more := ih (.binary (if minus then .minus else .plus) a t.tree)
    have steps : fuel + (rest.length + 1) + 13 = fuel + rest.length + 13 + 1 := by omega
    rw [List.length_cons, steps, termMarks_cons, readTokens_cons, readStage_sumRest,
      readTokens_append, product, Option.bind_some]
    exact more

theorem WrittenSum.readStage_marks (s : WrittenSum) (fuel : ℕ) :
    readStage (fuel + s.rest.length + 14) .sum (readTokens s.marks) = some (s.tree, []) := by
  have product := readStage_product s.first (endsTerm_termMarks s.rest) (fuel + s.rest.length + 1)
  rw [readStage_sum, marks, readTokens_append, product, Option.bind_some]
  exact readStage_terms s.rest s.first.tree fuel

theorem nestsWithin_readTokens (ms : List Mark) : nestsWithin (readTokens ms) 0 := by
  induction ms with
  | nil => rfl
  | cons m ms ih => cases m <;> exact ih

theorem length_termMarks (rest : List (Bool × WrittenTerm)) :
    rest.length ≤ (readTokens (termMarks rest)).length := by
  induction rest with
  | nil => exact Nat.zero_le _
  | cons p rest ih =>
    obtain ⟨minus, t⟩ := p
    have sign : 1 ≤ (Mark.read (if minus then .minus else .plus)).length := by
      cases minus <;> decide
    rw [termMarks_cons, readTokens, List.flatMap_cons, ← readTokens, readTokens_append]
    simp only [List.length_append, List.length_cons]
    omega

theorem filter_readTokens (ms : List Mark) :
    (readTokens ms).filter (fun t => t != .newline && t != .finish) = readTokens ms := by
  refine List.filter_eq_self.2 fun t ht => ?_
  obtain ⟨m, -, ht⟩ := List.mem_flatMap.1 ht
  cases m <;> simp [Mark.read, Mark.tokens] at ht <;> aesop

theorem WrittenTerm.readTokens_ne_nil (t : WrittenTerm) : readTokens t.marks ≠ [] := by
  obtain ⟨negative, product⟩ := t
  rcases product with n | (_ | ⟨caret, k⟩) | ⟨n, p⟩ <;> cases negative <;> exact List.cons_ne_nil _ _

theorem WrittenSum.marks_ne_nil (s : WrittenSum) : s.marks ≠ [] := by
  intro h
  have first : s.first.marks = [] := (List.append_eq_nil_iff.1 h).1
  exact s.first.readTokens_ne_nil (by rw [first]; rfl)

theorem WrittenSum.treeOf_marks (s : WrittenSum) :
    treeOf (readTokens s.marks ++ [.finish, .finish]) = some s.tree := by
  have kept : (readTokens s.marks ++ [Token.finish, Token.finish]).filter
      (fun t => t != .newline && t != .finish) = readTokens s.marks := by
    rw [List.filter_append, filter_readTokens]
    exact List.append_nil _
  have first : 0 < (readTokens s.first.marks).length :=
    List.length_pos_iff.2 s.first.readTokens_ne_nil
  have more := length_termMarks s.rest
  obtain ⟨fuel, enough⟩ : ∃ fuel, 8 * (readTokens s.marks).length + 8 =
      fuel + s.rest.length + 14 := by
    refine ⟨8 * (readTokens s.marks).length + 8 - s.rest.length - 14, ?_⟩
    rw [marks, readTokens_append, List.length_append]
    omega
  unfold treeOf
  rw [kept]
  simp only [nestsWithin_readTokens, enough, s.readStage_marks]
  rfl

/-! ## Meanings -/

/-- The unknown is the only symbol. -/
structure UnknownOnly (symbols : List String) : Prop where
  bound : "x" ∈ symbols
  only : ∀ s ∈ symbols, s = "x"

section Meaning

open Reckoner.Expr

variable {symbols : List String}

theorem UnknownOnly.mem_iff (h : UnknownOnly symbols) (s : String) : s ∈ symbols ↔ s = "x" :=
  ⟨h.only s, fun hs => hs ▸ h.bound⟩

theorem meaning_unknown (h : UnknownOnly symbols) :
    (Tree.name "x").meaning symbols = some (.value (.sym "x")) := by
  have known : "x" ∉ reservedWords := by decide
  simp [Tree.meaning, nameMeaning, truthOf?, h.bound, known]

theorem meaning_number (n : ℕ) :
    (Tree.whole (natText n)).meaning symbols = some (.value (.ofInt n)) := by
  rw [Tree.meaning, wholeLiteral_digitsOf, Option.map_some]
  simp [Expr.ofNat, Expr.ofInt]

/-- A sign before a tree that means a polynomial. -/
theorem meaning_signed {a : Tree} {p : ℤ[X]} (negative : Bool)
    (h : a.meaning symbols = some (.value (ofPolynomial "x" p))) :
    (if negative then Tree.negative a else a).meaning symbols =
      some (.value (ofPolynomial "x" (if negative then -p else p))) := by
  cases negative with
  | false => exact h
  | true =>
    simp only [if_true, Tree.meaning, h]
    rw [neg_ofPolynomial]

theorem WrittenPower.meaning (h : UnknownOnly symbols) (p : WrittenPower) :
    p.tree.meaning symbols = some (.value (ofPolynomial "x" (X ^ p.exponent))) := by
  cases p with
  | alone =>
    rw [exponent, pow_one, ← sym_eq_ofPolynomial]
    exact meaning_unknown h
  | raised caret k =>
    rw [tree, Tree.meaning, meaning_unknown h, meaning_number, exponent]
    have whole : Expr.ofInt k = Expr.ofNat k := by simp [Expr.ofNat, Expr.ofInt]
    rw [whole]
    exact congrArg (fun x => some (Meaning.value x)) (power_unknown k)

theorem WrittenTerm.meaning (h : UnknownOnly symbols) (t : WrittenTerm) :
    t.tree.meaning symbols = some (.value (ofPolynomial "x" t.polynomial)) := by
  obtain ⟨negative, product⟩ := t
  have number (n : ℕ) : (if negative then Tree.negative (.whole (natText n))
      else .whole (natText n)).meaning symbols =
        some (.value (.ofInt (if negative then -n else n))) := by
    have value : (Tree.whole (natText n)).meaning symbols =
        some (.value (ofPolynomial "x" (C (n : ℤ)))) := by rw [ofPolynomial_C, meaning_number]
    rw [meaning_signed negative value]
    cases negative
    · simp only [Bool.false_eq_true, ↓reduceIte, ofPolynomial_C]
    · simp only [↓reduceIte, ← C_neg, ofPolynomial_C]
  cases product with
  | number n =>
    rw [tree, number, polynomial, WrittenProduct.exponent, coefficient, monomial_zero_left,
      ofPolynomial_C]
    rfl
  | power p =>
    rw [tree, meaning_signed negative (p.meaning h), polynomial, WrittenProduct.exponent, coefficient]
    cases negative <;> simp [WrittenProduct.size, monomial_one_right_eq_X_pow]
  | scaled n p =>
    rw [tree, Tree.meaning, number, p.meaning h]
    exact congrArg (fun x => some (Meaning.value x)) (times_unknown _ _)

/-- Further terms add to the meaning of what stands before them. -/
theorem termsTree_meaning (h : UnknownOnly symbols) (rest : List (Bool × WrittenTerm)) {a : Tree}
    {p : ℤ[X]} (ha : a.meaning symbols = some (.value (ofPolynomial "x" p))) :
    (termsTree a rest).meaning symbols = some (.value (ofPolynomial "x"
      (p + (rest.map fun (minus, t) => if minus then -t.polynomial else t.polynomial).sum))) := by
  induction rest generalizing a p with
  | nil => simpa [termsTree] using ha
  | cons part rest ih =>
    obtain ⟨minus, t⟩ := part
    have first : (Tree.binary (if minus then .minus else .plus) a t.tree).meaning symbols =
        some (.value (ofPolynomial "x" (p + if minus then -t.polynomial else t.polynomial))) := by
      rw [Tree.meaning, ha, t.meaning h]
      cases minus
      · exact congrArg (fun x => some (Meaning.value x)) (plus_ofPolynomial p _)
      · simp only [↓reduceIte]
        rw [← sub_eq_add_neg]
        exact congrArg (fun x => some (Meaning.value x)) (sub_ofPolynomial p _)
    have later := ih first
    rw [List.map_cons, List.sum_cons, ← add_assoc]
    exact later

/-- A sum means the polynomial that is written. -/
theorem WrittenSum.meaning (h : UnknownOnly symbols) (s : WrittenSum) :
    s.tree.meaning symbols = some (.value (ofPolynomial "x" s.polynomial)) :=
  termsTree_meaning h s.rest (s.first.meaning h)

end Meaning

/-! ## Names -/

theorem WrittenTerm.names (t : WrittenTerm) : ∀ name ∈ t.tree.names, name = "x" := by
  obtain ⟨negative, product⟩ := t
  rcases product with n | (_ | ⟨caret, k⟩) | ⟨n, (_ | ⟨caret, k⟩)⟩ <;> cases negative <;>
    simp [tree, WrittenPower.tree, Tree.names]

theorem termsTree_names (rest : List (Bool × WrittenTerm)) {a : Tree}
    (ha : ∀ name ∈ a.names, name = "x") : ∀ name ∈ (termsTree a rest).names, name = "x" := by
  induction rest generalizing a with
  | nil => exact ha
  | cons part rest ih =>
    obtain ⟨minus, t⟩ := part
    exact ih (List.forall_mem_append.2 ⟨ha, t.names⟩)

/-! ## Powers as they are written -/

/-- All powers of an expression are powers of the unknown, with exponents up to a hundred. -/
def SmallPowers (x : Expr) : Prop :=
  ∀ b e, Expr.IsIn (.pow b e) x → b = .sym "x" ∧ ∃ k : ℕ, k ≤ 100 ∧ e = .ofInt k

/-- What is written has only small powers of the unknown in it. -/
def Written.IsSmall (w : Written) : Prop := w.isAlgebraic ∧ ∃ x, w.expr? = some x ∧ SmallPowers x

theorem smallPowers_num (n : Number) : SmallPowers (.num n) := by
  intro b e h
  cases h

theorem smallPowers_sym (s : String) : SmallPowers (.sym s) := by
  intro b e h
  cases h

theorem smallPowers_sum {l : List Expr} : SmallPowers (.sum l) ↔ ∀ y ∈ l, SmallPowers y := by
  constructor
  · exact fun h y hy b e inside => h b e (.term hy inside)
  · intro h b e inside
    cases inside with
    | term hy inside => exact h _ hy b e inside

theorem smallPowers_prod {l : List Expr} : SmallPowers (.prod l) ↔ ∀ y ∈ l, SmallPowers y := by
  constructor
  · exact fun h y hy b e inside => h b e (.factor hy inside)
  · intro h b e inside
    cases inside with
    | factor hy inside => exact h _ hy b e inside

theorem smallPowers_scaled (n : Number) {y : Expr} (h : SmallPowers y) :
    SmallPowers (.prod [.num n, y]) :=
  smallPowers_prod.2 (List.forall_mem_cons.2 ⟨smallPowers_num n, List.forall_mem_singleton.2 h⟩)

theorem smallPowers_pow {k : ℕ} (h : k ≤ 100) : SmallPowers (.pow (.sym "x") (.ofInt k)) := by
  intro b e inside
  cases inside with
  | self => exact ⟨rfl, k, h, rfl⟩
  | base inside => cases inside
  | exponent inside => cases inside

theorem Written.IsSmall.terms {w : Written} (h : w.IsSmall) :
    ∃ l, w.terms? = some l ∧ ∀ y ∈ l, SmallPowers y := by
  obtain ⟨-, x, hx, small⟩ := h
  cases w with
  | sum l =>
    obtain rfl := Option.some.inj hx
    exact ⟨l, rfl, smallPowers_sum.1 small⟩
  | _ => exact ⟨[x], congrArg (Option.map ([·])) hx, by simpa using small⟩

theorem Written.IsSmall.factors {w : Written} (h : w.IsSmall) :
    ∃ l, w.factors? = some l ∧ ∀ y ∈ l, SmallPowers y := by
  obtain ⟨-, x, hx, small⟩ := h
  cases w with
  | product l =>
    obtain rfl := Option.some.inj hx
    exact ⟨l, rfl, smallPowers_prod.1 small⟩
  | _ => exact ⟨[x], congrArg (Option.map ([·])) hx, by simpa using small⟩

section Written

variable {symbols : List String}

theorem written_number (n : ℕ) :
    (Tree.whole (natText n)).written symbols = some (.other (.value (.ofInt n))) := by
  change ((Tree.whole (natText n)).meaning symbols).map Written.other = _
  rw [meaning_number]
  rfl

theorem written_unknown (h : UnknownOnly symbols) :
    (Tree.name "x").written symbols = some (.other (.value (.sym "x"))) := by
  change ((Tree.name "x").meaning symbols).map Written.other = _
  rw [meaning_unknown h]
  rfl

theorem UnknownOnly.free (h : UnknownOnly symbols) (o : BinaryOperator) :
    o.names.any symbols.contains = false := by
  cases o <;> simp [BinaryOperator.names, h.mem_iff]

/-- The tree is written with small powers of the unknown only. -/
def Tree.WritesSmall (symbols : List String) (t : Tree) : Prop :=
  ∃ w, t.written symbols = some w ∧ w.IsSmall

section Operations

variable {a b : Tree}

theorem Tree.WritesSmall.plus (h : UnknownOnly symbols) (ha : a.WritesSmall symbols)
    (hb : b.WritesSmall symbols) : (Tree.binary .plus a b).WritesSmall symbols := by
  obtain ⟨v, hv, vSmall⟩ := ha
  obtain ⟨w, hw, wSmall⟩ := hb
  obtain ⟨l, hl, lSmall⟩ := vSmall.terms
  obtain ⟨m, hm, mSmall⟩ := wSmall.terms
  refine ⟨.sum (l ++ m), ?_, rfl, _, rfl,
    smallPowers_sum.2 (List.forall_mem_append.2 ⟨lSmall, mSmall⟩)⟩
  simp [Tree.written, h.free .plus, hv, hw, hl, hm]

theorem Tree.WritesSmall.minus (h : UnknownOnly symbols) (ha : a.WritesSmall symbols)
    (hb : b.WritesSmall symbols) : (Tree.binary .minus a b).WritesSmall symbols := by
  obtain ⟨v, hv, vSmall⟩ := ha
  obtain ⟨w, hw, -, y, hy, ySmall⟩ := hb
  obtain ⟨l, hl, lSmall⟩ := vSmall.terms
  refine ⟨.sum (l ++ [.prod [.negOne, y]]), ?_, rfl, _, rfl,
    smallPowers_sum.2 (List.forall_mem_append.2 ⟨lSmall, ?_⟩)⟩
  · simp [Tree.written, h.free .minus, hv, hw, hl, hy]
  · exact List.forall_mem_singleton.2 (smallPowers_scaled _ ySmall)

theorem Tree.WritesSmall.times (h : UnknownOnly symbols) (ha : a.WritesSmall symbols)
    (hb : b.WritesSmall symbols) : (Tree.binary .times a b).WritesSmall symbols := by
  obtain ⟨v, hv, vSmall⟩ := ha
  obtain ⟨w, hw, wSmall⟩ := hb
  obtain ⟨l, hl, lSmall⟩ := vSmall.factors
  obtain ⟨m, hm, mSmall⟩ := wSmall.factors
  refine ⟨.product (l ++ m), ?_, rfl, _, rfl,
    smallPowers_prod.2 (List.forall_mem_append.2 ⟨lSmall, mSmall⟩)⟩
  simp [Tree.written, h.free .times, hv, hw, hl, hm]

theorem Tree.written_power (h : UnknownOnly symbols) {x y : Expr}
    (ha : a.written symbols = some (.other (.value x)))
    (hb : b.written symbols = some (.other (.value y))) :
    (Tree.binary .power a b).written symbols = some (.other (.value (.pow x y))) := by
  simp [Tree.written, h.free .power, ha, hb, Written.expr?]

/-- A value with small powers, with a sign before it or without one. -/
theorem Tree.writesSmall_signed {x : Expr} (negative : Bool)
    (ha : a.written symbols = some (.other (.value x))) (small : SmallPowers x)
    (negated : SmallPowers (Expr.neg x)) :
    (if negative then Tree.negative a else a).WritesSmall symbols := by
  cases negative with
  | false => exact ⟨_, ha, rfl, x, rfl, small⟩
  | true =>
    refine ⟨.other (.value (Expr.neg x)), ?_, rfl, _, rfl, negated⟩
    simp [Tree.written, ha, Written.expr?]

end Operations

theorem WrittenPower.written (h : UnknownOnly symbols) {p : WrittenPower}
    (small : p.exponent ≤ 100) :
    ∃ x, p.tree.written symbols = some (.other (.value x)) ∧ SmallPowers x ∧
      SmallPowers (Expr.neg x) := by
  cases p with
  | alone =>
    exact ⟨_, written_unknown h, smallPowers_sym _, smallPowers_scaled _ (smallPowers_sym _)⟩
  | raised caret k =>
    have power := smallPowers_pow small
    refine ⟨.pow (.sym "x") (.ofInt k), ?_, power, smallPowers_scaled _ power⟩
    exact Tree.written_power h (written_unknown h) (written_number k)

theorem WrittenTerm.writesSmall (h : UnknownOnly symbols) {t : WrittenTerm}
    (small : t.product.exponent ≤ 100) : t.tree.WritesSmall symbols := by
  obtain ⟨negative, product⟩ := t
  have number (n : ℕ) : (if negative then Tree.negative (.whole (natText n))
      else .whole (natText n)).WritesSmall symbols :=
    Tree.writesSmall_signed negative (written_number n) (smallPowers_num _) (smallPowers_num _)
  cases product with
  | number n => exact number n
  | power p =>
    obtain ⟨x, hx, xSmall, negated⟩ := WrittenPower.written h small
    exact Tree.writesSmall_signed negative hx xSmall negated
  | scaled n p =>
    obtain ⟨x, hx, xSmall, -⟩ := WrittenPower.written h small
    exact (number n).times h ⟨_, hx, rfl, x, rfl, xSmall⟩

theorem termsTree_writesSmall (h : UnknownOnly symbols) {rest : List (Bool × WrittenTerm)}
    (small : ∀ p ∈ rest, p.2.product.exponent ≤ 100) {a : Tree} (ha : a.WritesSmall symbols) :
    (termsTree a rest).WritesSmall symbols := by
  induction rest generalizing a with
  | nil => exact ha
  | cons part rest ih =>
    obtain ⟨minus, t⟩ := part
    obtain ⟨first, later⟩ := List.forall_mem_cons.1 small
    refine ih later ?_
    cases minus with
    | false => exact ha.plus h (WrittenTerm.writesSmall h first)
    | true => exact ha.minus h (WrittenTerm.writesSmall h first)

theorem WrittenSum.writesSmall (h : UnknownOnly symbols) {s : WrittenSum} (modest : s.IsModest) :
    s.tree.WritesSmall symbols := by
  obtain ⟨first, later⟩ := List.forall_mem_cons.1 modest
  refine termsTree_writesSmall h (fun p hp => ?_) (WrittenTerm.writesSmall h first.2)
  exact (later p.2 (List.mem_map_of_mem hp)).2

end Written

/-! ## The guard -/

theorem checkPower_small {k : ℕ} (h : k ≤ 100) : checkPower (.sym "x") (.ofInt k) = .ok () := by
  have all : ∀ k : Fin 101, (checkPower (.sym "x") (.ofInt (k : ℕ))).isOk = true := by
    decide
  have passes := all ⟨k, by omega⟩
  cases hk : checkPower (.sym "x") (.ofInt k) with
  | ok u => rfl
  | error f =>
    simp only [hk] at passes
    cases passes

theorem SmallPowers.checkPowers {x : Expr} (h : SmallPowers x) : checkPowers x = .ok () := by
  cases hx : Reckoner.checkPowers x with
  | ok u => rfl
  | error f =>
    obtain ⟨b, e, inside, fails⟩ := checkPowers_error hx
    obtain ⟨rfl, k, hk, rfl⟩ := h b e (Expr.isIn_of_mem_postorder inside)
    rw [checkPower_small hk] at fails
    cases fails

/-! ## Reading -/

theorem namesAmong_marksTokens (ms : List Mark) :
    ∀ name ∈ namesAmong (marksTokens ms), name = "Integer" ∨ name = "x" := by
  induction ms with
  | nil => simp [marksTokens]
  | cons m ms ih =>
    rw [marksTokens_cons, namesAmong_append]
    refine List.forall_mem_append.2 ⟨?_, ih⟩
    cases m <;> simp [Mark.tokens]

namespace WrittenSum

variable {s : WrittenSum} {text : String}

theorem parseTree_shows {symbols : List String} (h : UnknownOnly symbols) (shows : s.Shows text) :
    parseTree symbols text = some s.tree := by
  obtain ⟨l, marks, rfl⟩ := shows
  have spread : Spread l := by
    rw [Spread, marks]
    exact s.marks_spread
  have tokens : l.flatMap (fun p => p.2.tokens) ++ [.finish, .finish] = marksTokens s.marks := by
    rw [marksTokens, ← marks, List.flatMap_map]
  have whole : splitNames symbols (marksTokens s.marks) [] ⟨false, false⟩ =
      some (marksTokens s.marks) := by
    refine splitNames_of_no_word fun name hname => ?_
    rcases namesAmong_marksTokens s.marks name hname with rfl | rfl <;> decide
  unfold parseTree
  rw [tokensOf_marksText spread, tokens]
  dsimp only [Option.bind_eq_bind, Option.bind_some]
  rw [whole, Option.bind_some, completeTokens_marks _ _ s.marks_spread, Option.bind_some,
    s.treeOf_marks]
  · simp [callablesFor, h.mem_iff]
  · simp [callablesFor, h.mem_iff]

theorem Shows.namesOutcome (shows : s.Shows text) (short : text.length ≤ 500) :
    ∃ names, namesOutcome text ["x"] = .ok names ∧ ∀ name ∈ names, name = "x" := by
  obtain ⟨l, marks, rfl⟩ := shows
  have spread : Spread l := by
    rw [Spread, marks]
    exact s.marks_spread
  have some : l ≠ [] := by
    rintro rfl
    exact s.marks_ne_nil marks.symm
  obtain ⟨names, hnames, unknown⟩ := symbolNames_marksText spread (by simpa using short)
  refine ⟨names, ?_, unknown⟩
  have name : ["x"].find? (fun name => !isName name.toList) = none := by decide
  unfold Reckoner.namesOutcome
  rw [name]
  dsimp only
  rw [if_neg, hnames]
  simpa using stripBlank_marksText_ne_nil spread some

/-- A text that shows a sum is read as its polynomial. -/
theorem readExpression_shows (shows : s.Shows text) (modest : s.IsModest)
    (short : text.length ≤ 500) :
    readExpression text ["x"] = .ok (Expr.ofPolynomial "x" s.polynomial) := by
  obtain ⟨names, hnames, unknown⟩ := shows.namesOutcome short
  have only : UnknownOnly (names ++ ["x"]) :=
    ⟨by simp, List.forall_mem_append.2 ⟨unknown, by simp⟩⟩
  have parsed : treeOutcome (names ++ ["x"]) text = .ok s.tree := by
    rw [treeOutcome, parseTree_shows only shows]
  obtain ⟨w, hw, algebraic, x, hx, small⟩ := s.writesSmall only modest
  have written : s.tree.writtenOutcome (names ++ ["x"]) text = .ok x := by
    simp [Tree.writtenOutcome, hw, algebraic, hx]
  have truths : checkTruths (names ++ ["x"]) s.tree = .ok () := by
    refine checkTruths_of_no_truth fun name hname => ?_
    rw [termsTree_names s.rest s.first.names name hname]
    rfl
  have meaning : s.tree.meaningOutcome (names ++ ["x"]) text =
      .ok (Expr.ofPolynomial "x" s.polynomial) := by
    rw [Tree.meaningOutcome, s.meaning only]
  rw [readExpression_eq, hnames, ok_bind, parsed, ok_bind, workOut_eq, written, ok_bind, truths,
    ok_bind, small.checkPowers, ok_bind, meaning]

end WrittenSum

end Reckoner
