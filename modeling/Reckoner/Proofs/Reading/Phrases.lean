-- Texts that leave nothing out: sums of products of powers, where a sign stands before the first
-- factor of a sum only. Such a text is read as the tree that it shows.
import Mathlib
import Reckoner.Proofs.Algebra.Denotation
import Reckoner.Proofs.Reading.Completing
import Reckoner.Proofs.Reading.SameNames

namespace Reckoner

/-! ## Phrases -/

/-- What a phrase can be a part of: each kind of phrase is also one of the next kind. -/
inductive Level where
  | atom | power | product | sum
deriving DecidableEq

/-- A phrase of arithmetic. A sum may have a sign before its first product. -/
inductive Phrase : Level → Type where
  | number (n : ℕ) : Phrase .atom
  | letter (c : Char) (h : isAsciiLetter c = true) : Phrase .atom
  | pi : Phrase .atom
  | call (f : String) (g : Option Fn) (h : functionOf? f = some g) (a : Phrase .sum) : Phrase .atom
  | brackets (a : Phrase .sum) : Phrase .atom
  | alone (a : Phrase .atom) : Phrase .power
  | raised (b e : Phrase .atom) : Phrase .power
  | factor (p : Phrase .power) : Phrase .product
  | times (a : Phrase .product) (b : Phrase .power) : Phrase .product
  | over (a : Phrase .product) (b : Phrase .power) : Phrase .product
  | term (negative : Bool) (a : Phrase .product) : Phrase .sum
  | plus (a : Phrase .sum) (b : Phrase .product) : Phrase .sum
  | minus (a : Phrase .sum) (b : Phrase .product) : Phrase .sum

namespace Phrase

variable {l : Level}

/-- The characters of a phrase. A sign of a sum has spaces around it. -/
def chars : {l : Level} → Phrase l → List Char
  | _, number n => digitsOf n
  | _, letter c _ => [c]
  | _, pi => ['p', 'i']
  | _, call f _ _ a => f.toList ++ '(' :: (a.chars ++ [')'])
  | _, brackets a => '(' :: (a.chars ++ [')'])
  | _, alone a => a.chars
  | _, raised b e => b.chars ++ '*' :: '*' :: e.chars
  | _, factor p => p.chars
  | _, times a b => a.chars ++ '*' :: b.chars
  | _, .over a b => a.chars ++ '/' :: b.chars
  | _, term negative a => (if negative then ['-'] else []) ++ a.chars
  | _, plus a b => a.chars ++ ' ' :: '+' :: ' ' :: b.chars
  | _, minus a b => a.chars ++ ' ' :: '-' :: ' ' :: b.chars

/-- The words of a phrase. -/
def words : {l : Level} → Phrase l → List Word
  | _, number n => [.number n]
  | _, letter c _ => [.name [c]]
  | _, pi => [.name ['p', 'i']]
  | _, call f _ _ a => .name f.toList :: .sign .opening :: (a.words ++ [.sign .closing])
  | _, brackets a => .sign .opening :: (a.words ++ [.sign .closing])
  | _, alone a => a.words
  | _, raised b e => b.words ++ .sign .power :: e.words
  | _, factor p => p.words
  | _, times a b => a.words ++ .sign .times :: b.words
  | _, .over a b => a.words ++ .sign .over :: b.words
  | _, term negative a => (if negative then [.sign .minus] else []) ++ a.words
  | _, plus a b => a.words ++ .sign .plus :: b.words
  | _, minus a b => a.words ++ .sign .minus :: b.words

/-- The tokens of a phrase. -/
def tokens (p : Phrase l) : List Token := p.words.flatMap Word.tokens

/-- The tree of a phrase. A sign before a product is a sign before its first factor. -/
def tree (negative : Bool) : {l : Level} → Phrase l → Tree
  | _, number n => .whole (natText n)
  | _, letter c _ => .name (String.ofList [c])
  | _, pi => .name "pi"
  | _, call f _ _ a => .call f (a.tree false)
  | _, brackets a => a.tree false
  | _, alone a => a.tree false
  | _, raised b e => .binary .power (b.tree false) (e.tree false)
  | _, factor p => if negative then .negative (p.tree false) else p.tree false
  | _, times a b => .binary .times (a.tree negative) (b.tree false)
  | _, .over a b => .binary .over (a.tree negative) (b.tree false)
  | _, term sign a => a.tree sign
  | _, plus a b => .binary .plus (a.tree false) (b.tree false)
  | _, minus a b => .binary .minus (a.tree false) (b.tree false)

/-- The letters in a phrase. -/
def letters : {l : Level} → Phrase l → List String
  | _, letter c _ => [String.ofList [c]]
  | _, number _ | _, pi => []
  | _, call _ _ _ a | _, brackets a => a.letters
  | _, alone a => a.letters
  | _, raised a b => a.letters ++ b.letters
  | _, factor p => p.letters
  | _, times a b | _, .over a b => a.letters ++ b.letters
  | _, term _ a => a.letters
  | _, plus a b | _, minus a b => a.letters ++ b.letters

/-- How deep brackets nest in the tokens of a phrase, those of a number among them. -/
def depth : {l : Level} → Phrase l → ℕ
  | _, number _ => 1
  | _, letter _ _ | _, pi => 0
  | _, call _ _ _ a | _, brackets a => a.depth + 1
  | _, alone a => a.depth
  | _, raised a b => max a.depth b.depth
  | _, factor p => p.depth
  | _, times a b | _, .over a b => max a.depth b.depth
  | _, term _ a => a.depth
  | _, plus a b | _, minus a b => max a.depth b.depth

/-- The value of a phrase. -/
def value {K : Type} [Field K] (I : Interpretation K) : {l : Level} → Phrase l → K
  | _, number n => n
  | _, letter c _ => I.symbol (String.ofList [c])
  | _, pi => I.constant .pi
  | _, call _ g _ a => I.applied g (a.value I)
  | _, brackets a => a.value I
  | _, alone a => a.value I
  | _, raised b e => I.power (b.value I) (e.value I)
  | _, factor p => p.value I
  | _, times a b => a.value I * b.value I
  | _, .over a b => a.value I / b.value I
  | _, term negative a => if negative then -a.value I else a.value I
  | _, plus a b => a.value I + b.value I
  | _, minus a b => a.value I - b.value I

/-! ## Words -/

/-- With some spaces the words have these characters. -/
def Spells (ws : List Word) (s : List Char) : Prop :=
  ∃ l : List (ℕ × Word), l.map Prod.snd = ws ∧ wordsText l = s

theorem Spells.word (n : ℕ) (w : Word) : Spells [w] (List.replicate n ' ' ++ w.chars) :=
  ⟨[(n, w)], rfl, by simp [wordsText]⟩

theorem Spells.append {ws vs : List Word} {s t : List Char} (hw : Spells ws s) (hv : Spells vs t) :
    Spells (ws ++ vs) (s ++ t) := by
  obtain ⟨l, rfl, rfl⟩ := hw
  obtain ⟨m, rfl, rfl⟩ := hv
  exact ⟨l ++ m, by simp, by simp [wordsText]⟩

/-- A phrase has the characters of its words, with spaces before some of them. -/
theorem spells (p : Phrase l) (n : ℕ) : Spells p.words (List.replicate n ' ' ++ p.chars) := by
  have sign (o : Operator) (n : ℕ) := Spells.word n (.sign o)
  induction p generalizing n with
  | number k => exact Spells.word n (.number k)
  | letter c h => exact Spells.word n (.name [c])
  | pi => exact Spells.word n (.name ['p', 'i'])
  | call f g h a ih =>
    simpa [words, chars, Operator.chars, Word.chars] using
      (Spells.word n (.name f.toList)).append
        ((sign .opening 0).append ((ih 0).append (sign .closing 0)))
  | brackets a ih =>
    simpa [words, chars, Operator.chars, Word.chars] using
      (sign .opening n).append ((ih 0).append (sign .closing 0))
  | alone a ih => exact ih n
  | raised b e ihb ihe =>
    simpa [words, chars, Operator.chars, Word.chars] using
      (ihb n).append ((sign .power 0).append (ihe 0))
  | factor p ih => exact ih n
  | times a b iha ihb =>
    simpa [words, chars, Operator.chars, Word.chars] using
      (iha n).append ((sign .times 0).append (ihb 0))
  | «over» a b iha ihb =>
    simpa [words, chars, Operator.chars, Word.chars] using
      (iha n).append ((sign .over 0).append (ihb 0))
  | term negative a ih =>
    cases negative with
    | false => exact ih n
    | true =>
      simpa [words, chars, Operator.chars, Word.chars] using (sign .minus n).append (ih 0)
  | plus a b iha ihb =>
    simpa [words, chars, Operator.chars, Word.chars] using
      (iha n).append ((sign .plus 1).append (ihb 1))
  | minus a b iha ihb =>
    simpa [words, chars, Operator.chars, Word.chars] using
      (iha n).append ((sign .minus 1).append (ihb 1))

end Phrase

/-! ## Names -/

/-- All symbols are single letters. -/
def SingleLetters (symbols : List String) : Prop :=
  ∀ s ∈ symbols, ∃ c, isAsciiLetter c = true ∧ s = String.ofList [c]

section Names

variable {symbols : List String}

theorem SingleLetters.not_mem (h : SingleLetters symbols) {s : String} (hs : s.length ≠ 1) :
    s ∉ symbols := by
  intro hmem
  obtain ⟨c, -, rfl⟩ := h s hmem
  simp at hs

theorem functionNames_all {p : String → Bool} (h : functionNames.all p = true) {f : String}
    {g : Option Fn} (hf : functionOf? f = some g) : p f = true :=
  List.all_eq_true.1 h f (mem_functionNames_iff.2 (by simp [hf]))

theorem SingleLetters.callable_number (h : SingleLetters symbols) :
    (callablesFor symbols).isCallable "Integer" = true := by
  have free : "Integer" ∉ symbols := h.not_mem (by decide)
  simp [callablesFor, free]

theorem SingleLetters.not_mem_function (h : SingleLetters symbols) {f : String} {g : Option Fn}
    (hf : functionOf? f = some g) : f ∉ symbols := by
  have long : functionNames.all (fun f => f.length != 1) = true := by decide
  exact h.not_mem (by simpa using functionNames_all long hf)

theorem SingleLetters.callable_function (h : SingleLetters symbols) {f : String} {g : Option Fn}
    (hf : functionOf? f = some g) : (callablesFor symbols).isCallable f = true := by
  simp [callablesFor, h.not_mem_function hf, hf]

theorem callable_letter (symbols : List String) {c : Char} (hc : isAsciiLetter c = true) :
    (callablesFor symbols).isCallable (String.ofList [c]) = false := by
  have table : alphabet.all (fun c => !(decide (String.ofList [c] = "Integer") ||
      decide (String.ofList [c] = "Float") || (functionOf? (String.ofList [c])).isSome)) = true := by
    rfl
  exact Bool.and_eq_false_iff.2 (.inr (by simpa only [Bool.not_eq_true'] using of_alphabet table hc))

theorem callable_pi (symbols : List String) :
    (callablesFor symbols).isCallable "pi" = false := by simp [callablesFor, functionOf?]

end Names

/-! ## Completeness -/

/-- Words that leave nothing out, with brackets in pairs, from the beginning of an operand or its sign
up to the end of one. -/
structure WholeWords (calls : Callables) (ws : List Word) : Prop where
  follow : ws.IsChain (Word.Follows calls)
  first : ∃ w ∈ ws.head?, w.opens = true ∨ w = .sign .minus
  last : ∃ w ∈ ws.getLast?, w.closes calls = true
  balanced : Balanced (ws.flatMap Word.tokens)
  allowed : ∀ w ∈ ws, w.Allowed []

namespace WholeWords

variable {calls : Callables} {ws vs : List Word} {o : Operator}

theorem sign_follows {b : Word} (ho : o ≠ .closing) (h : b.opens = true ∨ b = .sign .minus) :
    (Word.sign o).Follows calls b := by
  refine ⟨?_, (fun _ no => by cases no), fun closes => absurd (by simpa [Word.closes] using closes) ho⟩
  cases o with
  | times | «over» =>
    rcases h with h | rfl
    · constructor <;> (rintro rfl; cases h)
    · constructor <;> simp
  | _ => simp [Word.Apart, Word.isOperand]

theorem follows_sign {a : Word} (ho : o ≠ .opening) (h : a.closes calls = true) :
    a.Follows calls (.sign o) := by
  refine ⟨?_, fun s hs known => ?_, fun _ => by simpa [Word.opens] using ho⟩
  · cases a with
    | sign o' =>
      obtain rfl : o' = .closing := by simpa [Word.closes] using h
      simp [Word.Apart, Word.isOperand]
    | _ => simp [Word.Apart, Word.isOperand]
  · subst hs
    simp [Word.closes, known] at h

theorem single {w : Word} (opens : w.opens = true) (closes : w.closes calls = true)
    (balanced : Balanced w.tokens) (allowed : w.Allowed []) : WholeWords calls [w] where
  follow := List.isChain_singleton w
  first := ⟨w, rfl, .inl opens⟩
  last := ⟨w, rfl, closes⟩
  balanced := by simpa using balanced
  allowed := List.forall_mem_singleton.2 allowed

theorem ne_nil (h : WholeWords calls ws) : ws ≠ [] := by
  rintro rfl
  obtain ⟨w, hw, -⟩ := h.first
  cases hw

/-- A sign between two operands. -/
theorem joined (hw : WholeWords calls ws) (hv : WholeWords calls vs) (opening : o ≠ .opening)
    (closing : o ≠ .closing) : WholeWords calls (ws ++ .sign o :: vs) where
  follow := by
    refine List.isChain_append.2 ⟨hw.follow, List.isChain_cons.2 ⟨fun b hb => ?_, hv.follow⟩, ?_⟩
    · obtain ⟨w, first, begins⟩ := hv.first
      obtain rfl := Option.mem_unique first hb
      exact sign_follows closing begins
    · intro a ha b hb
      obtain ⟨w, last, ends⟩ := hw.last
      obtain rfl := Option.mem_unique last ha
      obtain rfl : .sign o = b := Option.some.inj hb
      exact follows_sign opening ends
  first := by rw [List.head?_append_of_ne_nil _ hw.ne_nil]; exact hw.first
  last := by
    rw [List.getLast?_append_of_ne_nil _ (List.cons_ne_nil _ _), List.getLast?_cons_of_ne_nil hv.ne_nil]
    exact hv.last
  balanced := by
    rw [List.flatMap_append, List.flatMap_cons]
    refine hw.balanced.append (Balanced.append ?_ hv.balanced)
    exact balanced_token (by simpa using opening) (by simpa using closing)
  allowed := List.forall_mem_append.2 ⟨hw.allowed, List.forall_mem_cons.2 ⟨trivial, hv.allowed⟩⟩

/-- A sign before an operand. -/
theorem negated (h : WholeWords calls ws) : WholeWords calls (.sign .minus :: ws) where
  follow := by
    refine List.isChain_cons.2 ⟨fun b hb => ?_, h.follow⟩
    obtain ⟨w, first, begins⟩ := h.first
    obtain rfl := Option.mem_unique first hb
    exact sign_follows (by decide) begins
  first := ⟨_, rfl, .inr rfl⟩
  last := by rw [List.getLast?_cons_of_ne_nil h.ne_nil]; exact h.last
  balanced := (balanced_token (by simp) (by simp)).append h.balanced
  allowed := List.forall_mem_cons.2 ⟨trivial, h.allowed⟩

theorem bracketed (h : WholeWords calls ws) :
    WholeWords calls (.sign .opening :: (ws ++ [.sign .closing])) where
  follow := by
    obtain ⟨w, first, begins⟩ := h.first
    refine List.isChain_cons.2 ⟨fun b hb => ?_, List.isChain_append.2
      ⟨h.follow, List.isChain_singleton _, fun a ha b hb => ?_⟩⟩
    · rw [List.head?_append_of_ne_nil _ h.ne_nil] at hb
      obtain rfl := Option.mem_unique first hb
      exact sign_follows (by decide) begins
    · obtain ⟨v, last, ends⟩ := h.last
      obtain rfl := Option.mem_unique last ha
      obtain rfl : .sign .closing = b := Option.some.inj hb
      exact follows_sign (by decide) ends
  first := ⟨_, rfl, .inl rfl⟩
  last := ⟨.sign .closing, by rw [← List.cons_append, List.getLast?_concat]; rfl, rfl⟩
  balanced := by simpa [Word.tokens] using h.balanced.brackets
  allowed := List.forall_mem_cons.2 ⟨trivial, List.forall_mem_append.2
    ⟨h.allowed, List.forall_mem_singleton.2 trivial⟩⟩

/-- A function before brackets. -/
theorem called {s : List Char} (h : WholeWords calls (.sign .opening :: vs))
    (known : calls.isCallable (String.ofList s) = true) (allowed : (Word.name s).Allowed []) :
    WholeWords calls (.name s :: .sign .opening :: vs) where
  follow := by
    refine List.isChain_cons_cons.2 ⟨⟨?_, fun _ _ _ => rfl, fun closes => ?_⟩, h.follow⟩
    · simp [Word.Apart, Word.isOperand]
    · simp [Word.closes, known] at closes
  first := ⟨_, rfl, .inl rfl⟩
  last := by rw [List.getLast?_cons_cons]; exact h.last
  balanced := (balanced_token (by simp) (by simp)).append h.balanced
  allowed := List.forall_mem_cons.2 ⟨allowed, h.allowed⟩

end WholeWords

namespace Phrase

variable {l : Level} {symbols : List String}

theorem allowed_function {f : String} {g : Option Fn} (hf : functionOf? f = some g) :
    (Word.name f.toList).Allowed [] := by
  have names : functionNames.all (fun f => isName f.toList && isKnownName f) = true := by decide
  have name := functionNames_all names hf
  rw [Bool.and_eq_true] at name
  exact ⟨name.1, .inl (by rw [String.ofList_toList]; exact name.2)⟩

theorem wholeWords (single : SingleLetters symbols) (p : Phrase l) :
    WholeWords (callablesFor symbols) p.words := by
  induction p with
  | number n =>
    refine .single rfl rfl ?_ trivial
    exact (balanced_token (t := .name "Integer") (by simp) (by simp)).append
      (balanced_token (t := .literal (natText n)) (by simp) (by simp)).brackets
  | letter c h =>
    refine .single rfl ?_ (balanced_token (by simp) (by simp)) ⟨?_, .inr (.inr rfl)⟩
    · simp only [Word.closes, callable_letter symbols h, Bool.not_false]
    · simp [isName, h]
  | pi =>
    refine .single rfl ?_ (balanced_token (by simp) (by simp)) ⟨rfl, .inl (by decide)⟩
    exact congrArg Bool.not (callable_pi symbols)
  | call f g h a ih =>
    refine ih.bracketed.called ?_ (allowed_function h)
    rw [String.ofList_toList]
    exact single.callable_function h
  | brackets a ih => exact ih.bracketed
  | alone a ih => exact ih
  | raised b e ihb ihe => exact ihb.joined ihe (by decide) (by decide)
  | factor p ih => exact ih
  | times a b iha ihb => exact iha.joined ihb (by decide) (by decide)
  | «over» a b iha ihb => exact iha.joined ihb (by decide) (by decide)
  | term negative a ih =>
    cases negative with
    | false => exact ih
    | true => exact ih.negated
  | plus a b iha ihb => exact iha.joined ihb (by decide) (by decide)
  | minus a b iha ihb => exact iha.joined ihb (by decide) (by decide)

/-- The first reading finds the letters. -/
theorem symbols_words (p : Phrase l) : p.words.flatMap Word.symbols = p.letters := by
  have known : functionNames.all isKnownName = true := by decide
  have letter : ∀ {c : Char}, isAsciiLetter c = true →
      (Word.name [c]).symbols = [String.ofList [c]] := by
    intro c hc
    have table : alphabet.all (fun c => !isKnownName (String.ofList [c])) = true := rfl
    simp only [Word.symbols, by simpa only [Bool.not_eq_true'] using of_alphabet table hc]
    rfl
  induction p with
  | number n => rfl
  | letter c h => simpa [words, letters] using letter h
  | pi => decide
  | call f g h a ih => simpa [words, letters, functionNames_all known h, Word.symbols] using ih
  | brackets a ih => simpa [words, letters, Word.symbols] using ih
  | alone a ih => exact ih
  | raised a b iha ihb => simp [words, letters, Word.symbols, iha, ihb]
  | factor p ih => exact ih
  | times a b iha ihb | «over» a b iha ihb => simp [words, letters, Word.symbols, iha, ihb]
  | term negative a ih => cases negative <;> simpa [words, letters, Word.symbols] using ih
  | plus a b iha ihb | minus a b iha ihb => simp [words, letters, Word.symbols, iha, ihb]

/-! ## Tokens -/

@[simp]
theorem tokens_number (n : ℕ) : (number n).tokens =
    [.name "Integer", .op .opening, .literal (natText n), .op .closing] := rfl

@[simp]
theorem tokens_letter (c : Char) (h : isAsciiLetter c = true) :
    (letter c h).tokens = [.name (String.ofList [c])] := rfl

@[simp]
theorem tokens_pi : pi.tokens = [.name "pi"] := rfl

@[simp]
theorem tokens_call (f : String) (g : Option Fn) (h : functionOf? f = some g) (a : Phrase .sum) :
    (call f g h a).tokens = .name f :: .op .opening :: (a.tokens ++ [.op .closing]) := by
  simp [tokens, words, Word.tokens]

@[simp]
theorem tokens_brackets (a : Phrase .sum) :
    (brackets a).tokens = .op .opening :: (a.tokens ++ [.op .closing]) := by
  simp [tokens, words, Word.tokens]

@[simp]
theorem tokens_alone (a : Phrase .atom) : (alone a).tokens = a.tokens := rfl

@[simp]
theorem tokens_raised (b e : Phrase .atom) :
    (raised b e).tokens = b.tokens ++ .op .power :: e.tokens := by
  simp [tokens, words, Word.tokens]

@[simp]
theorem tokens_factor (p : Phrase .power) : (factor p).tokens = p.tokens := rfl

@[simp]
theorem tokens_times (a : Phrase .product) (b : Phrase .power) :
    (times a b).tokens = a.tokens ++ .op .times :: b.tokens := by
  simp [tokens, words, Word.tokens]

@[simp]
theorem tokens_over (a : Phrase .product) (b : Phrase .power) :
    (Phrase.over a b).tokens = a.tokens ++ .op .over :: b.tokens := by
  simp [tokens, words, Word.tokens]

/-- The token of a sign, where there is one. -/
def signTokens (negative : Bool) : List Token := if negative then [.op .minus] else []

@[simp]
theorem tokens_term (negative : Bool) (a : Phrase .product) :
    (term negative a).tokens = signTokens negative ++ a.tokens := by
  cases negative <;> rfl

@[simp]
theorem tokens_plus (a : Phrase .sum) (b : Phrase .product) :
    (plus a b).tokens = a.tokens ++ .op .plus :: b.tokens := by
  simp [tokens, words, Word.tokens]

@[simp]
theorem tokens_minus (a : Phrase .sum) (b : Phrase .product) :
    (minus a b).tokens = a.tokens ++ .op .minus :: b.tokens := by
  simp [tokens, words, Word.tokens]

/-! ## Nesting -/

/-- Behind a phrase as many brackets are open as before it. -/
theorem nestsWithin_tokens (p : Phrase l) {rest : List Token} {before : ℕ}
    (h : before + p.depth ≤ maxDepth) :
    nestsWithin (p.tokens ++ rest) before = nestsWithin rest before := by
  induction p generalizing rest before with
  | number n =>
    have room : before < maxDepth := h
    simp [nestsWithin, room]
  | letter c _ | pi => simp [nestsWithin]
  | call f g _ a ih | brackets a ih =>
    rw [depth] at h
    have room : before < maxDepth := by omega
    have inside := @ih (.op .closing :: rest) (before + 1) (by omega)
    simp [nestsWithin, room, inside]
  | alone a ih | factor a ih => exact ih h
  | raised a b iha ihb | times a b iha ihb | «over» a b iha ihb | plus a b iha ihb
  | minus a b iha ihb =>
    rw [depth] at h
    simp [nestsWithin, iha (show before + a.depth ≤ maxDepth by omega),
      ihb (show before + b.depth ≤ maxDepth by omega)]
  | term negative a ih => cases negative <;> simpa [nestsWithin, signTokens] using ih h

/-! ## Trees -/

/-- What follows begins with none of the signs. -/
def Ends (signs : List Operator) (rest : List Token) : Prop :=
  ∀ o ∈ signs, rest.head? ≠ some (.op o)

/-- The signs that go on with a phrase. -/
def goesOn : Level → List Operator
  | .atom => [.opening]
  | .power => [.opening, .power]
  | .product => [.opening, .power, .times, .over, .wholeOver]
  | .sum => [.opening, .power, .times, .over, .wholeOver, .plus, .minus]

theorem Ends.mono {signs more : List Operator} {rest : List Token} (h : Ends signs rest)
    (less : more ⊆ signs) : Ends more rest := fun o ho => h o (less ho)

theorem ends_op {signs : List Operator} {o : Operator} (h : o ∉ signs) (rest : List Token) :
    Ends signs (.op o :: rest) := by
  rintro o' ho same
  obtain rfl := Token.op.inj (Option.some.inj same)
  exact h ho

/-- A phrase that is no sum begins with a name or a bracket. -/
theorem first_token (p : Phrase l) (h : l ≠ .sum) :
    ∃ t ts, p.tokens = t :: ts ∧ ((∃ s, t = .name s) ∨ t = .op .opening) := by
  induction p with
  | number n | letter c _ | pi => exact ⟨_, _, rfl, .inl ⟨_, rfl⟩⟩
  | call f g _ a => exact ⟨_, _, tokens_call .., .inl ⟨_, rfl⟩⟩
  | brackets a => exact ⟨_, _, tokens_brackets a, .inr rfl⟩
  | alone a ih | factor a ih => exact ih (by decide)
  | raised a b ih _ =>
    obtain ⟨t, ts, first, kind⟩ := ih (by decide)
    exact ⟨t, _, by rw [tokens_raised, first, List.cons_append], kind⟩
  | times a b ih _ =>
    obtain ⟨t, ts, first, kind⟩ := ih (by decide)
    exact ⟨t, _, by rw [tokens_times, first, List.cons_append], kind⟩
  | «over» a b ih _ =>
    obtain ⟨t, ts, first, kind⟩ := ih (by decide)
    exact ⟨t, _, by rw [tokens_over, first, List.cons_append], kind⟩
  | term | plus | minus => exact absurd rfl h

theorem head_ne_closing : ∀ (p : Phrase .sum) (rest : List Token),
    (p.tokens ++ rest).head? ≠ some (.op .closing)
  | term negative a, rest => by
    obtain ⟨t, ts, first, kind⟩ := a.first_token (by decide)
    cases negative
    · rw [tokens_term, first]
      rcases kind with ⟨s, rfl⟩ | rfl <;> simp [signTokens]
    · simp [signTokens]
  | plus a b, rest => by
    rw [tokens_plus, List.append_assoc]
    exact head_ne_closing a _
  | minus a b, rest => by
    rw [tokens_minus, List.append_assoc]
    exact head_ne_closing a _

theorem length_pos (p : Phrase l) : 0 < p.tokens.length := by
  induction p with
  | number n | letter c _ | pi => exact Nat.succ_pos _
  | alone a ih | factor a ih => exact ih
  | _ => simp only [tokens_call, tokens_brackets, tokens_raised, tokens_times, tokens_over, tokens_term,
      tokens_plus, tokens_minus, List.length_append, List.length_cons]; omega

section Stages

variable {fuel : ℕ} {a : Tree} {rest : List Token}

theorem readStage_productRest_end (h : Ends (goesOn .product) rest) :
    readStage (fuel + 1) (.productRest a) rest = some (a, rest) := by
  match rest with
  | .op .times :: rest => exact absurd rfl (h .times (by simp [goesOn]))
  | .op .over :: rest => exact absurd rfl (h .over (by simp [goesOn]))
  | .op .wholeOver :: rest => exact absurd rfl (h .wholeOver (by simp [goesOn]))
  | [] | .name _ :: _ | .literal _ :: _ | .newline :: _ | .finish :: _ | .op .plus :: _
  | .op .minus :: _ | .op .power :: _ | .op .caret :: _ | .op .opening :: _ | .op .closing :: _ => rfl

theorem readStage_sumRest_end (h : Ends (goesOn .sum) rest) :
    readStage (fuel + 1) (.sumRest a) rest = some (a, rest) := by
  match rest with
  | .op .plus :: rest => exact absurd rfl (h .plus (by simp [goesOn]))
  | .op .minus :: rest => exact absurd rfl (h .minus (by simp [goesOn]))
  | [] | .name _ :: _ | .literal _ :: _ | .newline :: _ | .finish :: _ | .op .times :: _
  | .op .over :: _ | .op .wholeOver :: _ | .op .power :: _ | .op .caret :: _ | .op .opening :: _
  | .op .closing :: _ => rfl

theorem readStage_power_alone {tokens : List Token} (h : rest.head? ≠ some (.op .power))
    (atom : readStage fuel .atom tokens = some (a, rest)) :
    readStage (fuel + 1) .power tokens = some (a, rest) := by
  change (readStage fuel .atom tokens).bind _ = _
  rw [atom, Option.bind_some]
  dsimp only
  split
  · exact absurd rfl h
  · rfl

end Stages

/-- The phrase is read as its tree, whatever follows that does not go on with it. Where products and
sums go on, what is read of the rest is what they go on with. -/
def Reads : {l : Level} → Phrase l → Prop
  | .atom, p => ∀ fuel rest, Ends (goesOn .atom) rest → 8 * p.tokens.length ≤ fuel + 7 →
      readStage fuel .atom (p.tokens ++ rest) = some (p.tree false, rest)
  | .power, p => ∀ fuel rest, Ends (goesOn .power) rest → 8 * p.tokens.length ≤ fuel + 6 →
      readStage fuel .power (p.tokens ++ rest) = some (p.tree false, rest)
  | .product, p => ∀ negative fuel rest out, Ends (goesOn .power) rest →
      8 * p.tokens.length ≤ fuel + 3 →
      (∀ left, fuel ≤ left + p.tokens.length →
        readStage left (.productRest (p.tree negative)) rest = out) →
      readStage fuel .product (signTokens negative ++ (p.tokens ++ rest)) = out
  | .sum, p => ∀ fuel rest out, Ends (goesOn .product) rest → 8 * p.tokens.length ≤ fuel + 2 →
      (∀ left, fuel ≤ left + p.tokens.length →
        readStage left (.sumRest (p.tree false)) rest = out) →
      readStage fuel .sum (p.tokens ++ rest) = out

section Steps

variable {fuel : ℕ} {rest : List Token}

theorem readStage_name (s : String) (ends : Ends (goesOn .atom) rest) :
    readStage (fuel + 1) .atom (.name s :: rest) = some (.name s, rest) := by
  match rest with
  | .op .opening :: rest => exact absurd rfl (ends .opening (by simp [goesOn]))
  | [] | .name _ :: _ | .literal _ :: _ | .newline :: _ | .finish :: _ | .op .plus :: _
  | .op .minus :: _ | .op .times :: _ | .op .over :: _ | .op .wholeOver :: _ | .op .power :: _
  | .op .caret :: _ | .op .closing :: _ => rfl

/-- A phrase that is no sum has no sign before it. -/
theorem readStage_signed (p : Phrase l) (h : l ≠ .sum) :
    readStage (fuel + 1) .signed (p.tokens ++ rest) = readStage fuel .power (p.tokens ++ rest) := by
  obtain ⟨t, ts, first, kind⟩ := p.first_token h
  rw [first]
  rcases kind with ⟨s, rfl⟩ | rfl <;> rfl

/-- A product is read up to the end of it. -/
theorem Reads.product {p : Phrase .product} (h : p.Reads) (negative : Bool)
    (ends : Ends (goesOn .product) rest) (enough : 8 * p.tokens.length ≤ fuel + 3) :
    readStage fuel .product (signTokens negative ++ (p.tokens ++ rest)) =
      some (p.tree negative, rest) := by
  refine h negative fuel rest _ (ends.mono (by simp [goesOn])) enough fun left more => ?_
  have some := p.length_pos
  obtain ⟨left, rfl⟩ : ∃ k, left = k + 1 := ⟨left - 1, by omega⟩
  exact readStage_productRest_end ends

/-- A sum in brackets is read up to the closing one. -/
theorem Reads.inside {p : Phrase .sum} (h : p.Reads) (enough : 8 * p.tokens.length ≤ fuel + 2) :
    readStage fuel .sum (p.tokens ++ .op .closing :: rest) =
      some (p.tree false, .op .closing :: rest) := by
  refine h fuel _ _ (ends_op (by decide) rest) enough fun left more => ?_
  have some := p.length_pos
  obtain ⟨left, rfl⟩ : ∃ k, left = k + 1 := ⟨left - 1, by omega⟩
  exact readStage_sumRest_end (ends_op (by decide) rest)

/-- What a product goes on with is read with all that stands before it. -/
theorem readStage_productRest_step {o : Operator} {b : BinaryOperator} (a : Tree) {p : Phrase .power}
    (ho : (o = .times ∧ b = .times) ∨ (o = .over ∧ b = .over)) (h : p.Reads)
    (ends : Ends (goesOn .power) rest) (enough : 8 * p.tokens.length ≤ fuel + 5) :
    readStage (fuel + 1) (.productRest a) (.op o :: (p.tokens ++ rest)) =
      readStage fuel (.productRest (.binary b a (p.tree false))) rest := by
  have step : readStage (fuel + 1) (.productRest a) (.op o :: (p.tokens ++ rest)) =
      (readStage fuel .signed (p.tokens ++ rest)).bind fun read =>
        readStage fuel (.productRest (.binary b a read.1)) read.2 := by
    rcases ho with ⟨rfl, rfl⟩ | ⟨rfl, rfl⟩ <;> rfl
  have some := p.length_pos
  obtain ⟨fuel, rfl⟩ : ∃ k, fuel = k + 1 := ⟨fuel - 1, by omega⟩
  rw [step, p.readStage_signed (by decide), h fuel rest ends (by omega)]
  rfl

/-- What a sum goes on with is read with all that stands before it. -/
theorem readStage_sumRest_step {o : Operator} {b : BinaryOperator} (a : Tree) {p : Phrase .product}
    (ho : (o = .plus ∧ b = .plus) ∨ (o = .minus ∧ b = .minus)) (h : p.Reads)
    (ends : Ends (goesOn .product) rest) (enough : 8 * p.tokens.length ≤ fuel + 3) :
    readStage (fuel + 1) (.sumRest a) (.op o :: (p.tokens ++ rest)) =
      readStage fuel (.sumRest (.binary b a (p.tree false))) rest := by
  have step : readStage (fuel + 1) (.sumRest a) (.op o :: (p.tokens ++ rest)) =
      (readStage fuel .product (p.tokens ++ rest)).bind fun read =>
        readStage fuel (.sumRest (.binary b a read.1)) read.2 := by
    rcases ho with ⟨rfl, rfl⟩ | ⟨rfl, rfl⟩ <;> rfl
  have product : readStage fuel .product (p.tokens ++ rest) = some (p.tree false, rest) :=
    h.product false ends enough
  rw [step, product]
  rfl

theorem Reads.call {f : String} {g : Option Fn} {h : functionOf? f = some g} {a : Phrase .sum}
    (ih : a.Reads) : (call f g h a).Reads := by
  intro fuel rest _ enough
  simp only [tokens_call, List.length_cons, List.length_append, List.length_nil] at enough
  obtain ⟨fuel, rfl⟩ : ∃ k, fuel = k + 1 := ⟨fuel - 1, by omega⟩
  have function : numberCall f (a.tree false) = some (.call f (a.tree false)) := by
    have names : functionNames.all (fun f => f != "Integer" && f != "Float") = true := by decide
    have other := functionNames_all names h
    simp only [Bool.and_eq_true, bne_iff_ne] at other
    unfold numberCall
    split <;> simp_all
  rw [tokens_call, List.cons_append, List.cons_append, List.append_assoc, List.singleton_append]
  change (readStage fuel .sum (a.tokens ++ .op .closing :: rest)).bind _ = _
  rw [ih.inside (by omega)]
  simp [function, tree]

theorem Reads.brackets {a : Phrase .sum} (ih : a.Reads) : (brackets a).Reads := by
  intro fuel rest _ enough
  simp only [tokens_brackets, List.length_cons, List.length_append, List.length_nil] at enough
  obtain ⟨fuel, rfl⟩ : ∃ k, fuel = k + 1 := ⟨fuel - 1, by omega⟩
  have first := a.head_ne_closing (.op .closing :: rest)
  rw [tokens_brackets, List.cons_append, List.append_assoc, List.singleton_append, readStage,
    ih.inside (by omega)]
  · rfl
  · rintro more same
    exact first (by rw [same]; rfl)

theorem Reads.alone {a : Phrase .atom} (ih : a.Reads) : (alone a).Reads := by
  intro fuel rest ends enough
  rw [tokens_alone] at enough ⊢
  have some := a.length_pos
  obtain ⟨fuel, rfl⟩ : ∃ k, fuel = k + 1 := ⟨fuel - 1, by omega⟩
  exact readStage_power_alone (ends .power (by simp [goesOn]))
    (ih fuel rest (ends.mono (by simp [goesOn])) (by omega))

theorem Reads.raised {b e : Phrase .atom} (ihb : b.Reads) (ihe : e.Reads) : (raised b e).Reads := by
  intro fuel rest ends enough
  rw [tokens_raised, List.length_append, List.length_cons] at enough
  have some := b.length_pos
  have more := e.length_pos
  obtain ⟨fuel, rfl⟩ : ∃ k, fuel = k + 4 := ⟨fuel - 4, by omega⟩
  have base := ihb (fuel + 3) (.op .power :: (e.tokens ++ rest)) (ends_op (by decide) _) (by omega)
  have exponent : readStage (fuel + 3) .signed (e.tokens ++ rest) = Option.some (e.tree false, rest) := by
    rw [e.readStage_signed (by decide)]
    exact readStage_power_alone (ends .power (by simp [goesOn]))
      (ihe (fuel + 1) rest (ends.mono (by simp [goesOn])) (by omega))
  rw [tokens_raised, List.append_assoc, List.cons_append]
  change (readStage (fuel + 3) .atom _).bind _ = _
  rw [base, Option.bind_some]
  dsimp only
  rw [exponent]
  rfl

/-- A sign before a power is read with it. -/
theorem Reads.signed {p : Phrase .power} (ih : p.Reads) (negative : Bool)
    (ends : Ends (goesOn .power) rest) (enough : 8 * p.tokens.length ≤ fuel + 7) :
    readStage (fuel + 3) .signed (signTokens negative ++ (p.tokens ++ rest)) =
      some ((factor p).tree negative, rest) := by
  cases negative with
  | false =>
    change readStage (fuel + 3) .signed (p.tokens ++ rest) = _
    rw [p.readStage_signed (by decide)]
    exact ih (fuel + 2) rest ends (by omega)
  | true =>
    have sign : readStage (fuel + 3) .signed (.op .minus :: (p.tokens ++ rest)) =
        (readStage (fuel + 2) .signed (p.tokens ++ rest)).map fun read =>
          (.negative read.1, read.2) := rfl
    change readStage (fuel + 3) .signed (.op .minus :: (p.tokens ++ rest)) = _
    rw [sign, p.readStage_signed (by decide), ih (fuel + 1) rest ends (by omega)]
    rfl

theorem Reads.factor {p : Phrase .power} (ih : p.Reads) : (factor p).Reads := by
  intro negative fuel rest out ends enough next
  rw [tokens_factor] at enough next ⊢
  have some := p.length_pos
  obtain ⟨fuel, rfl⟩ : ∃ k, fuel = k + 4 := ⟨fuel - 4, by omega⟩
  have step : ∀ tokens, readStage (fuel + 4) .product tokens =
      (readStage (fuel + 3) .signed tokens).bind fun read =>
        readStage (fuel + 3) (.productRest read.1) read.2 := fun _ => rfl
  rw [step, ih.signed negative ends (by omega)]
  exact next (fuel + 3) (by omega)

/-- A product that goes on with one more power. -/
theorem Reads.next_power {a q : Phrase .product} {p : Phrase .power} {o : Operator}
    {b : BinaryOperator} (ho : (o = .times ∧ b = .times) ∨ (o = .over ∧ b = .over))
    (tokens : q.tokens = a.tokens ++ .op o :: p.tokens)
    (tree : ∀ negative, q.tree negative = .binary b (a.tree negative) (p.tree false))
    (iha : a.Reads) (ihp : p.Reads) : q.Reads := by
  intro negative fuel rest out ends enough next
  have apart : o ∉ goesOn .power := by rcases ho with ⟨rfl, -⟩ | ⟨rfl, -⟩ <;> decide
  rw [tokens, List.length_append, List.length_cons] at enough next
  rw [tokens, List.append_assoc, List.cons_append]
  refine iha negative fuel _ out (ends_op apart _) (by omega) fun left more => ?_
  obtain ⟨left, rfl⟩ : ∃ k, left = k + 1 := ⟨left - 1, by omega⟩
  rw [readStage_productRest_step _ ho ihp ends (by omega), ← tree]
  exact next left (by omega)

theorem Reads.term {negative : Bool} {a : Phrase .product} (ih : a.Reads) :
    (term negative a).Reads := by
  intro fuel rest out ends enough next
  rw [tokens_term, List.length_append] at enough next
  have some := a.length_pos
  obtain ⟨fuel, rfl⟩ : ∃ k, fuel = k + 1 := ⟨fuel - 1, by omega⟩
  have step : ∀ tokens, readStage (fuel + 1) .sum tokens =
      (readStage fuel .product tokens).bind fun read =>
        readStage fuel (.sumRest read.1) read.2 := fun _ => rfl
  rw [tokens_term, List.append_assoc, step, ih.product negative ends (by omega)]
  exact next fuel (by omega)

/-- A sum that goes on with one more product. -/
theorem Reads.next_product {a q : Phrase .sum} {p : Phrase .product} {o : Operator}
    {b : BinaryOperator} (ho : (o = .plus ∧ b = .plus) ∨ (o = .minus ∧ b = .minus))
    (tokens : q.tokens = a.tokens ++ .op o :: p.tokens)
    (tree : q.tree false = .binary b (a.tree false) (p.tree false))
    (iha : a.Reads) (ihp : p.Reads) : q.Reads := by
  intro fuel rest out ends enough next
  have apart : o ∉ goesOn .product := by rcases ho with ⟨rfl, -⟩ | ⟨rfl, -⟩ <;> decide
  rw [tokens, List.length_append, List.length_cons] at enough next
  rw [tokens, List.append_assoc, List.cons_append]
  refine iha fuel _ out (ends_op apart _) (by omega) fun left more => ?_
  obtain ⟨left, rfl⟩ : ∃ k, left = k + 1 := ⟨left - 1, by omega⟩
  rw [readStage_sumRest_step _ ho ihp ends (by omega), ← tree]
  exact next left (by omega)

end Steps

theorem reads (p : Phrase l) : p.Reads := by
  induction p with
  | number n =>
    intro fuel rest _ enough
    have length : (number n).tokens.length = 4 := rfl
    obtain ⟨fuel, rfl⟩ : ∃ k, fuel = k + 6 := ⟨fuel - 6, by omega⟩
    rfl
  | letter c _ | pi =>
    intro fuel rest ends enough
    simp only [tokens_letter, tokens_pi, List.length_singleton] at enough
    obtain ⟨fuel, rfl⟩ : ∃ k, fuel = k + 1 := ⟨fuel - 1, by omega⟩
    exact readStage_name _ ends
  | call f g h a ih => exact ih.call
  | brackets a ih => exact ih.brackets
  | alone a ih => exact ih.alone
  | raised b e ihb ihe => exact ihb.raised ihe
  | factor p ih => exact ih.factor
  | times a b iha ihb =>
    exact iha.next_power (.inl ⟨rfl, rfl⟩) (tokens_times a b) (fun _ => rfl) ihb
  | «over» a b iha ihb =>
    exact iha.next_power (.inr ⟨rfl, rfl⟩) (tokens_over a b) (fun _ => rfl) ihb
  | term negative a ih => exact ih.term
  | plus a b iha ihb => exact iha.next_product (.inl ⟨rfl, rfl⟩) (tokens_plus a b) rfl ihb
  | minus a b iha ihb => exact iha.next_product (.inr ⟨rfl, rfl⟩) (tokens_minus a b) rfl ihb

/-- The tree of the tokens of a phrase whose brackets do not nest too deep. -/
theorem treeOf_tokens (p : Phrase .sum) (deep : p.depth ≤ maxDepth) :
    treeOf (p.tokens ++ [.finish, .finish]) = some (p.tree false) := by
  have kept : p.tokens.filter (fun t => t != .newline && t != .finish) = p.tokens := by
    refine List.filter_eq_self.2 fun t ht => ?_
    obtain ⟨w, -, ht⟩ := List.mem_flatMap.1 ht
    cases w <;> simp [Word.tokens] at ht <;> aesop
  have all : (p.tokens ++ [Token.finish, Token.finish]).filter
      (fun t => t != .newline && t != .finish) = p.tokens := by
    rw [List.filter_append, kept]
    exact List.append_nil _
  have nests : nestsWithin p.tokens 0 = true := by
    have whole : nestsWithin (p.tokens ++ []) 0 = nestsWithin [] 0 := p.nestsWithin_tokens (by omega)
    rwa [List.append_nil] at whole
  have read : readStage (8 * p.tokens.length + 8) .sum p.tokens = some (p.tree false, []) := by
    have whole := p.reads (8 * p.tokens.length + 8) [] (some (p.tree false, []))
      (fun o _ no => by cases no) (by omega) fun left more => by
        obtain ⟨left, rfl⟩ : ∃ k, left = k + 1 := ⟨left - 1, by omega⟩
        rfl
    rwa [List.append_nil] at whole
  unfold treeOf
  simp only [all, nests, read]
  rfl

/-! ## Both readings -/

theorem caret_not_mem_tokens (p : Phrase l) : .op .caret ∉ p.tokens := by
  induction p with
  | term negative a ih => cases negative <;> simpa [signTokens] using ih
  | _ => simp_all

/-- No name in a phrase has the next one read letter by letter. -/
theorem names_tokens (p : Phrase l) : ∀ s ∈ namesAmong p.tokens, s ∉ splittingWords := by
  induction p with
  | number n => simp [splittingWords]
  | letter c _ =>
    have length : (String.ofList [c]).length = 1 := by simp
    simp only [tokens_letter, namesAmong_name, namesAmong_nil, List.forall_mem_singleton]
    intro word
    rcases (by simpa only [splittingWords, List.mem_pair] using word :
      String.ofList [c] = "Symbol" ∨ String.ofList [c] = "Function") with same | same <;>
      rw [same] at length <;> cases length
  | pi => simp [splittingWords]
  | call f g h a ih =>
    have names : functionNames.all (fun f => !splittingWords.contains f) = true := by decide
    have other : f ∉ splittingWords := by simpa using functionNames_all names h
    simpa [other, or_imp, forall_and] using ih
  | term negative a ih => cases negative <;> simpa [signTokens] using ih
  | _ => simp_all [or_imp]

section Readings

variable {symbols : List String} (p : Phrase .sum)

/-- The text of a phrase. -/
def text : String := String.ofList p.chars

/-- The words of a phrase with the spaces before them. -/
theorem wellSpaced : ∃ ws : List (ℕ × Word), ws.map Prod.snd = p.words ∧
    wordsText ws = p.chars ∧ WellSpaced [] ws := by
  obtain ⟨ws, words, chars⟩ := p.spells 0
  have whole : WholeWords (callablesFor []) p.words := p.wholeWords fun _ no => by cases no
  refine ⟨ws, words, by simpa using chars, ?_, fun q hq => ?_⟩
  · rw [words]
    exact whole.follow.imp fun _ _ follows => follows.apart
  · exact whole.allowed q.2 (words ▸ List.mem_map_of_mem hq)

theorem symbolNames_text (short : p.text.length ≤ 500) :
    symbolNames p.text [] = .ok (sortNames p.letters) := by
  obtain ⟨ws, words, chars, spaced⟩ := p.wellSpaced
  have names := spaced.symbolNames (by rw [chars]; simpa [text] using short)
  rw [text, ← chars, names, ← p.symbols_words, ← words, List.flatMap_map]

/-- A text that shows a phrase has the tree of the phrase. -/
theorem parseTree_text (single : SingleLetters symbols) (deep : p.depth ≤ maxDepth) :
    parseTree symbols p.text = some (p.tree false) := by
  obtain ⟨ws, words, chars, spaced⟩ := p.wellSpaced
  have whole := p.wholeWords single
  have tokens : tokensOf p.text = some (p.tokens ++ [.finish, .finish]) := by
    rw [text, ← chars, spaced.tokensOf, words]
    rfl
  have split : splitNames symbols (p.tokens ++ [.finish, .finish]) [] ⟨false, false⟩ =
      some (p.tokens ++ [.finish, .finish]) := by
    refine splitNames_of_no_word fun s hs => p.names_tokens s ?_
    simpa using hs
  have carets : caretsAsPowers (p.tokens ++ [.finish, .finish]) = p.tokens ++ [.finish, .finish] := by
    refine (List.map_congr_left fun t ht => ?_).trans (List.map_id' _)
    refine if_neg ?_
    rintro rfl
    simp [p.caret_not_mem_tokens] at ht
  have complete : completeTokens (callablesFor symbols) (p.tokens ++ [.finish, .finish]) =
      some (p.tokens ++ [.finish, .finish]) := by
    have finish := balanced_token (t := .finish) (by simp) (by simp)
    have words : completeTokens (callablesFor symbols) (wordsTokens p.words) = _ :=
      completeTokens_words single.callable_number (whole.balanced.append (finish.append finish))
        whole.follow fun s hs => ?_
    · rwa [show wordsTokens p.words = p.tokens ++ [.finish, .finish] from rfl, carets] at words
    · obtain ⟨w, last, closes⟩ := whole.last
      obtain rfl := Option.mem_unique last hs
      simpa [Word.closes] using closes
  unfold parseTree
  rw [tokens]
  dsimp only [Option.bind_eq_bind, Option.bind_some]
  rw [split, Option.bind_some, complete, Option.bind_some, p.treeOf_tokens deep]

end Readings

end Phrase

end Reckoner
