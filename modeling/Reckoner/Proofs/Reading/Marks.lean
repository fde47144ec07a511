-- Texts made up of whole numbers, one unknown and signs, with spaces before them. Both readings of
-- such a text find what it is made up of.
import Mathlib
import Reckoner.Proofs.Reading.Completing

namespace Reckoner

/-! ## Marks -/

/-- What a sum of powers of an unknown is written with. -/
inductive Mark where
  | number (n : ℕ)
  | unknown
  | plus | minus | times | power | caret
deriving DecidableEq

namespace Mark

/-- The characters of a mark. The unknown is `x`. -/
def chars : Mark → List Char
  | number n => digitsOf n
  | unknown => ['x']
  | plus => ['+']
  | minus => ['-']
  | times => ['*']
  | power => ['*', '*']
  | caret => ['^']

/-- The tokens of a mark. -/
def tokens : Mark → List Token
  | number n => [.name "Integer", .op .opening, .literal (natText n), .op .closing]
  | unknown => [.name "x"]
  | plus => [.op .plus]
  | minus => [.op .minus]
  | times => [.op .times]
  | power => [.op .power]
  | caret => [.op .caret]

def isOperand : Mark → Bool
  | number _ | unknown => true
  | _ => false

/-- Whether a mark is made up of stars. -/
def isStar : Mark → Bool
  | times | power => true
  | _ => false

/-- Two marks can stand next to each other without becoming one. -/
def Apart (a b : Mark) : Prop := ¬ (a.isOperand ∧ b.isOperand) ∧ ¬ (a.isStar ∧ b.isStar)

instance (a b : Mark) : Decidable (a.Apart b) := inferInstanceAs (Decidable (_ ∧ _))

/-- The word that a mark is. -/
def word : Mark → Word
  | number n => .number n
  | unknown => .name ['x']
  | plus => .sign .plus
  | minus => .sign .minus
  | times => .sign .times
  | power => .sign .power
  | caret => .sign .caret

theorem chars_word (m : Mark) : m.word.chars = m.chars := by cases m <;> rfl

theorem tokens_word (m : Mark) : m.word.tokens = m.tokens := by cases m <;> rfl

theorem allowed_word (m : Mark) (bound : List String) : m.word.Allowed bound := by
  cases m with
  | unknown => exact ⟨rfl, .inr (.inr rfl)⟩
  | _ => trivial

theorem Apart.word {a b : Mark} (h : a.Apart b) : a.word.Apart b.word := by
  cases a <;> cases b <;> simp_all [Apart, Mark.word, Word.Apart, isOperand, isStar, Word.isOperand]

end Mark

/-- The text of marks with so many spaces before each. -/
def marksText (l : List (ℕ × Mark)) : List Char :=
  l.flatMap fun p => List.replicate p.1 ' ' ++ p.2.chars

/-- Marks that each stand apart from the next. -/
def Spread (l : List (ℕ × Mark)) : Prop := (l.map Prod.snd).IsChain Mark.Apart

/-- The words of marks, with the spaces before them. -/
def markWords (l : List (ℕ × Mark)) : List (ℕ × Word) := l.map fun p => (p.1, p.2.word)

variable {l : List (ℕ × Mark)}

theorem marksText_eq (l : List (ℕ × Mark)) : marksText l = wordsText (markWords l) := by
  simp only [marksText, wordsText, markWords, List.flatMap_map, Mark.chars_word]

theorem marksText_cons (n : ℕ) (m : Mark) (l : List (ℕ × Mark)) :
    marksText ((n, m) :: l) = List.replicate n ' ' ++ (m.chars ++ marksText l) := by
  simp [marksText]

theorem map_markWords (l : List (ℕ × Mark)) :
    (markWords l).map Prod.snd = (l.map Prod.snd).map Mark.word := by
  simp [markWords, Function.comp_def]

theorem Spread.wellSpaced (h : Spread l) (bound : List String) :
    WellSpaced bound (markWords l) := by
  refine ⟨?_, fun p hp => ?_⟩
  · rw [map_markWords]
    exact (List.isChain_map _).2 (h.imp fun _ _ => Mark.Apart.word)
  · obtain ⟨q, -, rfl⟩ := List.mem_map.1 hp
    exact q.2.allowed_word bound

/-! ## Readings -/

theorem symbolNames_marksText (h : Spread l) (short : (marksText l).length ≤ 500) :
    ∃ names, symbolNames (String.ofList (marksText l)) ["x"] = .ok names ∧
      ∀ name ∈ names, name = "x" := by
  rw [marksText_eq] at short ⊢
  refine ⟨_, (h.wellSpaced ["x"]).symbolNames short, fun name hname => ?_⟩
  obtain ⟨p, hp, hname⟩ := List.mem_flatMap.1 (mem_sortNames.1 hname)
  obtain ⟨q, -, rfl⟩ := List.mem_map.1 hp
  have only : ∀ m : Mark, ∀ s ∈ m.word.symbols, s = "x" := by
    intro m s hs
    cases m with
    | unknown =>
      rw [show Mark.unknown.word.symbols = ["x"] by decide] at hs
      exact List.mem_singleton.1 hs
    | _ => cases hs
  exact only q.2 name hname

theorem tokensOf_marksText (h : Spread l) :
    tokensOf (String.ofList (marksText l)) =
      some (l.flatMap (fun p => p.2.tokens) ++ [.finish, .finish]) := by
  rw [marksText_eq, (h.wellSpaced []).tokensOf, map_markWords, wordsTokens, List.flatMap_map,
    List.flatMap_map]
  simp only [Mark.tokens_word]

/-- Spaces before the first mark and behind the last one are left out. -/
theorem stripBlank_marksText {n : ℕ} {m : Mark} (h : Spread ((n, m) :: l)) (k : ℕ) :
    stripBlank (marksText ((n, m) :: l) ++ List.replicate k ' ') = marksText ((0, m) :: l) := by
  rw [marksText_eq, marksText_eq]
  exact (h.wellSpaced []).stripBlank k

theorem stripBlank_marksText_ne_nil (h : Spread l) (hne : l ≠ []) :
    stripBlank (marksText l) ≠ [] := by
  rw [marksText_eq]
  exact (h.wellSpaced []).stripBlank_ne_nil (by simpa [markWords] using hne)

/-! ## Tokens -/

/-- The tokens of a mark with a sign of powers for a caret. -/
def Mark.read : Mark → List Token
  | caret => [.op .power]
  | m => m.tokens

/-- The tokens of marks up to the end of a text. -/
def marksTokens (ms : List Mark) : List Token := ms.flatMap Mark.tokens ++ [.finish, .finish]

/-- The tokens of marks as the tree is read of them. -/
def readTokens (ms : List Mark) : List Token := ms.flatMap Mark.read

section Marks

variable {calls : Callables} {ms : List Mark}

theorem marksTokens_cons (m : Mark) (ms : List Mark) :
    marksTokens (m :: ms) = m.tokens ++ marksTokens ms := by simp [marksTokens]

theorem marksTokens_eq (ms : List Mark) : marksTokens ms = wordsTokens (ms.map Mark.word) := by
  simp only [marksTokens, wordsTokens, List.flatMap_map, Mark.tokens_word]

theorem caretsAsPowers_marks (ms : List Mark) :
    caretsAsPowers (marksTokens ms) = readTokens ms ++ [.finish, .finish] := by
  induction ms with
  | nil => rfl
  | cons m ms ih =>
    unfold caretsAsPowers at *
    rw [marksTokens_cons, List.map_append, ih]
    cases m <;> rfl

theorem balanced_marks (ms : List Mark) : Balanced (marksTokens ms) := by
  have finish := balanced_token (t := .finish) (by simp) (by simp)
  induction ms with
  | nil => exact finish.append finish
  | cons m ms ih =>
    rw [marksTokens_cons]
    refine Balanced.append ?_ ih
    cases m with
    | number n =>
      exact (balanced_token (t := .name "Integer") (by simp) (by simp)).append
        (balanced_token (t := .literal (natText n)) (by simp) (by simp)).brackets
    | _ => exact balanced_token (by simp) (by simp)

/-- Nothing is put into marks that each stand apart from the next. -/
theorem completeTokens_marks (number : calls.isCallable "Integer" = true)
    (unknown : calls.isCallable "x" = false) (h : ms.IsChain Mark.Apart) :
    completeTokens calls (marksTokens ms) = some (readTokens ms ++ [.finish, .finish]) := by
  have uncalled : ∀ m : Mark, ∀ s, m.word = .name s →
      calls.isCallable (String.ofList s) = false := by
    intro m s hm
    cases m with
    | unknown => rwa [← Word.name.inj hm]
    | _ => cases hm
  rw [← caretsAsPowers_marks, marksTokens_eq]
  refine completeTokens_words number (marksTokens_eq ms ▸ balanced_marks ms) ?_ fun s hs => ?_
  · refine (List.isChain_map _).2 (h.imp fun a b apart =>
      ⟨apart.word, fun s hs known => by simp [uncalled a s hs] at known, fun closes => ?_⟩)
    have operand : a.word.isOperand = true := by
      cases a <;> first | rfl | simp [Mark.word, Word.closes] at closes
    have other := apart.word.operands operand
    cases b <;> first | rfl | cases other
  · rw [List.getLast?_map] at hs
    obtain ⟨m, -, hm⟩ := Option.map_eq_some_iff.1 hs
    exact uncalled m s hm

end Marks

end Reckoner
