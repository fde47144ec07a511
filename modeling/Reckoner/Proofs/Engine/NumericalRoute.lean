-- Questions that ask for numbers. Probability and calculus have numerical methods, but only a
-- question of probability is told of them: one of calculus is taken for a matter of algebra, and
-- where no rule of algebra fits it is told nothing.
import Reckoner.Proofs.Engine.Routing
import Reckoner.Proofs.Question.Ranking

namespace Reckoner

/-! ## Questions -/

theorem Mentions.mono {text : String} {words more : List String} (h : Mentions text words)
    (sub : words ⊆ more) : Mentions text more := by
  obtain ⟨word, hw, part, inside, alike⟩ := h
  exact ⟨word, sub hw, part, inside, alike⟩

/-- A question that asks for numbers, and for nothing that the rules before that one look for. -/
structure AsksForNumbersAlone (text : String) : Prop where
  noProblem : ∀ numbers, numbersIn text = .ok numbers → quickProblem? text numbers = none
  noEquals : '=' ∉ text.toList
  noFormula : ¬ Mentions text ["derivative", "differentiate", "simplify"]
  numbers : Mentions text ["approximate", "integrate", "numerical"]

/-- What such a question of a domain is told. -/
def numbersNote : Domain → Option (Route × Solution)
  | .algebra | .calculus => none
  | .probability => some (.numerical, numericalNote)
  | d => some (.specialized, specializedNote d)

/-- The solution is a note that lists the numerical methods by their titles, each of them once. -/
def Solution.ListsMethods (s : Solution) : Prop :=
  s.success = true ∧ ∃ titles, s.detail "available_methods" = .texts titles ∧ titles.Nodup ∧
    ∀ title, title ∈ titles ↔ ∃ m : Numerical.Method, m.title = title

theorem numericalNote_listsMethods : numericalNote.ListsMethods := by
  refine ⟨rfl, Numerical.Method.all.map Numerical.Method.title, rfl, by decide, fun title => ?_⟩
  have all : ∀ m, m ∈ Numerical.Method.all := fun m => by cases m <;> decide
  simp [all]

namespace AsksForNumbersAlone

variable {text : String} {c : Classification}

theorem of_rules (square : (ofPhrase "square").occursIn text = false)
    (cube : (ofPhrase "cube").occursIn text = false)
    (product : anyOccurs (anyWord ["multiply", "product"]) text = false)
    (noEquals : '=' ∉ text.toList)
    (noFormula : anyOccurs (anyWord ["derivative", "differentiate", "simplify"]) text = false)
    (numbers : asksForNumbers text = true) : AsksForNumbersAlone text where
  noProblem found _ := by simp [quickProblem?, square, cube, product]
  noEquals := noEquals
  noFormula mention := by
    rw [anyOccurs_anyWord_iff.2 mention] at noFormula
    cases noFormula
  numbers := anyOccurs_anyWord_iff.1 numbers

/-- The route of the question by its domain alone. -/
theorem routeOf_eq (h : AsksForNumbersAlone text) (noProblem : c.quick = none) :
    routeOf text c = (numbersNote c.primary).map (·.1) := by
  have equation : hasEquation text = false :=
    Bool.eq_false_iff.2 fun stated => h.noEquals (hasEquation_iff.1 stated).1
  have derivative : asksForDerivative text = false :=
    Bool.eq_false_iff.2 fun asked => h.noFormula
      ((anyOccurs_anyWord_iff.1 asked).mono (by decide))
  have simplification : asksForSimplification text = false :=
    Bool.eq_false_iff.2 fun asked => h.noFormula
      ((anyOccurs_anyWord_iff.1 asked).mono (by decide))
  have numbers : asksForNumbers text = true := anyOccurs_anyWord_iff.2 h.numbers
  simp only [routeOf, noProblem, equation, derivative, simplification, numbers]
  cases c.primary <;> rfl

/-- No solver is asked, so nothing goes wrong on the route. -/
theorem follow_eq (h : AsksForNumbersAlone text) (noProblem : c.quick = none) (engine : Engine)
    (options : Options) :
    (engine.follow text c options).outcome = .ok (numbersNote c.primary) := by
  unfold Engine.follow
  simp only [noProblem, h.routeOf_eq noProblem]
  cases c.primary <;> rfl

end AsksForNumbersAlone

/-! ## Answers -/

theorem numbersNote_numerical_iff {d : Domain} :
    (numbersNote d).map (·.1.name) = some "numerical_analysis" ↔ d = .probability := by
  cases d <;> simp [numbersNote, Route.name]

theorem ofQuestion_primary_iff {text : String} {c : Classification} {d : Domain}
    (h : Classification.ofQuestion text = .ok c) :
    c.primary = d ↔ ∀ e ≠ d, Outranks (normalized text) d e := by
  obtain ⟨numbers, -, told⟩ := ok_of_bind h
  rw [← Except.ok.inj told]
  exact (isRanking_rankedDomains _).primary_eq_iff _ _

namespace Engine

theorem solve_numbersAlone (engine : Engine) {question given : Value} {store : SettingStore}
    {text : String} {c : Classification} {options : Options}
    (ht : questionText question = .ok text) (hc : Classification.ofQuestion text = .ok c)
    (asks : AsksForNumbersAlone text) (valid : (readOptions given store).1 = .ok options) :
    ∃ a, (engine.solve question given store).1.outcome = .ok a ∧ a.question = text ∧
      a.classification = c ∧ a.outcome = numbersNote c.primary ∧ a.fault = none := by
  obtain ⟨numbers, read, quick⟩ := ofQuestion_quick hc
  have noProblem : c.quick = none := quick.trans (asks.noProblem numbers read)
  obtain ⟨a, ha, same, classified, told⟩ := engine.solve_of_classified given store ht hc
  have done : engine.work text c given store = .ok (numbersNote c.primary) := by
    rw [work, valid, ok_bind, asks.follow_eq noProblem]
  rw [done] at told
  exact ⟨a, ha, same, classified, told⟩

end Engine

/-- A question that asks for numbers alone and can be read is answered, and nothing goes wrong. It
is told of the numerical methods exactly if its domain is probability, so if that outranks all other
domains. If its domain is calculus, there is neither a method nor a solution. -/
theorem numerical_methods_are_told_of_probability_alone (engine : Engine) {question given : Value}
    {store : SettingStore} {text : String} {options : Options}
    (ht : questionText question = .ok text) (readable : ∀ l ∈ literals text, l.Readable)
    (asks : AsksForNumbersAlone text)
    (valid : (Engine.readOptions given store).1 = .ok options) :
    ∃ c a, Classification.ofQuestion text = .ok c ∧
      (engine.solve question given store).1.outcome = .ok a ∧ a.question = text ∧
      a.classification = c ∧ a.fault = none ∧
      (a.method = some "numerical_analysis" ↔ c.primary = .probability) ∧
      (c.primary = .probability ↔
        ∀ d ≠ Domain.probability, Outranks (normalized text) .probability d) ∧
      (c.primary = .probability → ∃ s, a.solution = some s ∧ s.ListsMethods) ∧
      (c.primary = .calculus → a.method = none ∧ a.solution = none) := by
  obtain ⟨c, hc⟩ := ofQuestion_of_readable readable
  obtain ⟨a, ha, same, classified, outcome, fault⟩ := engine.solve_numbersAlone ht hc asks valid
  refine ⟨c, a, hc, ha, same, classified, fault, ?_, ofQuestion_primary_iff hc, ?_, ?_⟩
  · rw [Answer.method, outcome]
    exact numbersNote_numerical_iff
  · intro domain
    rw [Answer.solution, outcome, domain]
    exact ⟨numericalNote, rfl, numericalNote_listsMethods⟩
  · intro domain
    rw [Answer.method, Answer.solution, outcome, domain]
    exact ⟨rfl, rfl⟩

/-- A question of dice is told of the numerical methods. -/
theorem a_numerical_question_of_dice_is_told_of_methods :
    ∃ a s, (Engine.fresh.solve (.text "Numerical dice") .nothing {}).1.outcome = .ok a ∧
      a.fault = none ∧ a.method = some "numerical_analysis" ∧ a.solution = some s ∧
      s.ListsMethods := by
  have ranked : rankedDomains (normalized "Numerical dice") = [(.probability, 1)] := by
    decide +kernel
  have literals : literals "Numerical dice" = [] := by decide +kernel
  have asks : AsksForNumbersAlone "Numerical dice" :=
    .of_rules (by decide +kernel) (by decide +kernel) (by decide +kernel) (by decide)
      (by decide +kernel) (by decide +kernel)
  have readable : ∀ l ∈ Reckoner.literals "Numerical dice", l.Readable := by simp [literals]
  have asked : questionText (.text "Numerical dice") = .ok "Numerical dice" := rfl
  have options : (Engine.readOptions .nothing {}).1 = .ok ⟨"x", "en"⟩ := rfl
  obtain ⟨c, a, hc, ha, -, -, fault, method, -, told, -⟩ :=
    numerical_methods_are_told_of_probability_alone Engine.fresh asked readable asks options
  have domain : c.primary = .probability := by
    rw [Classification.ofQuestion, numbersIn, literals, ranked] at hc
    cases hc
    rfl
  obtain ⟨s, hs, lists⟩ := told domain
  exact ⟨a, s, ha, fault, method.2 domain, hs, lists⟩

/-- An integral asks for numbers, its domain has numerical methods, and it is told nothing. -/
theorem an_integral_is_not_approximated :
    ∃ c a, AsksForNumbersAlone "Approximate ∫ x dx" ∧
      Classification.ofQuestion "Approximate ∫ x dx" = .ok c ∧ isNumerical c.primary = true ∧
      (Engine.readOptions .nothing {}).1 = .ok ⟨"x", "en"⟩ ∧
      (Engine.fresh.solve (.text "Approximate ∫ x dx") .nothing {}).1.outcome = .ok a ∧
      a.fault = none ∧ a.method = none ∧ a.solution = none := by
  have ranked : rankedDomains (normalized "Approximate ∫ x dx") = [(.calculus, 1)] := by
    decide +kernel
  have literals : literals "Approximate ∫ x dx" = [] := by decide +kernel
  have asks : AsksForNumbersAlone "Approximate ∫ x dx" :=
    .of_rules (by decide +kernel) (by decide +kernel) (by decide +kernel) (by decide)
      (by decide +kernel) (by decide +kernel)
  have asked : questionText (.text "Approximate ∫ x dx") = .ok "Approximate ∫ x dx" := rfl
  have options : (Engine.readOptions .nothing {}).1 = .ok ⟨"x", "en"⟩ := rfl
  obtain ⟨c, hc, domain⟩ : ∃ c, Classification.ofQuestion "Approximate ∫ x dx" = .ok c ∧
      c.primary = .calculus := by
    rw [Classification.ofQuestion, numbersIn, literals, ranked]
    exact ⟨_, rfl, rfl⟩
  obtain ⟨a, ha, -, -, outcome, fault⟩ := Engine.fresh.solve_numbersAlone asked hc asks options
  rw [domain] at outcome
  refine ⟨c, a, asks, hc, by rw [domain]; rfl, options, ha, fault, ?_, ?_⟩
  · rw [Answer.method, outcome]
    rfl
  · rw [Answer.solution, outcome]
    rfl

end Reckoner
