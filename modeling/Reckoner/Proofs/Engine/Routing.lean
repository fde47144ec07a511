-- The route of a question. The first rule that applies gives the method; where anything goes
-- wrong after the classification, there is neither a method nor a solution.
import Reckoner.Proofs.Engine.Answering
import Reckoner.Proofs.Session.Registry
import Reckoner.Proofs.Solution.Solvers
import Reckoner.Proofs.Text.Patterns

namespace Reckoner

/-! ## Rules -/

theorem hasDoubledEquals_iff {l : List Char} :
    hasDoubledEquals l = true ↔ ['=', '='] <:+: l := by
  induction l with
  | nil => simp [hasDoubledEquals]
  | cons c rest ih =>
    rw [hasDoubledEquals, List.infix_cons_iff, ← ih, List.cons_prefix_cons, Bool.or_eq_true,
      Bool.and_eq_true, beq_iff_eq, beq_iff_eq]
    cases rest with
    | nil => simp
    | cons d rest =>
      simp only [List.head?_cons, Option.some.injEq, List.cons_prefix_cons, List.nil_prefix,
        and_true, eq_comm]

/-- A text states an equation where it has an equals sign, and nowhere two side by side. -/
def StatesEquation (text : String) : Prop := '=' ∈ text.toList ∧ ¬ ['=', '='] <:+: text.toList

theorem hasEquation_iff {text : String} : hasEquation text = true ↔ StatesEquation text := by
  simp [hasEquation, StatesEquation, ← hasDoubledEquals_iff]

/-- The domain is one of algebra or calculus. -/
def Domain.IsSymbolic (d : Domain) : Prop := d = .algebra ∨ d = .calculus

/-- The method that the first rule with its condition met gives to a question. -/
inductive FirstRule (text : String) (c : Classification) : Option String → Prop
  | quick (problem : c.quick ≠ none) : FirstRule text c (some "vedic_math")
  | equation (noProblem : c.quick = none) (domain : c.primary.IsSymbolic)
      (equation : StatesEquation text) : FirstRule text c (some "symbolic_algebra")
  | derivative (noProblem : c.quick = none) (domain : c.primary.IsSymbolic)
      (noEquation : ¬ StatesEquation text)
      (mention : Mentions text ["derivative", "differentiate"]) :
      FirstRule text c (some "symbolic_calculus")
  | simplification (noProblem : c.quick = none) (domain : c.primary.IsSymbolic)
      (noEquation : ¬ StatesEquation text)
      (noDerivative : ¬ Mentions text ["derivative", "differentiate"])
      (mention : Mentions text ["simplify"]) :
      FirstRule text c (some "symbolic_simplification")
  | nothing (noProblem : c.quick = none) (domain : c.primary.IsSymbolic)
      (noEquation : ¬ StatesEquation text)
      (noDerivative : ¬ Mentions text ["derivative", "differentiate"])
      (noSimplification : ¬ Mentions text ["simplify"]) : FirstRule text c none
  | numerical (noProblem : c.quick = none) (domain : c.primary = .probability)
      (mention : Mentions text ["approximate", "integrate", "numerical"]) :
      FirstRule text c (some "numerical_analysis")
  | specialized (noProblem : c.quick = none) (domain : ¬ c.primary.IsSymbolic)
      (noNumbers : ¬ (c.primary = .probability ∧
        Mentions text ["approximate", "integrate", "numerical"])) :
      FirstRule text c (some "specialized")

theorem isSymbolic_iff {d : Domain} : isSymbolic d = true ↔ d.IsSymbolic := by
  simp [isSymbolic, Domain.IsSymbolic]

/-- Calculus has numerical methods too, but its questions are never asked for them. -/
theorem isNumerical_iff {d : Domain} (h : ¬ d.IsSymbolic) :
    isNumerical d = true ↔ d = .probability := by
  have : d ≠ .calculus := fun same => h (.inr same)
  simp [isNumerical, this]

theorem routeOf_firstRule (text : String) (c : Classification) :
    FirstRule text c ((routeOf text c).map Route.name) := by
  unfold routeOf asksForDerivative asksForSimplification asksForNumbers
  split_ifs with problem domain equation derivative simplification numbers
  · exact .quick (Option.isSome_iff_ne_none.1 problem)
  all_goals
    simp only [isSymbolic_iff, hasEquation_iff, anyOccurs_anyWord_iff, Bool.and_eq_true,
      Bool.not_eq_true, Option.isSome_eq_false_iff, Option.isNone_iff_eq_none] at *
  · exact .equation problem domain equation
  · exact .derivative problem domain equation derivative
  · exact .simplification problem domain equation derivative simplification
  · exact .nothing problem domain equation derivative simplification
  · exact .numerical problem ((isNumerical_iff domain).1 numbers.1) numbers.2
  · rw [isNumerical_iff domain] at numbers
    exact .specialized problem domain numbers

/-- Of the rules that apply to a question only the first one counts. -/
theorem FirstRule.eq_routeOf {text : String} {c : Classification} {method : Option String}
    (h : FirstRule text c method) : method = (routeOf text c).map Route.name := by
  have equations := @hasEquation_iff text
  have symbolic := @isSymbolic_iff c.primary
  have derivatives := @anyOccurs_anyWord_iff text ["derivative", "differentiate"]
  have simplifications := @anyOccurs_anyWord_iff text ["simplify"]
  have numbers := @anyOccurs_anyWord_iff text ["approximate", "integrate", "numerical"]
  unfold routeOf asksForDerivative asksForSimplification asksForNumbers
  cases h with
  | quick problem => simp [Option.isSome_iff_ne_none.2 problem, Route.name]
  | equation problem domain equation =>
    simp [problem, symbolic.2 domain, equations.2 equation, Route.name]
  | derivative problem domain equation mention =>
    simp [problem, symbolic.2 domain, mt equations.1 equation, derivatives.2 mention, Route.name]
  | simplification problem domain equation derivative mention =>
    simp [problem, symbolic.2 domain, mt equations.1 equation, mt derivatives.1 derivative,
      simplifications.2 mention, Route.name]
  | nothing problem domain equation derivative simplification =>
    simp [problem, symbolic.2 domain, mt equations.1 equation, mt derivatives.1 derivative,
      mt simplifications.1 simplification]
  | numerical problem domain mention =>
    simp [problem, domain, isSymbolic, isNumerical, numbers.2 mention, Route.name]
  | specialized problem domain mention =>
    rw [← isNumerical_iff domain, ← numbers] at mention
    simp only [problem, Option.isSome_none, mt symbolic.1 domain, Bool.and_eq_true, mention]
    rfl

/-! ## Following the route -/

/-- What comes out of a question on its route: the solution of a solver, or the note that the domain
has none. -/
inductive Follows (text : String) (c : Classification) : Option (Route × Solution) → Prop
  | unanswered (route : routeOf text c = none) : Follows text c none
  | solved {r : Route} {s : Solution} (route : routeOf text c = some r) (solver : r ≠ .specialized)
      (regular : s.Regular) : Follows text c (some (r, s))
  | specialized (route : routeOf text c = some .specialized) :
      Follows text c (some (.specialized, specializedNote c.primary))

theorem numericalNote_regular : numericalNote.Regular := .unchecked (by simp) _ _ _

theorem specializedNote_wellFormed (d : Domain) : (specializedNote d).WellFormed where
  failed_iff := by simp [specializedNote]
  of_failed := nofun
  of_verified := nofun
  names_new := by simp [specializedNote, Solution.coreNames]
  names_nodup := by simp [specializedNote]

theorem Follows.wellFormed {text : String} {c : Classification} {r : Route} {s : Solution}
    (h : Follows text c (some (r, s))) : s.WellFormed := by
  cases h with
  | solved _ _ regular => exact regular.toWellFormed
  | specialized _ => exact specializedNote_wellFormed _

namespace Engine

variable {engine : Engine}

theorem Reachable.compute_regular (h : engine.Reachable) {c : Capability}
    (builtin : c ∈ Capability.builtin) (operation : String)
    (arguments : List (String × Value)) :
    Yields Solution.Regular (engine.compute c.name operation arguments).outcome := by
  unfold compute require
  rw [h.find?_builtin builtin]
  simp only [Logged.outcome_bind, Logged.outcome_lift]
  exact .bind fun _ found => Except.ok.inj found ▸ Capability.handle_regular builtin _ _

theorem Reachable.solveSymbolic_regular (h : engine.Reachable) (text name : String)
    (route : Route) : Yields Solution.Regular (engine.solveSymbolic text name route).outcome := by
  have regular := h.compute_regular (c := .symbolic) (by decide)
  cases route <;> exact regular _ _

theorem Reachable.follow_follows (h : engine.Reachable) (text : String) (c : Classification)
    (options : Options) : Yields (Follows text c) (engine.follow text c options).outcome := by
  unfold follow
  cases problem : c.quick with
  | some p =>
    have route : routeOf text c = some .vedic := by simp [routeOf, problem]
    have regular := h.compute_regular (c := .vedic) (by decide)
    simp only [solveQuick, Logged.outcome_bind]
    exact .bind fun s hs => .ok (.solved route nofun (regular _ _ s hs))
  | none =>
    simp only
    split
    next route => exact .ok (.solved route nofun numericalNote_regular)
    next route => exact .ok (.specialized route)
    next r _ other route =>
      simp only [Logged.outcome_bind]
      exact .bind fun _ _ => .bind fun s hs =>
        .ok (.solved route other (h.solveSymbolic_regular text _ r s hs))
    next route => exact .ok (.unanswered route)

/-! ## Answers -/

variable {question given : Value} {store : SettingStore} {a : Answer}

/-- An answer has the text of its question and the classification of that text, and it tells what
became of the work. -/
theorem solve_told (h : (engine.solve question given store).1.outcome = .ok a) :
    questionText question = .ok a.question ∧
      Classification.ofQuestion a.question = .ok a.classification ∧
      Tells a (engine.work a.question a.classification given store) := by
  cases hc : (do Classification.ofQuestion (← questionText question)) with
  | error f =>
    rw [engine.solve_of_not_classified given store hc] at h
    cases h
  | ok c =>
    cases ht : questionText question with
    | error f =>
      rw [ht] at hc
      cases hc
    | ok text =>
      rw [ht, ok_bind] at hc
      obtain ⟨b, hb, rfl, rfl, told⟩ := engine.solve_of_classified given store ht hc
      cases h.symm.trans hb
      exact ⟨rfl, hc, told⟩

/-- An answer tells of a fault and of nothing else, or it tells what came out on the route. -/
theorem Reachable.solve_follows (reachable : engine.Reachable)
    (h : (engine.solve question given store).1.outcome = .ok a) :
    (a.fault ≠ none ∧ a.outcome = none) ∨
      (a.fault = none ∧ Follows a.question a.classification a.outcome) := by
  obtain ⟨-, -, told⟩ := solve_told h
  have follows : Yields (Follows a.question a.classification)
      (engine.work a.question a.classification given store) :=
    .bind fun options _ => reachable.follow_follows _ _ options
  cases result : engine.work a.question a.classification given store with
  | error f =>
    rw [result] at told
    exact .inl ⟨by simp [told.2], told.1⟩
  | ok outcome =>
    rw [result] at told
    exact .inr ⟨told.2, told.1 ▸ follows outcome result⟩

end Engine

/-! ## Fields of answers -/

namespace Answer

variable {a : Answer} {text : String} {c : Classification}

/-- The text of the error that an answer tells of. -/
def error? (a : Answer) : Option Value := Value.field? "error" a.toRecord

/-- The code of the error that an answer tells of. -/
def errorCode? (a : Answer) : Option Value := Value.field? "error_code" a.toRecord

theorem error?_eq_none_iff : a.error? = none ↔ a.fault = none := by
  cases h : a.fault <;> simp [error?, toRecord, faultFields, h, Value.field?, lookupEntry]

theorem errorCode?_eq_none_iff : a.errorCode? = none ↔ a.fault = none := by
  cases h : a.fault <;> simp [errorCode?, toRecord, faultFields, h, Value.field?, lookupEntry]

theorem method_of_follows (h : Follows text c a.outcome) :
    a.method = (routeOf text c).map Route.name := by
  unfold method
  generalize a.outcome = outcome at h
  cases h with
  | unanswered route => rw [route, Option.map_none, Option.map_none]
  | solved route _ _ => rw [route, Option.map_some, Option.map_some]
  | specialized route => rw [route, Option.map_some, Option.map_some]

theorem requiresWriter_of_outcome_none (h : a.outcome = none) : a.requiresWriter = false := by
  simp [requiresWriter, solution, h]

/-- Only the note that a domain has no solver asks for a writer. -/
theorem requiresWriter_of_follows (h : Follows text c a.outcome) :
    a.requiresWriter = true ↔ a.method = some "specialized" := by
  generalize told : a.outcome = outcome at h
  cases h with
  | unanswered route => simp [requiresWriter, solution, method, told]
  | @solved r s route solver regular =>
    have silent : s.detail "requires_ai" = .nothing :=
      Solution.detail_eq_nothing regular.asks_no_writer
    have other : r.name ≠ "specialized" := by
      cases r with
      | specialized => exact absurd rfl solver
      | _ => decide
    simp [requiresWriter, solution, method, told, silent, Value.isTrue, other]
  | specialized route =>
    simp [requiresWriter, solution, method, told, specializedNote, Solution.detail,
      Solution.detailD, Value.field?, lookupEntry, Value.isTrue, Route.name]

end Answer

/-! ## The law -/

/-- The question alone decides the text, the classification and the confidence of an answer. An
answer has an error and its code together, and then neither a method nor a solution; else the
method is that of the first rule that applies, and only a question without a rule of algebra has no
solution. The solution asks for a writer exactly where the method is to take a specialized solver. -/
theorem answers_have_the_method_of_the_first_rule {engine : Engine} (reachable : engine.Reachable)
    {question given : Value} {store : SettingStore} {a : Answer}
    (h : (engine.solve question given store).1.outcome = .ok a) :
    questionText question = .ok a.question ∧
      Classification.ofQuestion a.question = .ok a.classification ∧
      a.confidence = a.classification.confidence ∧
      (a.error? = none ↔ a.errorCode? = none) ∧
      (a.error? ≠ none → a.solution = none ∧ a.method = none) ∧
      (a.error? = none → FirstRule a.question a.classification a.method ∧
        (a.method = none ↔ a.solution = none)) ∧
      (a.requiresWriter = true ↔ a.method = some "specialized") := by
  obtain ⟨ht, hc, -⟩ := Engine.solve_told h
  refine ⟨ht, hc, rfl, Answer.error?_eq_none_iff.trans Answer.errorCode?_eq_none_iff.symm, ?_⟩
  simp only [ne_eq, Answer.error?_eq_none_iff]
  rcases reachable.solve_follows h with ⟨fault, outcome⟩ | ⟨fault, follows⟩
  · have noMethod : a.method = none := by rw [Answer.method, outcome]; rfl
    have noSolution : a.solution = none := by rw [Answer.solution, outcome]; rfl
    refine ⟨fun _ => ⟨noSolution, noMethod⟩, fun none => absurd none fault, ?_⟩
    simp [Answer.requiresWriter_of_outcome_none outcome, noMethod]
  · refine ⟨fun some => absurd fault some, fun _ => ⟨?_, ?_⟩, Answer.requiresWriter_of_follows follows⟩
    · rw [Answer.method_of_follows follows]
      exact routeOf_firstRule _ _
    · simp [Answer.method, Answer.solution]

/-- A circle is a matter for a specialized solver. -/
theorem a_circle_asks_for_a_writer :
    ∃ a, (Engine.fresh.solve (.text "A circle") .nothing {}).1.outcome = .ok a ∧
      a.method = some "specialized" ∧ a.requiresWriter = true := by
  have ranked : rankedDomains (normalized "A circle") = [(.geometry, 1)] := by
    decide +kernel
  have literals : literals "A circle" = [] := by decide +kernel
  have asked : questionText (.text "A circle") = .ok "A circle" := rfl
  have options : (Engine.readOptions .nothing {}).1 = .ok ⟨"x", "en"⟩ := rfl
  obtain ⟨c, classified, primary, problem⟩ : ∃ c,
      Classification.ofQuestion "A circle" = .ok c ∧ c.primary = .geometry ∧
        c.quick = none := by
    rw [Classification.ofQuestion, numbersIn, literals, ranked]
    exact ⟨_, rfl, rfl, by simp [Classification.ofRanking, quickProblem?]⟩
  have route : routeOf "A circle" c = some .specialized := by
    simp [routeOf, problem, primary, isSymbolic, isNumerical]
  have worked : Engine.fresh.work "A circle" c .nothing {} =
      .ok (some (.specialized, specializedNote .geometry)) := by
    rw [Engine.work, options, ok_bind, Engine.follow, problem]
    simp only [route, primary]
    rfl
  obtain ⟨a, ha, text, same, told⟩ := Engine.fresh.solve_of_classified .nothing {} asked classified
  rw [worked] at told
  obtain ⟨-, -, -, -, -, routed, writer⟩ := answers_have_the_method_of_the_first_rule .fresh ha
  have method := (routed (Answer.error?_eq_none_iff.2 told.2)).1.eq_routeOf
  rw [text, same, route] at method
  exact ⟨a, ha, method, writer.2 method⟩

end Reckoner
