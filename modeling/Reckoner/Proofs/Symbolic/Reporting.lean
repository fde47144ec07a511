-- When the solvers of symbolic algebra report and when they raise. What is wrong with a text is
-- always reported, but a result too long to write raises, and so does a number that the formula
-- or the scan cannot take in doubles.
import Reckoner.Proofs.Log.Outcome
import Reckoner.Proofs.Reading.TextNames
import Reckoner.Symbolic.Equation
import Reckoner.Symbolic.Evaluation

namespace Reckoner

/-! ## Faults of a computation -/

section FailsOnly

variable {ε α β : Type} {P : ε → Prop}

/-- All faults of the computation are of a kind. -/
def FailsOnly (P : ε → Prop) (m : Except ε α) : Prop := ∀ f, m = .error f → P f

theorem FailsOnly.ok (a : α) : FailsOnly P (.ok a : Except ε α) := fun _ h => by cases h

theorem FailsOnly.error {f : ε} (h : P f) : FailsOnly P (.error f : Except ε α) := by
  intro f' hf
  obtain rfl := Except.error.inj hf
  exact h

theorem FailsOnly.bind {m : Except ε α} {next : α → Except ε β} (h : FailsOnly P m)
    (h' : ∀ a, FailsOnly P (next a)) : FailsOnly P (m >>= next) := by
  cases m with
  | ok a => exact h' a
  | error f => exact .error (h f rfl)

theorem FailsOnly.map {m : Except ε α} (f : α → β) (h : FailsOnly P m) :
    FailsOnly P (m.map f) := by
  cases m with
  | ok a => exact .ok _
  | error e => exact .error (h e rfl)

theorem FailsOnly.mapM {f : α → Except ε β} {l : List α} (h : ∀ a, FailsOnly P (f a)) :
    FailsOnly P (l.mapM f) := by
  induction l with
  | nil => exact .ok _
  | cons a rest ih =>
    rw [List.mapM_cons]
    exact (h a).bind fun _ => ih.bind fun _ => .ok _

theorem bind_error_iff {m : Except ε α} {next : α → Except ε β} {f : ε} :
    (m >>= next) = .error f ↔ m = .error f ∨ ∃ a, m = .ok a ∧ next a = .error f := by
  cases m <;> simp

theorem mapError_error_iff {ε' : Type} {m : Except ε α} {g : ε → ε'} {f : ε'} :
    m.mapError g = .error f ↔ ∃ e, m = .error e ∧ f = g e := by
  cases m <;> simp [Except.mapError, eq_comm]

end FailsOnly

namespace Symbolic

/-! ## Texts of results -/

theorem checkedText_of_short {x : Expr} (h : ¬ x.isTooLong) : x.checkedText = .ok x.text := by
  rw [Expr.checkedText, if_neg h]

theorem checkedText_of_long {x : Expr} (h : x.isTooLong) :
    x.checkedText = .error (.value .tooLongToWrite) := by
  rw [Expr.checkedText, if_pos h]

theorem lineText_of_short {x : Expr} (h : ¬ x.isTooLong) : ∃ s, x.lineText = .ok s := by
  unfold Expr.lineText
  split
  · exact ⟨_, rfl⟩
  · exact ⟨_, checkedText_of_short h⟩

theorem line_of_writable {parts : List Value}
    (h : ∀ n ∈ parts.flatMap Value.wholeNumbers, Writable n) : ∃ s, line parts = .ok s := by
  obtain ⟨s, hs⟩ := Value.exists_line_of_writable h
  exact ⟨s, by rw [line, hs]; rfl⟩

theorem line_of_not_writable {parts : List Value}
    (h : ∃ n ∈ parts.flatMap Value.wholeNumbers, ¬ Writable n) :
    line parts = .error (.value .tooLongToWrite) := by
  rcases Value.line_written parts with ⟨hw, -⟩ | ⟨-, hs⟩
  · obtain ⟨n, hn, hw'⟩ := h
    exact absurd (hw n hn) hw'
  · rw [line, hs]
    rfl

/-- A line of texts is always written. -/
theorem line_of_texts (parts : List String) : ∃ s, line (parts.map .text) = .ok s := by
  refine line_of_writable ?_
  simp [List.flatMap_map, Value.wholeNumbers]

/-! ## Reading -/

/-- A text is not read for a fault of a value, which is raised. -/
def ReadingRaises (s : String) (bound : List String) (f : Fault) : Prop :=
  ∃ g, readExpression s bound = .error (.value g) ∧ f = .value g

/-- What goes wrong with a text is told in a solution, but for a fault of a value; what is made of
the expression goes wrong as it does. -/
theorem reportReading_error_iff {s : String} {bound : List String} {report : String → Solution}
    {next : Expr → Except Fault Solution} {f : Fault} :
    reportReading (readArgument (.text s) bound) report next = .error f ↔
      ReadingRaises s bound f ∨ ∃ x, readExpression s bound = .ok x ∧ next x = .error f := by
  change reportReading ((readExpression s bound).mapError .ofReading) report next = .error f ↔ _
  unfold ReadingRaises
  cases h : readExpression s bound with
  | ok x => simp [reportReading, Except.mapError]
  | error g =>
    cases g <;> simp [reportReading, Except.mapError, Fault.ofReading, eq_comm]

/-! ## Simplification, factors and derivatives -/

/-- A text is read, and what is made of the expression is too long to write. -/
def ResultTooLong (s : String) (bound : List String) (make : Expr → Expr) (f : Fault) : Prop :=
  ∃ x, readExpression s bound = .ok x ∧ (make x).isTooLong ∧ f = .value .tooLongToWrite

section Results

variable {s v : String} {f : Fault}

/-- A result that is told by itself and in a line is too long for both or for none. -/
theorem result_error_iff {x : Expr} {next : String → String → Except Fault Solution}
    (h : ∀ text shown, ∃ a, next text shown = .ok a) :
    (x.checkedText >>= fun text => x.lineText >>= fun shown => next text shown) = .error f ↔
      x.isTooLong ∧ f = .value .tooLongToWrite := by
  by_cases long : x.isTooLong
  · simp [checkedText_of_long long, long, eq_comm]
  · obtain ⟨shown, hs⟩ := lineText_of_short long
    obtain ⟨a, ha⟩ := h x.text shown
    simp [checkedText_of_short long, hs, ha, long]

theorem simplification_error_iff : simplification (.text s) = .error f ↔
    ReadingRaises s [] f ∨ ResultTooLong s [] Expr.simplify f := by
  obtain ⟨first, hfirst⟩ := line_of_texts ["Original: ", s]
  rw [simplification, reportReading_error_iff]
  refine or_congr_right (exists_congr fun x => and_congr_right fun _ => ?_)
  dsimp only
  rw [show line ["Original: ", .text s] = .ok first from hfirst]
  exact result_error_iff fun text shown => ⟨_, rfl⟩

theorem factorization_error_iff : factorization (.text s) = .error f ↔
    ReadingRaises s [] f ∨ ResultTooLong s [] Expr.factor f := by
  obtain ⟨first, hfirst⟩ := line_of_texts ["Original: ", s]
  rw [factorization, reportReading_error_iff]
  refine or_congr_right (exists_congr fun x => and_congr_right fun _ => ?_)
  dsimp only
  rw [show line ["Original: ", .text s] = .ok first from hfirst]
  exact result_error_iff fun text shown => ⟨_, rfl⟩

theorem differentiation_error_iff : differentiation (.text s) (.text v) = .error f ↔
    ReadingRaises s [v] f ∨ ResultTooLong s [v] (Expr.derivative v) f := by
  obtain ⟨first, hfirst⟩ := line_of_texts ["f(", v, ") = ", s]
  rw [differentiation]
  simp only [Value.toText, Except.mapError, ok_bind]
  rw [reportReading_error_iff]
  refine or_congr_right (exists_congr fun x => and_congr_right fun _ => ?_)
  simp only [unknownOf, ok_bind]
  rw [show line ["f(", .text v, ") = ", .text s] = .ok first from hfirst]
  refine result_error_iff fun text shown => ?_
  obtain ⟨second, hsecond⟩ := line_of_texts ["f'(", v, ") = ", shown]
  rw [show line ["f'(", .text v, ") = ", .text shown] = .ok second from hsecond]
  exact ⟨_, rfl⟩

end Results

/-! ## Evaluation -/

/-- Numbers for symbols, each symbol once. -/
structure NumberBindings where
  entries : List (String × Quantity)
  distinct : (entries.map (·.1)).Nodup

namespace NumberBindings

variable (b : NumberBindings)

def names : List String := b.entries.map (·.1)

def fields : List (String × Value) := b.entries.map fun (name, q) => (name, .number q)

/-- The bindings as a value. -/
def value : Value := .record b.fields

/-- The bindings as entries under keys. -/
def keyed : List Value.Entry := b.entries.map fun (name, q) => (.text name, .number q)

theorem value_entries : b.value.entries = .ok b.keyed := by
  unfold Value.entries
  cases h : b.entries with
  | nil => simp [value, fields, keyed, h, Value.isTrue]
  | cons e rest => simp [value, fields, keyed, h, Value.isTrue]

theorem addEntry_new {name : String} {v : Value} {l : List (String × Value)}
    (h : name ∉ l.map (·.1)) : addEntry (fun _ new => new) name v l = l ++ [(name, v)] := by
  induction l with
  | nil => rfl
  | cons e rest ih =>
    obtain ⟨other, w⟩ := e
    simp only [List.map_cons, List.mem_cons, not_or] at h
    rw [addEntry, if_neg (Ne.symm h.1), ih h.2, List.cons_append]

theorem fieldsOf_keyed : Value.fieldsOf b.keyed = .ok b.fields := by
  have run : ∀ (l : List (String × Quantity)) (acc : List (String × Value)),
      (acc.map (·.1) ++ l.map (·.1)).Nodup →
      (l.map fun (name, q) => ((.text name, .number q) : Value.Entry)).foldlM
          (fun acc (key, value) => do
            return addEntry (fun _ new => new) (← Value.toText key) value acc) acc =
        Except.ok (ε := ValueFault) (acc ++ l.map fun (name, q) => (name, .number q)) := by
    intro l
    induction l with
    | nil =>
      intro acc _
      simp
      rfl
    | cons e rest ih =>
      intro acc distinct
      obtain ⟨name, q⟩ := e
      have new : name ∉ acc.map (·.1) := by
        intro h
        exact (List.nodup_append.1 distinct).2.2 name h name (by simp) rfl
      have step : (do
          return addEntry (fun _ new => new) (← Value.toText (.text name)) (.number q) acc) =
          Except.ok (ε := ValueFault) (acc ++ [(name, .number q)]) :=
        congrArg Except.ok (addEntry_new new)
      have later := ih (acc ++ [(name, .number q)]) (by simpa using distinct)
      rw [List.map_cons, List.foldlM_cons]
      refine (congrArg (· >>= _) step).trans (later.trans ?_)
      simp
  simpa [Value.fieldsOf, keyed, fields] using run b.entries [] (by simpa using b.distinct)

theorem moveToFront_subset {α : Type} {l : List α} {i : Nat} : moveToFront l i ⊆ l := by
  unfold moveToFront
  split
  · rename_i a h
    exact List.cons_subset.2 ⟨List.mem_of_getElem? h, List.eraseIdx_subset⟩
  · exact List.Subset.refl l

theorem replacementOrder_subset (l : List (String × Replacement)) : replacementOrder l ⊆ l := by
  have moved : ∀ (indices : List Nat) (m : List (String × Replacement)),
      indices.foldl moveToFront m ⊆ m := by
    intro indices
    induction indices with
    | nil => exact fun m => List.Subset.refl m
    | cons i rest ih => exact fun m => List.Subset.trans (ih _) moveToFront_subset
  exact List.Subset.trans (moved _ _) (sortBy_perm _ l).subset

theorem keyed_names : b.keyed.mapM (fun (key, _) => replacedName key) = .ok b.names := by
  unfold keyed NumberBindings.names
  induction b.entries with
  | nil => rfl
  | cons e rest ih => rw [List.map_cons, List.mapM_cons, ih]; rfl

/-- A number stands for itself. -/
theorem replacementOf_number (q : Quantity) :
    ∃ y, replacementOf (.number q) = .ok (.expression y) := by
  cases q with
  | whole n => exact ⟨_, rfl⟩
  | measure x => exact ⟨_, rfl⟩

theorem keyed_replacements : ∃ l, b.keyed.mapM (fun (_, v) => replacementOf v) = .ok l ∧
    ∀ r ∈ l, ∃ y, r = .expression y := by
  unfold keyed
  induction b.entries with
  | nil => exact ⟨[], rfl, by simp⟩
  | cons e rest ih =>
    obtain ⟨l, hl, all⟩ := ih
    obtain ⟨name, q⟩ := e
    obtain ⟨y, hy⟩ := replacementOf_number q
    refine ⟨.expression y :: l, ?_, List.forall_mem_cons.2 ⟨⟨y, rfl⟩, all⟩⟩
    rw [List.map_cons, List.mapM_cons]
    simp only [hy, hl, ok_bind]
    rfl

/-- Expressions take the place of any symbols. -/
theorem replaceSymbols_expressions {l : List (String × Replacement)} (x : Expr)
    (all : ∀ e ∈ l, ∃ y, e.2 = .expression y) :
    ∃ y, l.foldlM (fun x (name, r) => replaceSymbol x name r) x = .ok y := by
  induction l generalizing x with
  | nil => exact ⟨x, rfl⟩
  | cons e rest ih =>
    obtain ⟨⟨y, hy⟩, later⟩ := List.forall_mem_cons.1 all
    obtain ⟨z, hz⟩ := ih (Expr.replace (.sym e.1) y x) later
    refine ⟨z, ?_⟩
    obtain ⟨name, r⟩ := e
    obtain rfl : r = .expression y := hy
    rw [List.foldlM_cons]
    exact hz

/-- Numbers take the place of any symbols. -/
theorem substitute_keyed (x : Expr) : ∃ y, substitute x b.keyed = .ok y := by
  obtain ⟨l, hl, all⟩ := b.keyed_replacements
  unfold substitute
  rw [b.keyed_names, hl]
  refine replaceSymbols_expressions x fun e he => all e.2 ?_
  exact (List.of_mem_zip (replacementOrder_subset _ he)).2

end NumberBindings

/-- What an outcome is told with has too many digits: one of the given numbers, or a value that is
not real. -/
def Outcome.Unwritable (b : NumberBindings) : Outcome → Prop
  | .real _ => ∃ e ∈ b.entries, ∃ n, e.2 = .whole n ∧ ¬ Writable n
  | .unbound _ => False
  | .notReal y => y.isTooLong

theorem NumberBindings.mem_wholeNumbers {b : NumberBindings} {n : Int} :
    n ∈ Value.wholeNumbers (.record b.fields) ↔ ∃ e ∈ b.entries, e.2 = .whole n := by
  change n ∈ Value.wholeNumbersUnder (b.entries.map _) ↔ _
  induction b.entries with
  | nil => simp [Value.wholeNumbersUnder]
  | cons e rest ih =>
    obtain ⟨name, q⟩ := e
    rw [List.map_cons, Value.wholeNumbersUnder, List.mem_append, ih]
    cases q <;> simp [Value.wholeNumbers, eq_comm]

theorem evaluationSolution_error_iff {s : String} {b : NumberBindings} {outcome : Outcome}
    {f : Fault} : evaluationSolution (.text s) b.fields outcome = .error f ↔
      outcome.Unwritable b ∧ f = .value .tooLongToWrite := by
  cases outcome with
  | real x =>
    obtain ⟨first, hfirst⟩ := line_of_texts ["Expression: ", s]
    have numbers : ∀ n, n ∈ [Value.text "With ", .record b.fields, .text ": ", .measure x].flatMap
        Value.wholeNumbers ↔ ∃ e ∈ b.entries, e.2 = .whole n := by
      intro n
      rw [← NumberBindings.mem_wholeNumbers]
      simp [Value.wholeNumbers]
    rw [evaluationSolution, show line ["Expression: ", .text s] = .ok first from hfirst, ok_bind,
      Outcome.Unwritable]
    by_cases long : ∃ e ∈ b.entries, ∃ n, e.2 = .whole n ∧ ¬ Writable n
    · obtain ⟨e, he, n, hn, hw⟩ := id long
      rw [line_of_not_writable ⟨n, (numbers n).2 ⟨e, he, hn⟩, hw⟩]
      simp [long, eq_comm]
    · have writable : ∀ n ∈ [Value.text "With ", .record b.fields, .text ": ", .measure x].flatMap
          Value.wholeNumbers, Writable n := by
        intro n hn
        obtain ⟨e, he, hn⟩ := (numbers n).1 hn
        by_contra hw
        exact long ⟨e, he, n, hn, hw⟩
      obtain ⟨second, hsecond⟩ := line_of_writable writable
      rw [hsecond]
      simp [long]
  | unbound names => simp [evaluationSolution, Outcome.Unwritable]
  | notReal y =>
    rw [evaluationSolution, Outcome.Unwritable]
    by_cases long : y.isTooLong
    · simp [checkedText_of_long long, long, eq_comm]
    · simp [checkedText_of_short long, long]

theorem evaluation_error_iff {s : String} {b : NumberBindings} {f : Fault} :
    evaluation (.text s) b.value = .error f ↔
      ReadingRaises s b.names f ∨ ∃ x y, readExpression s b.names = .ok x ∧
        substitute x b.keyed = .ok y ∧ (outcomeOf y).Unwritable b ∧ f = .value .tooLongToWrite := by
  have names : b.fields.map (·.1) = b.names := by
    simp [NumberBindings.fields, NumberBindings.names]
  rw [evaluation, b.value_entries]
  simp only [Except.mapError, ok_bind, b.fieldsOf_keyed, names]
  rw [reportReading_error_iff]
  refine or_congr_right (exists_congr fun x => ?_)
  obtain ⟨y, hy⟩ := b.substitute_keyed x
  simp [hy, evaluationSolution_error_iff]

/-! ## The formula -/

/-- What goes wrong in the quadratic formula: twice the first coefficient is zero in doubles, or a
root is past them. -/
def Quadratic.IsFault (p : Quadratic) : ValueFault → Prop
  | .measuredDivisionByZero => 2 * p.a == 0
  | .powerPastDoubles | .sizePastDoubles => True
  | _ => False

namespace Quadratic

variable (p : Quadratic)

theorem checkedSquare_fails (x : Float) : FailsOnly p.IsFault (checkedSquare x) := by
  unfold checkedSquare
  dsimp only
  split_ifs
  · exact .error trivial
  · exact .ok _

theorem complexSize_fails (re im : Float) : FailsOnly p.IsFault (complexSize re im) := by
  unfold complexSize
  dsimp only
  split_ifs
  · exact .error trivial
  · exact .ok _

theorem overTwiceLead_fails (x : Float) : FailsOnly p.IsFault (p.overTwiceLead x) := by
  unfold overTwiceLead
  dsimp only
  split_ifs with zero
  · exact .error zero
  · exact .ok _

theorem tolerance_fails (size : Float) : FailsOnly p.IsFault (p.tolerance size) :=
  (p.checkedSquare_fails _).bind fun _ => .ok _

theorem isRoot_fails (x : Float) : FailsOnly p.IsFault (p.isRoot x) :=
  (p.tolerance_fails _).bind fun _ => .ok _

theorem isComplexRoot_fails (re im : Float) : FailsOnly p.IsFault (p.isComplexRoot re im) :=
  (p.complexSize_fails _ _).bind fun _ => (p.complexSize_fails _ _).bind fun _ =>
    (p.tolerance_fails _).bind fun _ => .ok _

/-- The formula fails only for a zero to divide by or for the size of a root. -/
theorem solution_fails (name : String) : FailsOnly p.IsFault (p.solution name) := by
  have dividing := p.overTwiceLead_fails
  unfold solution
  split_ifs
  · exact (dividing _).bind fun _ => (dividing _).bind fun _ =>
      (p.isComplexRoot_fails _ _).bind fun _ => .ok _
  · refine (dividing _).bind fun x₁ => (dividing _).bind fun x₂ =>
      (p.isRoot_fails x₁).bind fun isRoot => ?_
    dsimp only
    split_ifs
    · exact (p.isRoot_fails x₂).bind fun _ => .ok _
    · exact .ok _

end Quadratic

/-! ## The scan -/

/-- What goes wrong in a scan: a number is past the doubles or an operation has no value in them,
infinity has no name there, or the unknown takes the name of a function away. -/
def IsScanFault : ValueFault → Prop
  | .notScanned | .pastDoubles | .quotientPastDoubles | .powerPastDoubles
  | .measuredDivisionByZero | .complexDivisionByZero | .negativePowerOfZero => True
  | .unknownEntry name => name = "ComplexInfinity"
  | .notCalled kind => kind = "numpy.ndarray"
  | _ => False

theorem toFloat_fails (q : Quantity) : FailsOnly IsScanFault q.toFloat := by
  unfold Quantity.toFloat
  split
  · split
    · exact .ok _
    · exact .error trivial
  · exact .ok _

theorem ofNumber_fails (n : Number) : FailsOnly IsScanFault (Sampler.ofNumber n) := by
  unfold Sampler.ofNumber
  split
  · split_ifs
    · exact (toFloat_fails _).map _
    · split
      · exact .ok _
      · exact .error trivial
  · exact .ok _
  · exact .ok _
  · exact .ok _

theorem ensureCalled_fails (unknown called : String) :
    FailsOnly IsScanFault (Sampler.ensureCalled unknown called) := by
  unfold Sampler.ensureCalled
  split_ifs
  · exact .error rfl
  · exact .ok _

/-- A sampler is not made only where a part of the expression has no place in doubles. -/
theorem ofExprAux_fails (name : String) (fuel : Nat) (x : Expr) :
    FailsOnly IsScanFault (Sampler.ofExprAux name fuel x) := by
  induction fuel generalizing x with
  | zero => exact .ok _
  | succ fuel ih =>
    unfold Sampler.ofExprAux
    cases x with
    | num n => exact (ofNumber_fails n).bind fun _ => .ok _
    | const c =>
      cases c with
      | zoo => exact .error rfl
      | _ => exact .ok _
    | sym s => exact .ok _
    | sum l => exact (FailsOnly.mapM ih).bind fun _ => .ok _
    | prod l => exact (FailsOnly.mapM ih).bind fun _ => (FailsOnly.mapM ih).bind fun _ => .ok _
    | pow b e =>
      dsimp only
      split_ifs
      · exact (ensureCalled_fails _ _).bind fun _ => (ih b).bind fun _ => .ok _
      · exact (ensureCalled_fails _ _).bind fun _ => (ih b).bind fun _ => .ok _
      · exact (ih b).bind fun _ => (ih e).bind fun _ => .ok _
    | app f a => exact (ensureCalled_fails _ _).bind fun _ => (ih a).bind fun _ => .ok _

theorem div_fails (a b : Sampler.PointValue) : FailsOnly IsScanFault (a.div b) := by
  unfold Sampler.PointValue.div
  dsimp only
  split
  · split_ifs
    · exact .error trivial
    · exact .ok _
  · split_ifs
    · exact .error trivial
    · exact .ok _

theorem pow_fails (constant : Bool) (b e : Sampler.PointValue) :
    FailsOnly IsScanFault (Sampler.PointValue.pow constant b e) := by
  unfold Sampler.PointValue.pow
  dsimp only
  split
  · split_ifs
    · exact .ok _
    · exact .error trivial
    · split
      · split_ifs
        · exact .error trivial
        · exact .ok _
      · exact .ok _
  · exact .ok _

mutual
/-- At a single point only a division or a power fails. -/
theorem valueAt_fails (x : Float) : ∀ s : Sampler, FailsOnly IsScanFault (s.valueAt x)
  | .constant z => .ok _
  | .unknown => .ok _
  | .sum l => by
    rw [Sampler.valueAt]
    refine (valuesAt_fails x l).bind fun values => ?_
    split <;> exact .ok _
  | .quotient negative above below => by
    rw [Sampler.valueAt]
    refine (valuesAt_fails x above).bind fun _ => (valuesAt_fails x below).bind fun values => ?_
    split
    · exact .ok _
    · exact div_fails _ _
  | .pow constant b e => by
    rw [Sampler.valueAt]
    exact (valueAt_fails x b).bind fun _ => (valueAt_fails x e).bind fun _ => pow_fails _ _ _
  | .root a => by
    rw [Sampler.valueAt]
    exact (valueAt_fails x a).bind fun _ => .ok _
  | .app f a => by
    rw [Sampler.valueAt]
    exact (valueAt_fails x a).bind fun _ => .ok _
theorem valuesAt_fails (x : Float) : ∀ l : List Sampler, FailsOnly IsScanFault (Sampler.valuesAt x l)
  | [] => .ok _
  | a :: rest => by
    rw [Sampler.valuesAt]
    exact (valueAt_fails x a).bind fun _ => (valuesAt_fails x rest).bind fun _ => .ok _
end

theorem residualOf_fails (name : String) (x : Expr) : FailsOnly IsScanFault (residualOf name x) := by
  unfold residualOf
  split
  · unfold wholeResidual
    dsimp only
    split_ifs
    · exact .ok _
    · exact .error trivial
    · exact (toFloat_fails _).bind fun _ => .ok _
  · exact (ofExprAux_fails _ _ _).bind fun _ => .ok _

/-- The residual of an expression at a point fails as a scan does. -/
theorem onPoint_fails {name : String} {x : Expr} {r : Residual} (h : residualOf name x = .ok r)
    (point : Float) : FailsOnly IsScanFault (r.onPoint point) := by
  unfold residualOf at h
  split at h
  · rename_i n _
    unfold wholeResidual at h
    dsimp only at h
    split_ifs at h
    · obtain rfl := Except.ok.inj h
      exact .ok _
    · cases hx : (Quantity.whole n).toFloat with
      | error g =>
        rw [hx] at h
        cases h
      | ok y =>
        rw [hx] at h
        obtain rfl := Except.ok.inj h
        exact .ok _
  · cases hs : Sampler.ofExpr name x with
    | error g =>
      rw [hs] at h
      cases h
    | ok s =>
      rw [hs] at h
      obtain rfl := Except.ok.inj h
      exact (valueAt_fails point s).bind fun _ => .ok _

/-! ## Equations -/

/-- The point at which a root is checked that was found at a point of the grid. -/
def checkedPoint (point : Float) : Float := Double.roundTo 2 point + 0.0

/-- The formula fails for a polynomial of the second degree with real coefficients. -/
def FormulaRaises (x : Expr) (name : String) (g : ValueFault) : Prop :=
  ∃ p q, secondDegree? name x = some p ∧ Quadratic.ofCoefficients? p = some q ∧
    q.solution name = .error g ∧ q.IsFault g

/-- An expression with no other unknown is not scanned, or the root that is found has no value. -/
def ScanRaises (x : Expr) (name : String) (g : ValueFault) : Prop :=
  (∀ other ∈ x.symbols, other = name) ∧ IsScanFault g ∧
    (residualOf name x = .error g ∨ ∃ r point, residualOf name x = .ok r ∧
      firstHit? r = some point ∧ r.onPoint (checkedPoint point) = .error g)

theorem scan_error_iff {t : ScanTexts} {r : Residual} {g : ValueFault} :
    scan t r = .error g ↔
      ∃ point, firstHit? r = some point ∧ r.onPoint (checkedPoint point) = .error g := by
  unfold scan
  cases firstHit? r with
  | none => simp
  | some point =>
    simp only [Option.some.injEq, exists_eq_left', scanSolution, checkedPoint]
    cases r.onPoint (Double.roundTo 2 point + 0.0) with
    | ok y => simp [pure, Except.pure]
    | error f => simp

theorem residual_error_iff {x : Expr} {name : String} {t : ScanTexts} {g : ValueFault} :
    (residualOf name x >>= scan t) = .error g ↔ IsScanFault g ∧
      (residualOf name x = .error g ∨ ∃ r point, residualOf name x = .ok r ∧
        firstHit? r = some point ∧ r.onPoint (checkedPoint point) = .error g) := by
  rw [bind_error_iff]
  simp only [scan_error_iff, ← exists_and_left]
  refine (and_iff_right_of_imp ?_).symm
  rintro (h | ⟨r, point, hr, -, h⟩)
  · exact residualOf_fails name x g h
  · exact onPoint_fails hr _ g h

theorem solveByScan_error_iff {x : Expr} {name : String} {f : Fault} (short : ¬ x.isTooLong) :
    solveByScan x name = .error f ↔ ∃ g, ScanRaises x name g ∧ f = .value g := by
  obtain ⟨shown, hs⟩ := lineText_of_short short
  have others : (x.symbols.filter fun other => other ≠ name).isEmpty ↔
      ∀ other ∈ x.symbols, other = name := by
    simp [List.isEmpty_iff, List.filter_eq_nil_iff]
  rw [solveByScan, checkedText_of_short short, ok_bind, hs]
  dsimp only
  split_ifs with alone
  · rw [ok_bind, mapError_error_iff]
    refine exists_congr fun g => and_congr_left fun _ => ?_
    rw [residual_error_iff, ScanRaises, and_iff_right (others.1 alone)]
  · have raises : ¬ ∃ g, ScanRaises x name g ∧ f = .value g := by
      rintro ⟨g, raises, -⟩
      exact alone (others.2 raises.1)
    exact iff_of_false (fun h => by cases h) raises

/-- What raises when `x = 0` is solved: a text that is too long, the formula or the scan. -/
def SolvingRaises (x : Expr) (name : String) (f : Fault) : Prop :=
  x.isTooLong ∧ f = .value .tooLongToWrite ∨ ¬ x.isTooLong ∧ ∃ g, f = .value g ∧
    (hasExponent name x ∧ FormulaRaises x name g ∨ ¬ hasExponent name x ∧ ScanRaises x name g)

/-- An equation that was brought to one side fails in the formula or in the scan. -/
theorem solveZero_error_iff {x : Expr} {name : String} {f : Fault} (short : ¬ x.isTooLong) :
    solveZero x name = .error f ↔ SolvingRaises x name f := by
  rw [SolvingRaises, and_iff_right short, or_iff_right fun h => short h.1]
  unfold solveZero
  split_ifs with exponent
  · cases hp : secondDegree? name x with
    | none => simp [checkedText_of_short short, exponent, FormulaRaises, hp]
    | some p =>
      cases hq : Quadratic.ofCoefficients? p with
      | none =>
        simp [solveQuadratic, checkedText_of_short short, exponent, FormulaRaises, hp, hq]
      | some q =>
        have formula : ∀ g, FormulaRaises x name g ↔ q.solution name = .error g := by
          intro g
          simpa [FormulaRaises, hp, hq] using q.solution_fails name g
        simp only [solveQuadratic, hq, mapError_error_iff, formula, exponent, true_and,
          not_true_eq_false, false_and, or_false]
        exact exists_congr fun g => and_comm
  · rw [solveByScan_error_iff short]
    simp [exponent, and_comm]

/-- What raises when an equation is solved: the reading of a side, or the solving of the
difference. -/
def EquationRaises (s v : String) (f : Fault) : Prop :=
  ∃ left right, sidesOf? s = some (left, right) ∧
    (ReadingRaises left [v] f ∨ ∃ x, readExpression left [v] = .ok x ∧
      (ReadingRaises right [v] f ∨ ∃ y, readExpression right [v] = .ok y ∧
        SolvingRaises (difference x y) v f))

theorem solveEquation_error_iff {s v : String} {f : Fault} :
    (solveEquation (.text s) (.text v)).outcome = .error f ↔ EquationRaises s v f := by
  have sides : ∀ x y, (solveSides (.text s) (.text v) x y).outcome = .error f ↔
      SolvingRaises (difference x y) v f := by
    intro x y
    by_cases long : (difference x y).isTooLong
    · simp [solveSides, unknownOf, checkedText_of_long long, SolvingRaises, long, @eq_comm _ f]
    · rw [← solveZero_error_iff long]
      simp [solveSides, unknownOf, checkedText_of_short long, noteRearranged]
  unfold solveEquation EquationRaises
  cases hsides : sidesOf? s with
  | none => simp [equationArgument, hsides]
  | some pair =>
    obtain ⟨left, right⟩ := pair
    simp only [equationArgument, Logged.outcome_bind, Logged.outcome_lift, ok_bind, hsides,
      Option.some.injEq, Prod.mk.injEq, ↓existsAndEq, true_and, Value.toText, Except.mapError,
      readSides]
    cases hleft : readExpression left [v] with
    | error g => cases g <;> simp [ReadingRaises, hleft, Fault.ofReading, Logged.fail, @eq_comm _ f]
    | ok x =>
      cases hright : readExpression right [v] with
      | error g =>
        cases g <;> simp [ReadingRaises, hleft, hright, Fault.ofReading, Logged.fail, @eq_comm _ f]
      | ok y => simp [ReadingRaises, hleft, hright, sides]

/-! ## All solvers -/

/-- A text raises in reading only for a bound name with a truth value in it. -/
theorem ReadingRaises.holdsTruth {s : String} {bound : List String} {f : Fault}
    (h : ReadingRaises s bound f) : ∃ name ∈ bound, HoldsTruth name := by
  obtain ⟨g, h, -⟩ := h
  by_contra! plain
  exact readExpression_told plain h

theorem not_readingRaises (s : String) (f : Fault) : ¬ ReadingRaises s [] f := by
  intro h
  obtain ⟨name, hname, -⟩ := h.holdsTruth
  cases hname

end Symbolic

end Reckoner
