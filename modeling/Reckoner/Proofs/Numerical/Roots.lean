-- When Newton's iteration stops, and with what. It makes a sequence of points, and the first point
-- with a flat slope or the first short step ends it, if the iterations are not used up before.
import Mathlib.Data.Nat.Find
import Reckoner.Numerical.Roots
import Reckoner.Proofs.Solution.Shape
import Reckoner.Proofs.Value.Writing

namespace Reckoner

namespace Numerical

/-! ## Outcomes of a search -/

/-- A solution with a root, which was checked, from so many iterations. -/
structure FindsRoot (s : Solution) (method : String) (f : RealFunction) (tolerance root : Value)
    (iterations : ℕ) : Prop where
  method_eq : s.method = method
  success_eq : s.success = true
  answer_eq : s.answer = root
  checked : isRoot f root tolerance = .ok s.verified
  details_eq : s.details = [("root", root), ("iterations", .whole iterations)]

/-- A solution with a reason in place of an answer. -/
structure Fails (s : Solution) (method reason : String) (details : List (String × Value)) :
    Prop where
  method_eq : s.method = method
  success_eq : s.success = false
  reason_eq : s.reason = some reason
  answer_eq : s.answer = .nothing
  details_eq : s.details = details

section Outcomes

variable {s : Solution} {method reason : String} {details : List (String × Value)}
  {f : RealFunction} {tolerance root : Value} {iterations : ℕ}

theorem fails_failure (method reason : String) (steps : List String)
    (details : List (String × Value)) :
    Fails (.failure method reason steps details) method reason details :=
  ⟨rfl, rfl, rfl, rfl, rfl⟩

theorem findsRoot_of_rootFound {steps : List String}
    (h : rootFound method f tolerance root steps iterations = .ok s) :
    FindsRoot s method f tolerance root iterations ∧ s.steps = steps := by
  obtain ⟨verified, hv, h⟩ := bind_eq_ok_iff.1 h
  cases h
  exact ⟨⟨rfl, rfl, rfl, hv, rfl⟩, rfl⟩

theorem Fails.not_findsRoot (h : Fails s method reason details) {method' : String} :
    ¬ FindsRoot s method' f tolerance root iterations := by
  intro found
  have := found.success_eq
  rw [h.success_eq] at this
  cases this

theorem Fails.reason_unique (h : Fails s method reason details) {reason' : String}
    {details' : List (String × Value)} (h' : Fails s method reason' details') :
    reason = reason' ∧ details = details' :=
  ⟨Option.some.inj (h.reason_eq.symm.trans h'.reason_eq), h.details_eq.symm.trans h'.details_eq⟩

theorem FindsRoot.iterations_unique (h : FindsRoot s method f tolerance root iterations)
    {root' : Value} {iterations' : ℕ} (h' : FindsRoot s method f tolerance root' iterations') :
    iterations = iterations' := by
  have same := h.details_eq.symm.trans h'.details_eq
  have : root = root' ∧ iterations = iterations' := by simpa [Value.whole] using same
  exact this.2

end Outcomes

/-! ## Lines of iterations -/

/-- The lines of the first iterations, in order. -/
structure Traces (line : ℕ → Except ValueFault String) (count : ℕ) (lines : List String) :
    Prop where
  length_eq : lines.length = count
  line_eq : ∀ i (h : i < lines.length), line i = .ok lines[i]

theorem traces_nil (line : ℕ → Except ValueFault String) : Traces line 0 [] := ⟨rfl, nofun⟩

theorem Traces.concat {line : ℕ → Except ValueFault String} {count : ℕ} {lines : List String}
    (h : Traces line count lines) {last : String} (hl : line count = .ok last) :
    Traces line (count + 1) (lines ++ [last]) := by
  obtain ⟨rfl, each⟩ := h
  refine ⟨by simp, fun i hi => ?_⟩
  rw [List.length_append, List.length_singleton] at hi
  obtain earlier | rfl := Nat.lt_succ_iff_lt_or_eq.1 hi
  · rw [List.getElem_append_left earlier, each i earlier]
  · rw [hl, List.getElem_concat_length rfl]

/-! ## The first stop -/

/-- None of the iterations before one stops a search, by either of two tests. -/
def RunsTo (first second : ℕ → Except ValueFault Bool) (i : ℕ) : Prop :=
  ∀ j < i, first j ≠ .ok true ∧ second j ≠ .ok true

section Stops

variable {first second : ℕ → Except ValueFault Bool} {i j : ℕ}

theorem runsTo_zero (first second : ℕ → Except ValueFault Bool) : RunsTo first second 0 :=
  fun _ h => absurd h (Nat.not_lt_zero _)

theorem RunsTo.succ (h : RunsTo first second i) (h1 : first i ≠ .ok true)
    (h2 : second i ≠ .ok true) : RunsTo first second (i + 1) := by
  intro j hj
  obtain earlier | rfl := Nat.lt_succ_iff_lt_or_eq.1 hj
  · exact h j earlier
  · exact ⟨h1, h2⟩

theorem RunsTo.mono (h : RunsTo first second j) (hij : i ≤ j) : RunsTo first second i :=
  fun k hk => h k (by omega)

/-- A search comes past no iteration that stops it. -/
theorem RunsTo.le (h : RunsTo first second j) (stop : first i = .ok true ∨ second i = .ok true) :
    j ≤ i := by
  by_contra later
  obtain ⟨h1, h2⟩ := h i (by omega)
  exact stop.elim h1 h2

/-- There is one iteration at which a search stops. -/
theorem RunsTo.eq (hi : RunsTo first second i) (stop : first i = .ok true ∨ second i = .ok true)
    (hj : RunsTo first second j) (stop' : first j = .ok true ∨ second j = .ok true) : i = j :=
  le_antisymm (hi.le stop') (hj.le stop)

end Stops

/-! ## Newton's iteration -/

section Newton

variable (f slope : RealFunction) (start tolerance : Value)

/-- The point after another one. -/
def newtonNext (x : Value) : Except ValueFault Value := do
  let fx ← f x
  let gx ← slope x
  x.sub (← fx.div gx)

/-- The points of the iteration, if nothing stops it. -/
def newtonPoint : ℕ → Except ValueFault Value
  | 0 => .ok start
  | i + 1 => do newtonNext f slope (← newtonPoint i)

/-- Whether the slope at a point is taken for zero. -/
def flatAt (i : ℕ) : Except ValueFault Bool := do
  isWithin (← slope (← newtonPoint f slope start i)) leastSlope

/-- Whether the step from a point to the next one is shorter than the tolerance. -/
def shortAt (i : ℕ) : Except ValueFault Bool := do
  let x ← newtonPoint f slope start i
  isWithin (← (← newtonPoint f slope start (i + 1)).sub x) tolerance

/-- The line for the step from a point to the next one. -/
def newtonLine (i : ℕ) : Except ValueFault String := do
  let x ← newtonPoint f slope start i
  let next ← newtonPoint f slope start (i + 1)
  return "Iteration " ++ natText (i + 1) ++ ": x = " ++ (← x.fixed 6) ++ ", f(x) = " ++
    (← (← f x).fixed 6) ++ ", x_new = " ++ (← next.fixed 6)

/-- The iteration comes to a point: no slope before was flat, and no step before was short. -/
abbrev GoesOnTo (i : ℕ) : Prop := RunsTo (flatAt f slope start) (shortAt f slope start tolerance) i

variable {f slope : RealFunction} {start tolerance limit x next : Value} {i : ℕ} {s : Solution}

theorem newtonPoint_succ (hx : newtonPoint f slope start i = .ok x) :
    newtonPoint f slope start (i + 1) = newtonNext f slope x := by
  rw [newtonPoint, hx]
  rfl

/-- An iteration that stops at a point found its slope flat. -/
theorem flatAt_of_newtonStep (hx : newtonPoint f slope start i = .ok x)
    (h : newtonStep f slope i x = .ok .flat) : flatAt f slope start i = .ok true := by
  obtain ⟨fx, -, h⟩ := bind_eq_ok_iff.1 h
  obtain ⟨gx, hgx, h⟩ := bind_eq_ok_iff.1 h
  obtain ⟨flat, hflat, h⟩ := bind_eq_ok_iff.1 h
  rw [flatAt, hx, ok_bind, hgx, ok_bind, hflat]
  cases flat with
  | true => rfl
  | false =>
    simp only [Bool.false_eq_true, if_false, bind_eq_ok_iff] at h
    obtain ⟨_, _, _, _, _, _, _, _, _, _, h⟩ := h
    cases h

/-- An iteration that moves on goes to the next point, and writes the line for it. -/
theorem newtonStep_move (hx : newtonPoint f slope start i = .ok x) {line : String}
    (h : newtonStep f slope i x = .ok (.move next line)) :
    flatAt f slope start i = .ok false ∧ newtonPoint f slope start (i + 1) = .ok next ∧
      newtonLine f slope start i = .ok line := by
  obtain ⟨fx, hfx, h⟩ := bind_eq_ok_iff.1 h
  obtain ⟨gx, hgx, h⟩ := bind_eq_ok_iff.1 h
  obtain ⟨flat, hflat, h⟩ := bind_eq_ok_iff.1 h
  cases flat with
  | true => cases h
  | false =>
    simp only [Bool.false_eq_true, if_false, bind_eq_ok_iff] at h
    obtain ⟨ratio, hratio, _, hnext, xText, hxText, fxText, hfxText, nextText, hnextText, h⟩ := h
    cases h
    have point : newtonPoint f slope start (i + 1) = .ok next := by
      rw [newtonPoint_succ hx, newtonNext, hfx, ok_bind, hgx, ok_bind, hratio, ok_bind, hnext]
    refine ⟨by rw [flatAt, hx, ok_bind, hgx, ok_bind, hflat], point, ?_⟩
    simp only [newtonLine, hx, hfx, point, hxText, hfxText, hnextText, ok_bind]
    rfl

variable (f slope start tolerance limit) in
/-- How an iteration ends that may take so many steps, and how many of them it takes. -/
inductive NewtonEnds (n : ℕ) (s : Solution) : ℕ → Prop
  | flat {i : ℕ} {x : Value} : i < n → GoesOnTo f slope start tolerance i →
    flatAt f slope start i = .ok true → newtonPoint f slope start i = .ok x →
    Fails s "newton_raphson" "Derivative too small"
      [("iterations", .whole i), ("last_value", x)] → NewtonEnds n s i
  | short {i : ℕ} {x : Value} : i < n → GoesOnTo f slope start tolerance i →
    flatAt f slope start i ≠ .ok true → shortAt f slope start tolerance i = .ok true →
    newtonPoint f slope start (i + 1) = .ok x →
    FindsRoot s "newton_raphson" f tolerance x (i + 1) → NewtonEnds n s (i + 1)
  | usedUp {x : Value} : GoesOnTo f slope start tolerance n →
    newtonPoint f slope start n = .ok x →
    Fails s "newton_raphson" "Max iterations reached"
      [("iterations", limit), ("last_value", x)] → NewtonEnds n s n

/-- The iterations that are left end the search as the sequence of points tells. -/
theorem newtonFrom_ends {first : String} :
    ∀ {left i : ℕ} {x : Value} {lines : List String}, GoesOnTo f slope start tolerance i →
      newtonPoint f slope start i = .ok x → Traces (newtonLine f slope start) i lines →
      newtonFrom f slope tolerance limit left i x (first :: lines) = .ok s →
      ∃ taken lines, NewtonEnds f slope start tolerance limit (i + left) s taken ∧
        Traces (newtonLine f slope start) taken lines ∧ s.steps = first :: lines
  | 0, i, x, lines, goes, hx, traced, h => by
    cases h
    exact ⟨i, lines, .usedUp goes hx (fails_failure ..), traced, rfl⟩
  | left + 1, i, x, lines, goes, hx, traced, h => by
    obtain ⟨step, hstep, h⟩ := bind_eq_ok_iff.1 h
    cases step with
    | flat =>
      cases h
      have flat := flatAt_of_newtonStep hx hstep
      exact ⟨i, lines, .flat (by omega) goes flat hx (fails_failure ..), traced, rfl⟩
    | move next line =>
      obtain ⟨steep, hnext, hline⟩ := newtonStep_move hx hstep
      obtain ⟨gap, hgap, h⟩ := bind_eq_ok_iff.1 h
      obtain ⟨short, hshort, h⟩ := bind_eq_ok_iff.1 h
      have steep : flatAt f slope start i ≠ .ok true := by simp [steep]
      have shortness : shortAt f slope start tolerance i = .ok short := by
        rw [shortAt, hx, ok_bind, hnext, ok_bind, hgap, ok_bind, hshort]
      cases short with
      | true =>
        obtain ⟨found, hsteps⟩ := findsRoot_of_rootFound h
        exact ⟨i + 1, _, .short (by omega) goes steep shortness hnext found,
          traced.concat hline, hsteps⟩
      | false =>
        have goes := goes.succ steep (by simp [shortness])
        rw [show i + (left + 1) = i + 1 + left by omega]
        exact newtonFrom_ends goes hnext (traced.concat hline) h

section Ends

variable {n taken : ℕ} (h : NewtonEnds f slope start tolerance limit n s taken)

include h

theorem NewtonEnds.flat_iff (i : ℕ) : (∃ x, newtonPoint f slope start i = .ok x ∧
      Fails s "newton_raphson" "Derivative too small"
        [("iterations", .whole i), ("last_value", x)]) ↔
    i < n ∧ GoesOnTo f slope start tolerance i ∧ flatAt f slope start i = .ok true := by
  constructor
  · rintro ⟨x, -, fails⟩
    cases h with
    | @flat _ y lt goes flat _ fails' =>
      obtain ⟨rfl, -⟩ : i = taken ∧ x = y := by
        simpa [Value.whole] using (fails.reason_unique fails').2
      exact ⟨lt, goes, flat⟩
    | short _ _ _ _ _ found => exact absurd found fails.not_findsRoot
    | usedUp _ _ fails' => exact absurd (fails.reason_unique fails').1 (by decide)
  · rintro ⟨lt, goes, flat⟩
    cases h with
    | flat _ goes' flat' hx fails =>
      obtain rfl := goes.eq (.inl flat) goes' (.inl flat')
      exact ⟨_, hx, fails⟩
    | short _ goes' steep short =>
      obtain rfl := goes.eq (.inl flat) goes' (.inr short)
      exact absurd flat steep
    | usedUp goes' => exact absurd (goes'.le (.inl flat)) (by omega)

theorem NewtonEnds.short_iff (i : ℕ) : (∃ x, newtonPoint f slope start (i + 1) = .ok x ∧
      FindsRoot s "newton_raphson" f tolerance x (i + 1)) ↔
    i < n ∧ GoesOnTo f slope start tolerance i ∧ flatAt f slope start i ≠ .ok true ∧
      shortAt f slope start tolerance i = .ok true := by
  constructor
  · rintro ⟨x, -, found⟩
    cases h with
    | flat _ _ _ _ fails => exact absurd found fails.not_findsRoot
    | short lt goes steep short _ found' =>
      obtain rfl := Nat.succ_injective (found.iterations_unique found')
      exact ⟨lt, goes, steep, short⟩
    | usedUp _ _ fails => exact absurd found fails.not_findsRoot
  · rintro ⟨lt, goes, steep, short⟩
    cases h with
    | flat _ goes' flat =>
      obtain rfl := goes.eq (.inr short) goes' (.inl flat)
      exact absurd flat steep
    | short _ goes' _ short' hx found =>
      obtain rfl := goes.eq (.inr short) goes' (.inr short')
      exact ⟨_, hx, found⟩
    | usedUp goes' => exact absurd (goes'.le (.inr short)) (by omega)

theorem NewtonEnds.usedUp_iff : (∃ x, newtonPoint f slope start n = .ok x ∧
      Fails s "newton_raphson" "Max iterations reached"
        [("iterations", limit), ("last_value", x)]) ↔ GoesOnTo f slope start tolerance n := by
  constructor
  · rintro ⟨x, -, fails⟩
    cases h with
    | flat _ _ _ _ fails' => exact absurd (fails.reason_unique fails').1 (by decide)
    | short _ _ _ _ _ found => exact absurd found fails.not_findsRoot
    | usedUp goes => exact goes
  · intro goes
    cases h with
    | flat lt _ flat => exact absurd (goes.le (.inl flat)) (by omega)
    | short lt _ _ short => exact absurd (goes.le (.inr short)) (by omega)
    | usedUp _ hx fails => exact ⟨_, hx, fails⟩

/-- The steps taken are those that no earlier step and no flat slope prevents. -/
theorem NewtonEnds.lt_taken_iff (i : ℕ) : i < taken ↔
    i < n ∧ GoesOnTo f slope start tolerance i ∧ flatAt f slope start i ≠ .ok true := by
  cases h with
  | flat lt goes flat =>
    refine ⟨fun hi => ⟨by omega, goes.mono hi.le, (goes i hi).1⟩, ?_⟩
    rintro ⟨-, goes', steep⟩
    exact (goes'.le (.inl flat)).lt_of_ne (by rintro rfl; exact steep flat)
  | short lt goes steep short =>
    constructor
    · intro hi
      obtain earlier | rfl := Nat.lt_succ_iff_lt_or_eq.1 hi
      · exact ⟨by omega, goes.mono earlier.le, (goes i earlier).1⟩
      · exact ⟨lt, goes, steep⟩
    · rintro ⟨-, goes', -⟩
      exact Nat.lt_succ_of_le (goes'.le (.inr short))
  | usedUp goes => exact ⟨fun hi => ⟨hi, goes.mono hi.le, (goes i hi).1⟩, fun hi => hi.1⟩

end Ends

/-- The iteration of Newton gives up at the first point whose slope is flat, succeeds with the first
point that is near the one before it, and otherwise gives up at the last point. It keeps one line for
each step taken, behind one for the start. -/
theorem newton_stops_at_the_first_flat_slope_or_short_step
    (returned : newton f slope start tolerance limit = .ok s) :
    ∃ n taken first lines, limit.toCount = .ok n ∧
      (∀ i, (∃ x, newtonPoint f slope start i = .ok x ∧
          Fails s "newton_raphson" "Derivative too small"
            [("iterations", .whole i), ("last_value", x)]) ↔
        i < n ∧ GoesOnTo f slope start tolerance i ∧ flatAt f slope start i = .ok true) ∧
      (∀ i, (∃ x, newtonPoint f slope start (i + 1) = .ok x ∧
          FindsRoot s "newton_raphson" f tolerance x (i + 1)) ↔
        i < n ∧ GoesOnTo f slope start tolerance i ∧ flatAt f slope start i ≠ .ok true ∧
          shortAt f slope start tolerance i = .ok true) ∧
      ((∃ x, newtonPoint f slope start n = .ok x ∧
          Fails s "newton_raphson" "Max iterations reached"
            [("iterations", limit), ("last_value", x)]) ↔
        GoesOnTo f slope start tolerance n) ∧
      Value.line ["Starting Newton-Raphson with x₀ = ", start] = .ok first ∧
      s.steps = first :: lines ∧ Traces (newtonLine f slope start) taken lines ∧
      ∀ i, i < taken ↔
        i < n ∧ GoesOnTo f slope start tolerance i ∧ flatAt f slope start i ≠ .ok true := by
  obtain ⟨first, hfirst, returned⟩ := bind_eq_ok_iff.1 returned
  obtain ⟨n, hn, returned⟩ := bind_eq_ok_iff.1 returned
  obtain ⟨taken, lines, ends, traced, steps⟩ := newtonFrom_ends (runsTo_zero _ _) rfl
    (traces_nil _) returned
  rw [Nat.zero_add] at ends
  exact ⟨n, taken, first, lines, hn, ends.flat_iff, ends.short_iff, ends.usedUp_iff, hfirst, steps,
    traced, ends.lt_taken_iff⟩

/-- From one on, the iteration for a square and one more comes to zero, where the slope is flat. -/
theorem a_parabola_is_flat_at_its_lowest_point :
    ∃ s, newton (fun x => do (← x.mul x).add (.whole 1)) (fun x => x.add x) (.whole 1)
        (1e-6 : Float) (.whole 5) = .ok s ∧
      Fails s "newton_raphson" "Derivative too small"
        [("iterations", .whole 1), ("last_value", (0 : Float))] := by
  have returns : (newton (fun x => do (← x.mul x).add (.whole 1)) (fun x => x.add x) (.whole 1)
      (1e-6 : Float) (.whole 5)).isOk = true := by decide +kernel
  obtain ⟨s, hs⟩ := exists_of_isOk returns
  obtain ⟨n, -, -, -, hn, flat_iff, -⟩ := newton_stops_at_the_first_flat_slope_or_short_step hs
  cases hn
  have start_goes_on : flatAt (fun x => do (← x.mul x).add (.whole 1)) (fun x => x.add x) (.whole 1)
      0 = .ok false ∧ shortAt (fun x => do (← x.mul x).add (.whole 1)) (fun x => x.add x) (.whole 1)
      (1e-6 : Float) 0 = .ok false := ⟨rfl, rfl⟩
  have stopped := (flat_iff 1).2 ⟨by decide, ?_, rfl⟩
  · obtain ⟨x, hx, fails⟩ := stopped
    cases hx
    exact ⟨s, hs, fails⟩
  · intro j hj
    obtain rfl : j = 0 := by omega
    simp [start_goes_on]

end Newton

end Numerical

end Reckoner
