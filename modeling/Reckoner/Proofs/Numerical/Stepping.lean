-- The trail of Euler's method. Its coordinates are whole multiples of the step away from the start,
-- its heights follow the field without rounding, and it ends at the first coordinate that does not
-- stand before the end or is close to it.
import Reckoner.Proofs.Decimal.Largest
import Reckoner.Proofs.Numerical.ExactValue
import Reckoner.Proofs.Solution.Shape

namespace Reckoner

namespace Numerical

section Stepping

variable (f : SlopeField) (x y stop h : Value)

/-! ## The grid -/

/-- The coordinate after so many steps. It is counted from the start, not from the one before. -/
def coordinateAt : ℕ → Except ValueFault Value
  | 0 => .ok x
  | k + 1 => do x.add (← Value.mul (.whole (k + 1)) h)

/-- The height after so many steps. -/
def heightAt : ℕ → Except ValueFault Value
  | 0 => .ok y
  | k + 1 => do
    let height ← heightAt k
    height.add (← h.mul (← f (← coordinateAt x h k) height))

/-- Whether the coordinate after so many steps stands before the end. -/
def beforeAt (k : ℕ) : Except ValueFault Bool := do (← coordinateAt x h k).less stop

/-- Whether the coordinate after so many steps is close to the end. -/
def closeAt (k : ℕ) : Except ValueFault Bool := do
  return isClose (← (← coordinateAt x h k).toFloat) (← stop.toFloat)

/-- The trail goes on after so many steps: it is before the end and not close to it. -/
def GoesOn (k : ℕ) : Prop := beforeAt x stop h k = .ok true ∧ closeAt x stop h k = .ok false

/-- The trail ends after so many steps. -/
def EndsAt (k : ℕ) : Prop :=
  beforeAt x stop h k = .ok false ∨ beforeAt x stop h k = .ok true ∧ closeAt x stop h k = .ok true

/-- The point that is kept of a step. The one of the start is as it was given, and the others are
rounded. -/
def recordedPoint : ℕ → Except ValueFault Value
  | 0 => .ok (.record [("x", x), ("y", y)])
  | k + 1 => do pointAt (← coordinateAt x h (k + 1)) (← heightAt f x y h (k + 1))

/-- The line for a step, and for the start. -/
def recordedLine : ℕ → Except ValueFault String
  | 0 => Value.line ["Starting Euler's Method: dy/dx = f(x,y), y(", x, ") = ", y]
  | k + 1 => do
    let coordinate ← coordinateAt x h (k + 1)
    let height ← heightAt f x y h (k + 1)
    return "x = " ++ (← coordinate.fixed 4) ++ ", y = " ++ (← height.fixed 6)

/-! ## Records -/

/-- A list has the entries of the first numbers, in order. -/
def Records {α : Type} (entry : ℕ → Except ValueFault α) (l : List α) : Prop :=
  ∀ k (hk : k < l.length), entry k = .ok l[k]

theorem Records.concat {α : Type} {entry : ℕ → Except ValueFault α} {l : List α} {a : α}
    (hl : Records entry l) (ha : entry l.length = .ok a) : Records entry (l ++ [a]) := by
  intro k hk
  rw [List.length_append, List.length_singleton] at hk
  obtain earlier | rfl := Nat.lt_succ_iff_lt_or_eq.1 hk
  · rw [List.getElem_append_left earlier, hl k earlier]
  · rw [ha, List.getElem_concat_length rfl]

theorem records_singleton {α : Type} {entry : ℕ → Except ValueFault α} {a : α}
    (ha : entry 0 = .ok a) : Records entry [a] := by
  intro k hk
  obtain rfl : k = 0 := Nat.lt_one_iff.1 hk
  exact ha

/-! ## One step -/

/-- The trail after so many steps. -/
structure IsTrail (k : ℕ) (t : Trail) : Prop where
  count_eq : t.count = k
  coordinate : coordinateAt x h k = .ok t.x
  height : heightAt f x y h k = .ok t.y
  points_length : t.points.length = k + 1
  points : Records (recordedPoint f x y h) t.points
  steps_length : t.steps.length = 1 + min k tracedSteps
  steps : Records (recordedLine f x y h) t.steps

variable {f x y stop h} {t t' : Trail} {k : ℕ}

/-- A step comes to the next coordinate and height, and keeps the point and the line for it. -/
theorem IsTrail.advance (ht : IsTrail f x y h k t) (step : t.advance f x h = .ok t') :
    IsTrail f x y h (k + 1) t' := by
  obtain ⟨slope, hslope, step⟩ := bind_eq_ok_iff.1 step
  obtain ⟨rise, hrise, step⟩ := bind_eq_ok_iff.1 step
  obtain ⟨height, hheight, step⟩ := bind_eq_ok_iff.1 step
  obtain ⟨way, hway, step⟩ := bind_eq_ok_iff.1 step
  obtain ⟨coordinate, hcoordinate, step⟩ := bind_eq_ok_iff.1 step
  obtain ⟨point, hpoint, step⟩ := bind_eq_ok_iff.1 step
  dsimp only at step
  have there : coordinateAt x h (k + 1) = .ok coordinate := by
    rw [coordinateAt, ← Nat.cast_succ, ← ht.count_eq, hway, ok_bind, hcoordinate]
  have high : heightAt f x y h (k + 1) = .ok height := by
    rw [heightAt, ht.height, ok_bind, ht.coordinate, ok_bind, hslope, ok_bind, hrise, ok_bind,
      hheight]
  have kept : recordedPoint f x y h (k + 1) = .ok point := by
    rw [recordedPoint, there, ok_bind, high, ok_bind, hpoint]
  have written : recordedLine f x y h (k + 1) =
      (do return "x = " ++ (← coordinate.fixed 4) ++ ", y = " ++ (← height.fixed 6)) := by
    rw [recordedLine, there, ok_bind, high, ok_bind]
  have points := ht.points.concat (a := point) (by rw [ht.points_length, kept])
  rw [ht.count_eq] at step
  split_ifs at step with traced
  · obtain ⟨left, hleft, step⟩ := bind_eq_ok_iff.1 step
    obtain ⟨right, hright, step⟩ := bind_eq_ok_iff.1 step
    cases step
    have length : t.steps.length = k + 1 := by rw [ht.steps_length]; omega
    refine ⟨rfl, there, high, by simp [ht.points_length], points, by simp [length]; omega,
      ht.steps.concat ?_⟩
    rw [length, written, hleft, ok_bind, hright]
    rfl
  · cases step
    exact ⟨rfl, there, high, by simp [ht.points_length], points,
      by rw [ht.steps_length]; omega, ht.steps⟩

/-- A step can be made if its point can be kept, and its line be written where it has one. -/
theorem IsTrail.exists_advance (ht : IsTrail f x y h k t)
    (point : ∃ p, recordedPoint f x y h (k + 1) = .ok p)
    (line : k + 1 ≤ tracedSteps → ∃ l, recordedLine f x y h (k + 1) = .ok l) :
    ∃ t', t.advance f x h = .ok t' := by
  obtain ⟨p, hp⟩ := point
  obtain ⟨coordinate, there, hp⟩ := bind_eq_ok_iff.1 hp
  obtain ⟨height, high, hp⟩ := bind_eq_ok_iff.1 hp
  rw [recordedLine, there, ok_bind, high, ok_bind] at line
  rw [coordinateAt] at there
  rw [heightAt, ht.height, ok_bind, ht.coordinate, ok_bind] at high
  obtain ⟨way, hway, there⟩ := bind_eq_ok_iff.1 there
  obtain ⟨slope, hslope, high⟩ := bind_eq_ok_iff.1 high
  obtain ⟨rise, hrise, high⟩ := bind_eq_ok_iff.1 high
  rw [← Nat.cast_succ, ← ht.count_eq] at hway
  rw [Trail.advance, hslope, ok_bind, hrise, ok_bind, high, ok_bind]
  simp only [ht.count_eq] at hway ⊢
  rw [hway, ok_bind, there, ok_bind, hp, ok_bind]
  split_ifs with traced
  · obtain ⟨l, hl⟩ := line traced
    obtain ⟨left, hleft, hl⟩ := bind_eq_ok_iff.1 hl
    obtain ⟨right, hright, hl⟩ := bind_eq_ok_iff.1 hl
    rw [hleft, ok_bind, hright, ok_bind]
    exact ⟨_, rfl⟩
  · exact ⟨_, rfl⟩

/-! ## The end of a trail -/

theorem IsTrail.isBefore_eq (ht : IsTrail f x y h k t) : isBefore t.x stop =
    (do if ← beforeAt x stop h k then return !(← closeAt x stop h k) else return false) := by
  rw [isBefore, beforeAt, closeAt, ht.coordinate, ok_bind, ok_bind]
  refine bind_congr fun before => ?_
  cases before with
  | false => rfl
  | true => cases t.x.toFloat <;> cases stop.toFloat <;> rfl

theorem IsTrail.isBefore_eq_true_iff (ht : IsTrail f x y h k t) :
    isBefore t.x stop = .ok true ↔ GoesOn x stop h k := by
  rw [ht.isBefore_eq, GoesOn]
  cases beforeAt x stop h k with
  | error e => simp
  | ok before => cases before <;> cases closeAt x stop h k <;> simp [pure, Except.pure]

theorem IsTrail.isBefore_eq_false_iff (ht : IsTrail f x y h k t) :
    isBefore t.x stop = .ok false ↔ EndsAt x stop h k := by
  rw [ht.isBefore_eq, EndsAt]
  cases beforeAt x stop h k with
  | error e => simp
  | ok before => cases before <;> cases closeAt x stop h k <;> simp [pure, Except.pure]

theorem EndsAt.not_goesOn (ends : EndsAt x stop h k) : ¬ GoesOn x stop h k := by
  rintro ⟨before, far⟩
  rcases ends with past | ⟨-, close⟩
  · rw [before] at past
    cases past
  · rw [far] at close
    cases close

/-- A trail has one end. -/
theorem EndsAt.eq {j : ℕ} (hk : EndsAt x stop h k) (goes : ∀ i < k, GoesOn x stop h i)
    (hj : EndsAt x stop h j) (goes' : ∀ i < j, GoesOn x stop h i) : k = j := by
  rcases lt_trichotomy k j with earlier | same | later
  · exact absurd (goes' k earlier) hk.not_goesOn
  · exact same
  · exact absurd (goes j later) hj.not_goesOn

/-- The steps that are left end the trail where its coordinates tell. -/
theorem IsTrail.follow {fuel : ℕ} (ht : IsTrail f x y h k t)
    (goes : ∀ j < k, GoesOn x stop h j) (run : t.follow f x stop h fuel = .ok t') :
    ∃ K, IsTrail f x y h K t' ∧ (∀ j < K, GoesOn x stop h j) ∧ EndsAt x stop h K := by
  induction fuel generalizing k t with
  | zero =>
    obtain ⟨before, hbefore, run⟩ := bind_eq_ok_iff.1 run
    cases before with
    | true => cases run
    | false =>
      cases run
      exact ⟨k, ht, goes, ht.isBefore_eq_false_iff.1 hbefore⟩
  | succ fuel ih =>
    obtain ⟨before, hbefore, run⟩ := bind_eq_ok_iff.1 run
    cases before with
    | true =>
      obtain ⟨next, hnext, run⟩ := bind_eq_ok_iff.1 run
      refine ih (ht.advance hnext) (fun j hj => ?_) run
      obtain earlier | rfl := Nat.lt_succ_iff_lt_or_eq.1 hj
      · exact goes j earlier
      · exact ht.isBefore_eq_true_iff.1 hbefore
    | false =>
      cases run
      exact ⟨k, ht, goes, ht.isBefore_eq_false_iff.1 hbefore⟩

/-- Steps that can all be kept come to the end, if they are not too many. -/
theorem IsTrail.exists_follow {fuel K : ℕ} (ht : IsTrail f x y h k t) (hk : k ≤ K)
    (enough : K ≤ k + fuel) (goes : ∀ j < K, GoesOn x stop h j) (ends : EndsAt x stop h K)
    (points : ∀ j ≤ K, ∃ p, recordedPoint f x y h j = .ok p)
    (lines : ∀ j ≤ min K tracedSteps, ∃ l, recordedLine f x y h j = .ok l) :
    ∃ t', t.follow f x stop h fuel = .ok t' := by
  induction fuel generalizing k t with
  | zero =>
    obtain rfl : k = K := by omega
    exact ⟨t, by rw [Trail.follow, ht.isBefore_eq_false_iff.2 ends]; rfl⟩
  | succ fuel ih =>
    obtain rfl | hk := hk.eq_or_lt
    · exact ⟨t, by rw [Trail.follow, ht.isBefore_eq_false_iff.2 ends]; rfl⟩
    · obtain ⟨next, hnext⟩ := ht.exists_advance (points (k + 1) hk)
        fun traced => lines (k + 1) (by omega)
      obtain ⟨t', run⟩ := ih (ht.advance hnext) hk (by omega)
      refine ⟨t', ?_⟩
      rw [Trail.follow, ht.isBefore_eq_true_iff.2 (goes k hk), ok_bind, if_pos rfl, hnext, ok_bind,
        run]

/-! ## The number of steps -/

theorem natAbs_lt_of_toFloat {n : ℤ} {u : Float} (hu : (Value.whole n).toFloat = .ok u) :
    n.natAbs < Double.overflowBound := by
  by_contra past
  change (Quantity.whole n).toFloat = .ok u at hu
  rw [Quantity.toFloat, Double.ofInt_eq_none (not_lt.1 past)] at hu
  cases hu

theorem twice_overflowBound_lt_mostSteps : 2 * Double.overflowBound < mostSteps := by
  decide +kernel

/-- A value to which a number can be added, with a number for the result, is a number itself. -/
theorem exists_quantity_of_add {v w u : Value} {q : Quantity} (hq : w.quantity? = some q)
    (h : v.add w = .ok u) : ∃ p, v.quantity? = some p := by
  cases hp : v.quantity? with
  | some p => exact ⟨p, rfl⟩
  | none =>
    unfold Value.add Value.onNumbers at h
    rw [hp] at h
    cases v <;> cases w <;> simp_all [Value.append, Value.noRule, Value.quantity?]

/-- An operation on numbers gives a number. -/
theorem exists_number_of_onNumbers {op : Quantity → Quantity → Except ValueFault Quantity}
    {other : Value → Value → Except ValueFault Value} {v w u : Value} {p q : Quantity}
    (hp : v.quantity? = some p) (hq : w.quantity? = some q)
    (h : Value.onNumbers op other v w = .ok u) : ∃ r, op p q = .ok r ∧ u = .number r := by
  unfold Value.onNumbers at h
  rw [hp, hq] at h
  cases hr : op p q with
  | error e =>
    simp only [hr] at h
    cases h
  | ok r =>
    simp only [hr] at h
    cases h
    exact ⟨r, rfl, rfl⟩

/-- A step that is not at most zero is a number, and at least one if it is whole. -/
theorem exists_quantity_of_not_lessEqual (positive : h.lessEqual (.whole 0) = .ok false) :
    ∃ q, h.quantity? = some q ∧ ∀ n, q = .whole n → 1 ≤ n := by
  cases hq : h.quantity? with
  | none =>
    unfold Value.lessEqual Value.before at positive
    cases h <;> simp_all [Value.quantity?, Value.whole]
  | some q =>
    refine ⟨q, rfl, ?_⟩
    rintro n rfl
    rw [Value.lessEqual_of_quantity hq rfl, Except.ok.injEq, ← Bool.not_eq_true,
      Quantity.lessEqual, Quantity.less, Quantity.equal] at positive
    by_contra small
    refine positive ?_
    obtain negative | rfl : n < 0 ∨ n = 0 := by omega
    · simp [Quantity.compare?, compare_lt_iff_lt.2 negative]
    · rfl

/-- A positive step leaves the doubles before the steps are used up, and no trail goes on from
there. -/
theorem GoesOn.lt_mostSteps (start : GoesOn x stop h 0) (goes : GoesOn x stop h k)
    (positive : h.lessEqual (.whole 0) = .ok false) : k < mostSteps := by
  have bound := twice_overflowBound_lt_mostSteps
  obtain ⟨v, hv, close⟩ := bind_eq_ok_iff.1 goes.2
  obtain ⟨u, hu, -⟩ := bind_eq_ok_iff.1 close
  obtain ⟨q, hq, least⟩ := exists_quantity_of_not_lessEqual positive
  cases k with
  | zero => exact lt_of_le_of_lt (Nat.zero_le _) bound
  | succ k =>
    obtain ⟨way, hway, hv⟩ := bind_eq_ok_iff.1 hv
    obtain ⟨w, hw, rfl⟩ := exists_number_of_onNumbers rfl hq hway
    cases q with
    | measure d =>
      -- the count is made a double
      obtain ⟨c, hc, -⟩ := bind_eq_ok_iff.1 hw
      have small := natAbs_lt_of_toFloat hc
      omega
    | whole n =>
      have steps : (k : ℤ) + 1 ≤ (k + 1) * n := le_mul_of_one_le_right (by omega) (least n rfl)
      cases hw
      obtain ⟨p, hp⟩ := exists_quantity_of_add rfl hv
      obtain ⟨r, hr, rfl⟩ := exists_number_of_onNumbers hp rfl hv
      cases p with
      | measure a =>
        obtain ⟨c, hc, -⟩ := bind_eq_ok_iff.1 (bind_eq_ok_iff.1 hr).choose_spec.2
        have small := natAbs_lt_of_toFloat hc
        omega
      | whole a =>
        -- both the start and the point are doubles, so their distance is not past twice the bound
        cases hr
        have there := natAbs_lt_of_toFloat hu
        obtain ⟨_, hx, close⟩ := bind_eq_ok_iff.1 start.2
        obtain ⟨b, hb, -⟩ := bind_eq_ok_iff.1 close
        cases hx
        have here : (Value.whole a).toFloat = .ok b := by
          rw [← hb, Value.toFloat, Value.toFloat, hp]
          rfl
        have here := natAbs_lt_of_toFloat here
        omega

variable (f x y stop h) in
/-- The trail before the first step. -/
def startOf (first : String) : Trail := ⟨x, y, [.record [("x", x), ("y", y)]], [first], 0⟩

theorem isTrail_startOf {first : String} (hfirst : recordedLine f x y h 0 = .ok first) :
    IsTrail f x y h 0 (startOf x y first) :=
  ⟨rfl, rfl, rfl, rfl, records_singleton rfl, rfl, records_singleton hfirst⟩

/-- The steps are never used up: with more of them, the trail is the same. -/
theorem follow_mostSteps (positive : h.lessEqual (.whole 0) = .ok false) (more : ℕ) {first : String}
    (hfirst : recordedLine f x y h 0 = .ok first) :
    (startOf x y first).follow f x stop h (mostSteps + more) =
      (startOf x y first).follow f x stop h mostSteps := by
  have runs : ∀ fuel k t, k + fuel = mostSteps → IsTrail f x y h k t →
      (∀ j < k, GoesOn x stop h j) →
      t.follow f x stop h (fuel + more) = t.follow f x stop h fuel := by
    intro fuel
    induction fuel with
    | zero =>
      intro k t hk ht goes
      -- a trail that goes on from here would be past the doubles
      have ended : isBefore t.x stop ≠ .ok true := fun before => by
        have start := goes 0 (by rw [← Nat.add_zero k, hk]; decide +kernel)
        have few := start.lt_mostSteps (ht.isBefore_eq_true_iff.1 before) positive
        omega
      cases more with
      | zero => rfl
      | succ more =>
        rw [Nat.zero_add, Trail.follow, Trail.follow]
        cases hb : isBefore t.x stop with
        | error e => rfl
        | ok before =>
          cases before with
          | true => exact absurd hb ended
          | false => rfl
    | succ fuel ih =>
      intro k t hk ht goes
      rw [Nat.add_right_comm, Trail.follow, Trail.follow]
      cases hb : isBefore t.x stop with
      | error e => rfl
      | ok before =>
        cases before with
        | true =>
          rw [ok_bind, ok_bind, if_pos rfl, if_pos rfl]
          cases ha : t.advance f x h with
          | error e => rfl
          | ok next =>
            refine ih (k + 1) next (by omega) (ht.advance ha) fun j hj => ?_
            obtain earlier | rfl := Nat.lt_succ_iff_lt_or_eq.1 hj
            · exact goes j earlier
            · exact ht.isBefore_eq_true_iff.1 hb
        | false => rfl
  exact runs mostSteps 0 _ (Nat.zero_add _) (isTrail_startOf hfirst) (fun j hj => by omega)

/-! ## Solutions -/

/-- The solution that a trail gives. -/
structure TellsTrail (f : SlopeField) (x y stop h : Value) (K : ℕ) (s : Solution) : Prop where
  method_eq : s.method = "eulers_method"
  success_eq : s.success = true
  answer : heightAt f x y h K = .ok s.answer
  details : ∃ points, s.details = [("final_value", s.answer), ("points", .list points),
      ("step_size", h), ("step_count", .whole K)] ∧
    points.length = K + 1 ∧ Records (recordedPoint f x y h) points
  steps_length : s.steps.length = 1 + min K tracedSteps
  steps : Records (recordedLine f x y h) s.steps
  goes_on : ∀ k < K, GoesOn x stop h k
  ends : EndsAt x stop h K

theorem euler_eq (positive : h.lessEqual (.whole 0) = .ok false) : euler f x y stop h =
    (do
      let t ← (startOf x y (← recordedLine f x y h 0)).follow f x stop h mostSteps
      return {
        method := "eulers_method"
        answer := t.y
        steps := t.steps
        details := [("final_value", t.y), ("points", .list t.points), ("step_size", h),
          ("step_count", .whole t.count)] }) := by
  rw [euler, show h.lessEqual (0 : Int) = .ok false from positive]
  rfl

theorem tellsTrail_of_euler (positive : h.lessEqual (.whole 0) = .ok false) {s : Solution}
    (returned : euler f x y stop h = .ok s) : ∃ K, TellsTrail f x y stop h K s := by
  rw [euler_eq positive] at returned
  obtain ⟨first, hfirst, returned⟩ := bind_eq_ok_iff.1 returned
  obtain ⟨t, run, returned⟩ := bind_eq_ok_iff.1 returned
  cases returned
  obtain ⟨K, ht, goes, ends⟩ := (isTrail_startOf hfirst).follow (fun j hj => by omega) run
  exact ⟨K, rfl, rfl, ht.height, ⟨t.points, by rw [ht.count_eq], ht.points_length, ht.points⟩,
    ht.steps_length, ht.steps, goes, ends⟩

/-- The method has a solution when the trail ends and all of its points and lines can be kept. -/
theorem exists_euler_iff (positive : h.lessEqual (.whole 0) = .ok false) :
    (∃ s, euler f x y stop h = .ok s) ↔ ∃ K, (∀ k < K, GoesOn x stop h k) ∧ EndsAt x stop h K ∧
      (∀ k ≤ K, ∃ p, recordedPoint f x y h k = .ok p) ∧
      ∀ k ≤ min K tracedSteps, ∃ l, recordedLine f x y h k = .ok l := by
  constructor
  · rintro ⟨s, returned⟩
    obtain ⟨K, tells⟩ := tellsTrail_of_euler positive returned
    obtain ⟨points, -, length, kept⟩ := tells.details
    exact ⟨K, tells.goes_on, tells.ends, fun k hk => ⟨_, kept k (by omega)⟩,
      fun k hk => ⟨_, tells.steps k (by rw [tells.steps_length]; omega)⟩⟩
  · rintro ⟨K, goes, ends, points, lines⟩
    obtain ⟨first, hfirst⟩ := lines 0 (Nat.zero_le _)
    have few : K ≤ 0 + mostSteps := by
      cases K with
      | zero => exact Nat.zero_le _
      | succ k =>
        have := (goes 0 k.succ_pos).lt_mostSteps (goes k k.lt_succ_self) positive
        omega
    obtain ⟨t, run⟩ := (isTrail_startOf hfirst).exists_follow (Nat.zero_le K) few goes ends points
      lines
    exact ⟨_, by rw [euler_eq positive, hfirst, ok_bind, run, ok_bind]; rfl⟩

theorem lessEqual_zero_of_positive (positive : (Value.whole 0).less h = .ok true) :
    h.lessEqual (.whole 0) = .ok false := by
  obtain ⟨q, hq, above⟩ := Value.exists_quantity_of_less_whole positive
  have above : (Quantity.whole 0).compare? q = some .lt := by simpa [Quantity.less] using above
  have below : q.compare? (.whole 0) = some .gt := by
    cases q with
    | whole n =>
      have order : compare 0 n = .lt := Option.some.inj above
      exact congrArg some (compare_gt_iff_gt.2 (compare_lt_iff_lt.1 order))
    | measure x =>
      change (Quantity.compare?.versus 0 x).map Ordering.swap = _
      rw [show Quantity.compare?.versus 0 x = some .lt from above]
      rfl
  rw [Value.lessEqual_of_quantity hq rfl, Quantity.lessEqual, Quantity.less, Quantity.equal, below]
  rfl

/-- With a positive step, the solution of a differential equation tells the trail of its steps. Each
height follows from the unrounded ones before, each coordinate is counted from the start, and the trail
ends at the first coordinate that does not stand before the end or is close to it. -/
theorem euler_follows_its_grid {s : Solution} (positive : (Value.whole 0).less h = .ok true)
    (returned : euler f x y stop h = .ok s) :
    ∃ K, TellsTrail f x y stop h K s ∧ IsLeast {k | EndsAt x stop h k} K := by
  obtain ⟨K, tells⟩ := tellsTrail_of_euler (lessEqual_zero_of_positive positive) returned
  refine ⟨K, tells, tells.ends, fun k ends => ?_⟩
  by_contra earlier
  exact ends.not_goesOn (tells.goes_on k (not_le.1 earlier))

/-- Two steps of a quarter along the field of the squares lead to a half. -/
theorem two_quarters_reach_a_half :
    ∃ s points, euler (fun _ y => y.mul y) (.whole 0) (.whole 1) (0.5 : Float) (0.25 : Float) =
        .ok s ∧
      s.answer = .measure 1.640625 ∧ s.details = [("final_value", .measure 1.640625),
        ("points", .list points), ("step_size", .measure 0.25), ("step_count", .whole 2)] ∧
      points.length = 3 ∧ s.steps.length = 3 := by
  have returns : (euler (fun _ y => y.mul y) (.whole 0) (.whole 1) (0.5 : Float)
      (0.25 : Float)).isOk = true := by decide +kernel
  obtain ⟨s, hs⟩ := exists_of_isOk returns
  obtain ⟨K, tells, -⟩ := euler_follows_its_grid (by rfl) hs
  have two : EndsAt (.whole 0) (0.5 : Float) (0.25 : Float) 2 := .inl rfl
  obtain rfl : K = 2 := tells.ends.eq tells.goes_on two fun k hk => by
    obtain rfl | rfl : k = 0 ∨ k = 1 := by omega
    · exact ⟨rfl, rfl⟩
    · exact ⟨rfl, rfl⟩
  have height : s.answer = .measure 1.640625 :=
    Except.ok.inj (tells.answer.symm.trans (show heightAt (fun _ y => y.mul y) (.whole 0) (.whole 1)
      (0.25 : Float) 2 = .ok (.measure 1.640625) from rfl))
  obtain ⟨points, details, length, -⟩ := tells.details
  rw [height] at details
  exact ⟨s, points, hs, height, details, length, tells.steps_length⟩

end Stepping

end Numerical

end Reckoner
