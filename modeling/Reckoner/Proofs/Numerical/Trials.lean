-- Counting the successes of an experiment. Every trial is one call, in order, and an experiment that
-- gives its values in turn has as many successes as whole rounds and the rest of a round hold.
import Reckoner.Proofs.Decimal.Fractions
import Reckoner.Proofs.Solution.Shape
import Reckoner.Numerical.Chance

namespace Reckoner

namespace Numerical

/-! ## Calls -/

/-- A run calls an experiment so many times, in order: it depends on no later outcome, and a call that
has a fault after calls that have none stops it. -/
structure CallsExactly {α : Type} (run : Experiment → Except ValueFault α) (n : ℕ) : Prop where
  reads : ∀ e e' : Experiment, (∀ i < n, e i = e' i) → run e = run e'
  calls : ∀ (e : Experiment) (i : ℕ) (fault : ValueFault), i < n → (∀ j < i, ∃ v, e j = .ok v) →
    e i = .error fault → run e = .error fault

theorem CallsExactly.bind {α β : Type} {run : Experiment → Except ValueFault α} {n : ℕ}
    (h : CallsExactly run n) (next : α → Except ValueFault β) :
    CallsExactly (fun e => run e >>= next) n where
  reads e e' same := by rw [h.reads e e' same]
  calls e i fault hi before stop := by
    rw [h.calls e i fault hi before stop]
    rfl

/-- A run makes one number of calls. -/
theorem CallsExactly.eq {α : Type} {run : Experiment → Except ValueFault α} {m n : ℕ}
    (hm : CallsExactly run m) (hn : CallsExactly run n) : m = n := by
  -- an experiment that stops at the end of the shorter row of calls
  have stops : ∀ {m n}, CallsExactly run m → CallsExactly run n → n ≤ m := by
    intro m n hm hn
    by_contra fewer
    let stopping (fault : ValueFault) : Experiment := fun i =>
      if i < m then .ok .nothing else .error fault
    have fails : ∀ fault, run (stopping fault) = .error fault := fun fault =>
      hn.calls _ m fault (not_le.1 fewer) (fun j hj => ⟨_, if_pos hj⟩) (if_neg (lt_irrefl m))
    have same := hm.reads (stopping .endless) (stopping .divisionByZero) fun i hi => by
      simp only [stopping, if_pos hi]
    rw [fails, fails] at same
    cases same
  exact le_antisymm (stops hn hm) (stops hm hn)

/-! ## Counting -/

section Counting

variable {e e' : Experiment} {left i s : ℕ}

theorem countFrom_congr (same : ∀ j, i ≤ j → j < i + left → e j = e' j) :
    countFrom e left i s = countFrom e' left i s := by
  induction left generalizing i s with
  | zero => rfl
  | succ left ih =>
    rw [countFrom, countFrom, same i le_rfl (by omega)]
    exact bind_congr fun outcome => ih fun j low high => same j (by omega) (by omega)

theorem countFrom_fault {j : ℕ} {fault : ValueFault} (low : i ≤ j) (high : j < i + left)
    (before : ∀ k, i ≤ k → k < j → ∃ v, e k = .ok v) (stop : e j = .error fault) :
    countFrom e left i s = .error fault := by
  induction left generalizing i s with
  | zero => omega
  | succ left ih =>
    rw [countFrom]
    obtain rfl | later := low.eq_or_lt
    · rw [stop]
      rfl
    · obtain ⟨v, hv⟩ := before i le_rfl later
      rw [hv, ok_bind]
      exact ih later (by omega) fun k low high => before k (by omega) high

/-- The successes are counted one by one. -/
theorem countFrom_eq {outcome : ℕ → Value} (all : ∀ j, i ≤ j → j < i + left → e j = .ok (outcome j)) :
    countFrom e left i s =
      .ok (s + (List.range' i left).countP fun j => (outcome j).isTrue) := by
  induction left generalizing i s with
  | zero => rfl
  | succ left ih =>
    rw [countFrom, all i le_rfl (by omega), ok_bind, ih fun j low high => all j (by omega) (by omega),
      List.range'_succ, List.countP_cons]
    split_ifs
    · rw [Nat.add_right_comm, Nat.add_assoc]
    · rfl

theorem successes_calls (n : ℕ) : CallsExactly (fun e => successes e n) n where
  reads e e' same := countFrom_congr fun j _ high => same j (by omega)
  calls e i fault hi before stop :=
    countFrom_fault (Nat.zero_le i) (by omega) (fun k _ high => before k high) stop

end Counting

/-! ## Rounds -/

section Rounds

variable (values : List Value)

/-- The outcomes of so many calls of an experiment that gives its values in turn. -/
def outcomes (n : ℕ) : List Value :=
  (List.range n).map fun i => values.getD (i % values.length) .nothing

variable {values} {n : ℕ}

/-- Within the first round, the outcomes are the first values. -/
theorem outcomes_of_le (h : n ≤ values.length) : outcomes values n = values.take n := by
  refine List.ext_getElem (by simp [outcomes, h]) fun i hi _ => ?_
  have inside : i < values.length := by
    simp only [outcomes, List.length_map, List.length_range] at hi
    omega
  simp [outcomes, Nat.mod_eq_of_lt inside, inside]

/-- A round comes before the outcomes of the calls after it. -/
theorem outcomes_add_round (n : ℕ) :
    outcomes values (values.length + n) = values ++ outcomes values n := by
  have first : outcomes values values.length = values := by
    rw [outcomes_of_le le_rfl, List.take_length]
  unfold outcomes at *
  rw [List.range_add, List.map_append, List.map_map, first]
  simp [Function.comp_def]

theorem outcomes_add_rounds (n c : ℕ) : (outcomes values (n + c * values.length)).countP Value.isTrue =
    (outcomes values n).countP Value.isTrue + c * values.countP Value.isTrue := by
  induction c with
  | zero => simp
  | succ c ih =>
    rw [show n + (c + 1) * values.length = values.length + (n + c * values.length) by ring,
      outcomes_add_round, List.countP_append, ih]
    ring

/-- The true outcomes are those of the whole rounds and of the rest of a round. -/
theorem countP_outcomes (h : values ≠ []) (n : ℕ) : (outcomes values n).countP Value.isTrue =
    n / values.length * values.countP Value.isTrue +
      (values.take (n % values.length)).countP Value.isTrue := by
  have rest := Nat.mod_lt n (List.length_pos_iff.2 h)
  have parts := @outcomes_add_rounds values (n % values.length) (n / values.length)
  rw [mul_comm (n / values.length) values.length, Nat.mod_add_div, outcomes_of_le rest.le] at parts
  rw [parts, add_comm]

theorem successes_cycle (h : values ≠ []) (n : ℕ) :
    successes (Value.cycle values).trial n = .ok ((outcomes values n).countP Value.isTrue) := by
  have given : ∀ i, (Value.cycle values).trial i =
      .ok (values.getD (i % values.length) .nothing) := fun i => by
    rw [Value.trial, if_neg (by simpa using h)]
  rw [successes, countFrom_eq fun j _ _ => given j, Nat.zero_add, outcomes, List.countP_map,
    List.range_eq_range']
  rfl

end Rounds

/-! ## Estimates -/

section Estimates

variable {e : Experiment} {trials : ℤ} {count : ℕ} {s : Solution}

/-- Without trials, the experiment is not asked. -/
theorem monteCarlo_few (few : trials < 1) (e : Experiment) : monteCarlo e (.whole trials) =
    .ok (.failure "monte_carlo" "Trials must be a positive integer" []
      [("trials", .whole trials)]) := by
  rw [monteCarlo, show (Value.whole trials).less (1 : Int) = .ok true from
    (Value.less_whole trials 1).trans (by rw [decide_eq_true few])]
  rfl

theorem monteCarlo_eq (enough : 1 ≤ trials) (e : Experiment) : monteCarlo e (.whole trials) =
    successes e trials.toNat >>= fun count => estimate count (.whole trials) := by
  rw [monteCarlo, show (Value.whole trials).less (1 : Int) = .ok false from
    (Value.less_whole trials 1).trans (by rw [decide_eq_false (not_lt.2 enough)])]
  rfl

theorem estimate_tells {v : Value} (h : estimate count v = .ok s) :
    s.method = "monte_carlo" ∧ s.success = true ∧
      ∃ probability interval, s.details = [("probability", probability),
        ("successes", .whole count), ("trials", v), ("confidence_interval", interval)] := by
  obtain ⟨probability, -, h⟩ := bind_eq_ok_iff.1 h
  obtain ⟨p, -, h⟩ := bind_eq_ok_iff.1 h
  obtain ⟨m, -, h⟩ := bind_eq_ok_iff.1 h
  obtain ⟨first, -, h⟩ := bind_eq_ok_iff.1 h
  obtain ⟨fixed, -, h⟩ := bind_eq_ok_iff.1 h
  obtain ⟨second, -, h⟩ := bind_eq_ok_iff.1 h
  cases h
  exact ⟨rfl, rfl, probability, _, rfl⟩

/-- The quotient of a count by the number of trials is a part of one. -/
theorem div_part (enough : 1 ≤ trials) (few : count ≤ trials.toNat) :
    ∃ x q, (Value.whole count).div (.whole trials) = .ok (.measure x) ∧
      Double.toRat? x = some q ∧ 0 ≤ q ∧ q ≤ 1 := by
  obtain ⟨x, q, hx, value, low, high⟩ := Double.ofQuotient_part (n := trials.toNat) (by omega) few
  rw [Int.toNat_of_nonneg (by omega)] at hx
  refine ⟨x, q, ?_, value, low, high⟩
  change (Quantity.div (.whole count) (.whole trials)).map Value.number = _
  rw [Quantity.div, Quantity.combine, if_neg (by omega), hx]
  rfl

theorem div_measure (a : Float) (n : ℤ) : Value.div (.measure a) (.whole n) =
    ((Quantity.whole n).toFloat >>= fun b =>
      if b == 0 then .error .measuredDivisionByZero else .ok (.measure (a / b))).map .number :=
  rfl

/-- The half width of the interval is the root of a number that is not negative. -/
theorem exists_margin {x : Float} {q : ℚ} (enough : 1 ≤ trials)
    (double : trials.natAbs < Double.overflowBound) (value : Double.toRat? x = some q) (low : 0 ≤ q)
    (high : q ≤ 1) : ∃ m, margin x (.whole trials) = .ok m := by
  obtain ⟨t, w, ht, divisor, positive⟩ := Double.ofInt_positive (by omega) double
  have one_le : ∀ {z : ℚ}, z ≤ 2 ^ (1 : ℤ) → z ≤ 2 ^ (1000 : ℤ) := fun h =>
    h.trans (Double.two_zpow_mono (by decide))
  have one : Double.toRat? (1 : Float) = some 1 := by decide +kernel
  have size : |1 - q| ≤ 1 := by
    rw [abs_le]
    constructor <;> linarith
  obtain ⟨r, hr, near⟩ := Double.sub_near one value (one_le (size.trans (by norm_num)))
  have low' := near.nonneg (by linarith)
  have high' : r ≤ 2 := by
    have := near.bounds.1
    have := le_abs_self r
    linarith
  have product : |q * r| ≤ 2 := by
    rw [abs_of_nonneg (mul_nonneg low low')]
    nlinarith
  obtain ⟨p, hp, near'⟩ := Double.mul_near value hr (one_le (product.trans (by norm_num)))
  have apart : (t == 0) = false := by
    rw [← Bool.not_eq_true, Double.beq_iff_of_values divisor (q := 0) (by decide +kernel)]
    exact positive.ne'
  have quotient : Value.div (.measure (x * (1 - x))) (.whole trials) =
      .ok (.measure (x * (1 - x) / t)) := by
    rw [div_measure, Quantity.toFloat, ht, ok_bind, apart]
    rfl
  have root : Double.squareRoot (x * (1 - x) / t) = .ok (x * (1 - x) / t).sqrt :=
    if_neg (Double.not_div_lt_zero hp divisor (near'.nonneg (mul_nonneg low low')) positive)
  rw [margin, quotient, ok_bind]
  change ∃ m, (Double.squareRoot (x * (1 - x) / t) >>= fun s => .ok (1.96 * s)) = .ok m
  rw [root]
  exact ⟨_, rfl⟩

/-- A count that is not above the number of trials has an estimate, if that number has a double. -/
theorem exists_estimate (enough : 1 ≤ trials) (few : count ≤ trials.toNat)
    (double : trials.natAbs < Double.overflowBound) :
    ∃ s, estimate count (.whole trials) = .ok s := by
  obtain ⟨x, q, probability, value, low, high⟩ := div_part enough few
  obtain ⟨m, hm⟩ := exists_margin enough double value low high
  have writable := Double.writable_of_lt_overflowBound double
  have writable' : Writable count := writable.of_between (by omega) (by omega)
  have first : ∃ l, Value.line ["Ran ", .whole trials, " trials with ", .whole count,
      " successes"] = .ok l :=
    Value.exists_line_of_writable (by simp [Value.wholeNumbers, writable, writable'])
  have second : ∃ l, Value.line ["P ≈ ", .whole count, " / ", .whole trials, " = ",
      .text (Double.fixed 6 x)] = .ok l :=
    Value.exists_line_of_writable (by simp [Value.wholeNumbers, writable, writable'])
  obtain ⟨first, hfirst⟩ := first
  obtain ⟨second, hsecond⟩ := second
  rw [estimate, probability, ok_bind, show (Value.measure x).toFloat = .ok x from rfl, ok_bind, hm,
    ok_bind]
  dsimp only
  rw [hfirst, ok_bind, show (Value.measure x).fixed 6 = .ok (Double.fixed 6 x) from rfl, ok_bind,
    hsecond]
  exact ⟨_, rfl⟩

/-- A number of trials past the doubles has no estimate. -/
theorem estimate_past (enough : 1 ≤ trials) (few : count ≤ trials.toNat)
    (past : Double.overflowBound ≤ trials.natAbs) :
    estimate count (.whole trials) = .error .pastDoubles := by
  obtain ⟨x, q, probability, value, low, high⟩ := div_part enough few
  have quotient : Value.div (.measure (x * (1 - x))) (.whole trials) = .error .pastDoubles := by
    rw [div_measure, Quantity.toFloat, Double.ofInt_eq_none past]
    rfl
  rw [estimate, probability, ok_bind, show (Value.measure x).toFloat = .ok x from rfl, ok_bind,
    margin, quotient]
  rfl

end Estimates

/-- Every one of the trials is a call of the experiment, and those of one that gives its values in
turn succeed as often as whole rounds and the rest of a round hold true values. So each further round
adds as many successes as there are true values. The solution tells this number, and there is one
unless the number of trials has no double. Without trials the experiment is not called. -/
theorem trials_of_a_cycle_are_counted_exactly {values : List Value} (nonempty : values ≠ [])
    (trials : ℤ) :
    (1 ≤ trials →
      CallsExactly (fun e => monteCarlo e (.whole trials)) trials.toNat ∧
      ∃ count : ℕ, count = trials.toNat / values.length * values.countP Value.isTrue +
          (values.take (trials.toNat % values.length)).countP Value.isTrue ∧
        count ≤ trials.toNat ∧
        successes (Value.cycle values).trial trials.toNat = .ok count ∧
        (∀ c, successes (Value.cycle values).trial (trials.toNat + c * values.length) =
          .ok (count + c * values.countP Value.isTrue)) ∧
        ((∃ s, monteCarlo (Value.cycle values).trial (.whole trials) = .ok s ∧ s.success = true ∧
            ("successes", .whole count) ∈ s.details) ∨
          Double.overflowBound ≤ trials.natAbs ∧
            monteCarlo (Value.cycle values).trial (.whole trials) = .error .pastDoubles)) ∧
    (trials < 1 →
      CallsExactly (fun e => monteCarlo e (.whole trials)) 0 ∧
      ∀ e, monteCarlo e (.whole trials) = .ok (.failure "monte_carlo"
        "Trials must be a positive integer" [] [("trials", .whole trials)])) := by
  constructor
  · intro enough
    have counted := successes_cycle nonempty trials.toNat
    have few : (outcomes values trials.toNat).countP Value.isTrue ≤ trials.toNat :=
      List.countP_le_length.trans (by simp [outcomes])
    refine ⟨?_, _, countP_outcomes nonempty trials.toNat, few, counted, fun c => ?_, ?_⟩
    · simp only [monteCarlo_eq enough]
      exact (successes_calls trials.toNat).bind _
    · rw [successes_cycle nonempty, outcomes_add_rounds]
    · rw [monteCarlo_eq enough, counted, ok_bind]
      rcases Nat.lt_or_ge trials.natAbs Double.overflowBound with double | past
      · obtain ⟨s, hs⟩ := exists_estimate enough few double
        obtain ⟨-, success, probability, interval, details⟩ := estimate_tells hs
        exact .inl ⟨s, hs, success, by rw [details]; simp⟩
      · exact .inr ⟨past, estimate_past enough few past⟩
  · intro none
    refine ⟨⟨fun e e' _ => ?_, fun _ i _ hi => absurd hi (Nat.not_lt_zero i)⟩, monteCarlo_few none⟩
    rw [monteCarlo_few none, monteCarlo_few none]

/-- Five trials of a true value and a false one in turn have three successes. -/
theorem three_of_five_trials_succeed :
    ∃ s, monteCarlo (Value.cycle [.truth true, .whole 0]).trial (.whole 5) = .ok s ∧
      ("successes", .whole 3) ∈ s.details := by
  have nonempty : [Value.truth true, .whole 0] ≠ [] := by simp
  obtain ⟨-, count, closed, -, -, -, returns⟩ :=
    (trials_of_a_cycle_are_counted_exactly nonempty 5).1 (by decide)
  obtain rfl : count = 3 := closed
  obtain ⟨s, hs, -, details⟩ | ⟨past, -⟩ := returns
  · exact ⟨s, hs, details⟩
  · exact absurd past (by decide +kernel)

end Numerical

end Reckoner
