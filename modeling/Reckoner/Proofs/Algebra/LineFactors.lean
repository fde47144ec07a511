-- What is taken out of a line: its content, the bar below it, and the common factor of its terms.
-- Each step leaves a line, in normal form or with a number before it.
import Mathlib
import Reckoner.Proofs.Algebra.LineSigns

namespace Reckoner

namespace Expr

variable {v : String} {a b : ℤ}

theorem IsLine.settleSigns (ha : a ≠ 0) {x : Expr} (h : IsLine v a b x) :
    x.settleSigns = line v a b := by
  cases h with
  | whole => exact settleSigns_line ha b
  | shared number slope height he =>
    subst slope height
    exact settleSigns_shared (left_ne_zero_of_mul ha) (right_ne_zero_of_mul ha) he

/-! ## Primitive lines -/

theorem coeffMul_lineTerm (v : String) (a : ℤ) :
    (lineTerm v a).coeffMul = (.exact (a : ℚ), .sym v) := by
  rcases lineTerm_cases v a with ⟨rfl, eq⟩ | ⟨-, eq⟩ <;> rw [eq] <;> rfl

theorem ofRat_intCast (c : ℤ) : ofRat (c : ℚ) = ofInt c := rfl

theorem coeffMul_ofInt (b : ℤ) : (ofInt b).coeffMul = (.exact (b : ℚ), .one) := rfl

theorem keepCoeff_one (c : ℤ) : keepCoeff (.exact c) .one = .ofInt c := by
  have one : Expr.one = .ofInt 1 := rfl
  rw [one]
  exact (keepCoeff_ofInt (B := .ofDepth 64) c 1).trans (by rw [mul_one])

theorem keepCoeff_sym {c : ℤ} (hc : c ≠ 0) (v : String) :
    keepCoeff (.exact c) (.sym v) = lineTerm v c := by
  have one : Expr.sym v = lineTerm v 1 := rfl
  rw [one]
  exact (keepCoeff_lineTerm (n := 62) hc 1).trans (by rw [mul_one])

theorem times_sym (v : String) (ha : a ≠ 0) : mul [.ofInt a, .sym v] = lineTerm v a := by
  have term := times_lineTerm (v := v) ha one_ne_zero
  rwa [mul_one] at term

/-- A line is a positive number times a line without a common divisor. -/
theorem exists_primitive (ha : a ≠ 0) (b : ℤ) :
    ∃ g d e : ℤ, 0 < g ∧ d ≠ 0 ∧ e.gcd d = 1 ∧ a = g * d ∧ b = g * e := by
  have positive : 0 < b.gcd a := Int.gcd_pos_of_ne_zero_right b ha
  obtain ⟨e, d, coprime, height, slope⟩ := Int.exists_gcd_one positive
  refine ⟨b.gcd a, d, e, by exact_mod_cast positive, ?_, coprime, by rwa [mul_comm],
    by rwa [mul_comm]⟩
  rintro rfl
  exact ha (by rw [slope, zero_mul])

section Primitive

variable {g d e : ℤ} (hg : 0 < g) (hd : d ≠ 0) (coprime : e.gcd d = 1)

include hg hd coprime

/-- The greatest common divisor goes before the sum. -/
theorem primitiveSum_line (v : String) :
    primitiveSum [.ofInt (g * e), lineTerm v (g * d)] =
      ((g : ℚ), .sum [.ofInt e, lineTerm v d]) := by
  have content : gcdList [g * e, g * d] = g.natAbs := by
    change Nat.gcd (Nat.gcd 0 (g * e).natAbs) (g * d).natAbs = _
    rw [Nat.gcd_zero_left]
    change (g * e).gcd (g * d) = _
    rw [Int.gcd_mul_left, coprime, mul_one]
  have bars : lcmList [1, 1] = 1 := rfl
  have size : (g.natAbs : ℤ) = g := Int.natAbs_of_nonneg hg.le
  unfold primitiveSum
  simp only [List.map_cons, List.map_nil, coeffMul_lineTerm, coeffMul_ofInt, Rat.num_intCast,
    Rat.den_intCast, content, bars]
  by_cases one : g = 1
  · rw [one]
    simp
  · rw [if_neg (by simp; omega), size, Int.mul_ediv_cancel_left _ hg.ne',
      Int.mul_ediv_cancel_left _ hg.ne']
    simp only [Nat.div_one, Nat.cast_one, mul_one, keepCoeff_one, keepCoeff_sym hd]
    rw [Rat.mkRat_one]
    rfl

end Primitive

/-! ## Quotients -/

theorem numerDenomAux_ofInt (fuel : ℕ) (b : ℤ) :
    numerDenomAux fuel (.ofInt b) = (.ofInt b, .one) := by
  cases fuel <;> rfl

theorem numerDenomAux_sym (fuel : ℕ) (v : String) :
    numerDenomAux fuel (.sym v) = (.sym v, .one) := by
  cases fuel <;> rfl

theorem numerDenomAux_lineTerm (v : String) (ha : a ≠ 0) (fuel : ℕ) :
    numerDenomAux fuel (lineTerm v a) = (lineTerm v a, .one) := by
  cases fuel with
  | zero => rfl
  | succ fuel =>
    rcases lineTerm_cases v a with ⟨rfl, eq⟩ | ⟨-, eq⟩
    · rw [eq]
      rfl
    · have product := times_sym v ha
      rw [eq] at product
      rw [eq]
      simp only [numerDenomAux, List.map_cons, List.map_nil, numerDenomAux_ofInt, numerDenomAux_sym]
      rw [product]
      rfl

theorem numerDenomAux_line (ha : a ≠ 0) (b : ℤ) (fuel : ℕ) :
    numerDenomAux fuel (line v a b) = (line v a b, .one) := by
  by_cases hb : b = 0
  · rw [hb]
    exact numerDenomAux_lineTerm v ha fuel
  · cases fuel with
    | zero => rfl
    | succ fuel =>
      obtain ⟨g, d, e, hg, hd, coprime, rfl, rfl⟩ := exists_primitive ha b
      rw [line_of_ne_zero v _ hb]
      have height : keepCoeff (.exact (g : ℚ)) (.ofInt e) = .ofInt (g * e) :=
        keepCoeff_ofInt (B := .ofDepth 64) g e
      have slope : keepCoeff (.exact (g : ℚ)) (lineTerm v d) = lineTerm v (g * d) :=
        keepCoeff_lineTerm (n := 62) hg.ne' d
      have bar : keepCoeff (.exact 1) .one = .one := rfl
      simp only [numerDenomAux, primitiveSum_line hg hd coprime, List.foldl_cons, List.foldl_nil,
        numerDenomAux_ofInt, numerDenomAux_lineTerm v hd, Rat.num_intCast, Rat.den_intCast,
        addEntry, if_true, List.cons_append, List.map_cons, List.nil_append,
        List.map_nil, height, slope, Nat.cast_one, bar, add_line ha]
      rw [line_of_ne_zero v _ hb]

theorem numerDenom_line (ha : a ≠ 0) (b : ℤ) : (line v a b).numerDenom = (line v a b, .one) :=
  numerDenomAux_line ha b _

theorem IsLine.numerDenom (ha : a ≠ 0) {x : Expr} (h : IsLine v a b x) :
    x.numerDenom = (line v a b, .one) := by
  cases h with
  | whole => exact numerDenom_line ha b
  | @shared c d e number slope height he =>
    subst slope height
    have hd := right_ne_zero_of_mul ha
    have product := times_line (v := v) (left_ne_zero_of_mul ha) hd e
    obtain ⟨fuel, size⟩ : ∃ fuel, 2 * (Expr.shared v c d e).size + 4 = fuel + 1 := ⟨_, rfl⟩
    have sum := numerDenomAux_line (v := v) hd e fuel
    rw [Expr.numerDenom, size]
    rw [line_of_ne_zero v d he] at sum product
    simp only [Expr.shared, numerDenomAux, List.map_cons, List.map_nil, numerDenomAux_ofInt, sum]
    rw [product]
    rfl

theorem asQuotient_line (ha : a ≠ 0) (b : ℤ) : (line v a b).asQuotient = line v a b := by
  unfold asQuotient
  rw [numerDenom_line ha]
  exact ite_self _

theorem quotients_line (ha : a ≠ 0) (b : ℤ) : (line v a b).mapUp asQuotient = line v a b := by
  rw [mapUp_line (fun c => rfl) rfl (asQuotient_line ha 0), asQuotient_line ha]

/-! ## Powers joined -/

theorem inverse_ofInt (h : 1 < a) : inverse (.ofInt a) = .ofRat (1 / a) := by
  have zero : ¬ ofInt a = .num (.exact 0) := fun eq => by
    have := (ofInt_inj (b := 0)).1 eq
    omega
  have one : ¬ ofInt a = .one := mt ofInt_eq_one_iff.1 (by omega)
  have up : (Number.exact (a : ℚ)).isNegative = false := by
    rw [isNegative_exact, decide_eq_false (by omega)]
  have number : Builder.powByBase? (.ofDepth 63) (.ofInt a) .negOne = some (.ofRat (1 / a)) := by
    have q0 : ¬ (a : ℚ) = 0 := by exact_mod_cast (by omega : a ≠ 0)
    have q1 : ¬ (a : ℚ) = -1 := by exact_mod_cast (by omega : a ≠ -1)
    have power : Builder.powInt? (.ofDepth 63) a (-1) = some (.ofRat (1 / (a : ℚ) ^ 1)) := rfl
    change Builder.powNumber? (.ofDepth 63) (.exact a) (.exact (-1)) = _
    rw [Builder.powNumber?, if_neg q0, if_neg q1, if_pos (Rat.den_intCast a), Rat.num_intCast,
      power, pow_one]
  have notNan : ¬ ((ofInt a = nan || negOne = nan) = true) := by simp [ofInt, nan, negOne]
  have notZoo : ¬ ((negOne = negOne && ofInt a = .num (.exact 0)) = true) := by simp [zero]
  change Builder.powOf (.ofDepth 63) (.ofInt a) .negOne = _
  unfold Builder.powOf
  rw [if_neg (by decide), if_neg (by decide), if_neg (by decide), if_neg notZoo, if_neg notNan]
  simp only [ofInt, up]
  change (if ofInt a = .one then _ else _) = _
  rw [if_neg one]
  change (Builder.powByBase? (.ofDepth 63) (.ofInt a) .negOne).getD _ = _
  rw [number, Option.getD_some]

theorem sym_ne_ofInt (v : String) (c : ℤ) : Expr.sym v ≠ .ofInt c := fun h => by cases h

/-- No factor of a term is the inverse of the other. -/
theorem joinInverses_term (v : String) (h : a ≠ 1) :
    joinInverses [(.sym v, .one), (.ofInt a, .one)] = [(.sym v, .one), (.ofInt a, .one)] := by
  have unknown : (Expr.sym v).isPositive = false := rfl
  unfold joinInverses
  simp only [List.foldl_cons, List.foldl_nil, unknown, Bool.not_false, Bool.or_true, if_true]
  by_cases up : 0 < a
  · have large : 1 < (a : ℚ) := by exact_mod_cast (by omega : 1 < a)
    have other : ¬ Expr.ofInt a = .ofRat (1 / a) := by
      rw [ofInt, ofRat, num.injEq, Number.exact.injEq]
      exact (lt_trans ((div_lt_one (by linarith)).2 large) large).ne'
    have missing : lookupEntry (inverse (.ofInt a)) [(Expr.sym v, Expr.one), (.ofInt a, .one)] =
        none := by
      have distinct : ¬ Expr.sym v = .ofRat (1 / a) := fun h => by cases h
      rw [inverse_ofInt (by omega), lookupEntry, if_neg distinct, lookupEntry, if_neg other,
        lookupEntry]
    simp only [missing, ite_self]
  · simp only [isPositive_ofInt, decide_eq_false up, Bool.not_false, Bool.or_true, if_true]

theorem joinNegatives_term (v : String) (ha : a ≠ 0) :
    joinNegatives [(.sym v, .one), (.ofInt a, .one)] = [(.sym v, .one), (.ofInt a, .one)] := by
  have distinct : ¬ Expr.sym v = .ofInt a := sym_ne_ofInt v a
  have unknown : neg (.sym v) = .prod [.negOne, .sym v] := rfl
  have number : neg (.ofInt a) = .ofInt (-a) := neg_ofInt (B := .ofDepth 64) a
  have other : ¬ ofInt a = .ofInt (-a) := by
    rw [ofInt_inj]
    omega
  have first : lookupEntry (neg (.sym v)) [(Expr.sym v, Expr.one), (.ofInt a, .one)] = none := by
    simp [lookupEntry, unknown, ofInt]
  have second : lookupEntry (neg (.ofInt a)) [(Expr.sym v, Expr.one), (.ofInt a, .one)] = none := by
    rw [number, lookupEntry, if_neg (sym_ne_ofInt v _), lookupEntry, if_neg other, lookupEntry]
  have here : lookupEntry (.sym v) [(Expr.sym v, Expr.one), (.ofInt a, .one)] = some .one :=
    if_pos rfl
  have there : lookupEntry (.ofInt a) [(Expr.sym v, Expr.one), (.ofInt a, .one)] = some .one := by
    rw [lookupEntry, if_neg distinct, lookupEntry, if_pos rfl]
  unfold joinNegatives
  simp only [List.foldl_cons, List.foldl_nil, first, second, here, there]

theorem joinRadicals_term (v : String) (a : ℤ) :
    joinRadicals [(.sym v, .one), (.ofInt a, .one)] = [(.sym v, .one), (.ofInt a, .one)] := by
  have unknown : radicandOf (.sym v) .one = ((.sym v, 1), 1) := rfl
  have number : radicandOf (.ofInt a) .one = ((.ofInt a, 1), 1) := rfl
  have distinct : ¬ ((Expr.sym v, 1) : Radicand) = (.ofInt a, 1) := fun h =>
    sym_ne_ofInt v a (congrArg Prod.fst h)
  unfold joinRadicals
  simp only [List.map_cons, List.map_nil, unknown, number, List.foldl_cons, List.foldl_nil,
    addEntry, if_neg distinct]
  rfl

/-- The factors of a term are their own powers. -/
theorem joinExponents_term (ha : a ≠ 0) (h : a ≠ 1) {part : Expr → Expr}
    (unknown : part (.sym v) = .sym v) (one : part .one = .one) (deep : Bool) :
    joinExponents deep part [.ofInt a, .sym v] = lineTerm v a := by
  have base : basePart deep part (.sym v) = (.sym v, .one) := by
    have power : (Expr.sym v).denestPower.baseExp neg = (.sym v, .one) := rfl
    unfold basePart
    rw [power]
    cases deep
    · rfl
    · simp only [if_true, unknown, one]
  have coeff : ([ofInt a, .sym v].filterMap rat?).foldl (· * ·) (1 : ℚ) = a := one_mul _
  have kept : [ofInt a, .sym v].filter (fun f => !f.isRational) = [.sym v] := rfl
  have notOne : ¬ (a : ℚ) = 1 := by exact_mod_cast h
  have absorbed : absorbCoefficient a [(.sym v, [.one])] = ((a : ℚ), [(.sym v, [.one])]) := rfl
  have sum : add [.one] = .one := rfl
  have distinct : ¬ Expr.sym v = .ofInt a := sym_ne_ofInt v a
  have product : mul [.sym v, .ofInt a] = lineTerm v a :=
    (prodOf_ofInt_right (B := .ofDepth 63) a rfl).trans (times_sym v ha)
  unfold joinExponents
  rw [coeff, kept]
  simp only [List.foldl_cons, List.foldl_nil, base, addEntry, absorbed, List.map_cons,
    List.map_nil, if_neg notOne, ofRat_intCast, sum, if_neg distinct]
  have powers : (joinNegatives (joinInverses [(.sym v, .one), (.ofInt a, .one)])).filter
      (fun p => p.2 != .zero) = [(.sym v, .one), (.ofInt a, .one)] := by
    rw [joinInverses_term v h, joinNegatives_term v ha]
    rfl
  refine Eq.trans ?_ product
  refine congrArg mul ?_
  refine (congrArg (fun l => (joinRadicals l).map fun p => power p.1 p.2) powers).trans ?_
  rw [joinRadicals_term]
  rfl

theorem power_one (x : Expr) : power x .one = x := rfl

theorem absorbExponent_one (b : Expr) : absorbExponent b .one = (b, .one) := by
  unfold absorbExponent
  dsimp only
  split_ifs <;> rfl

theorem joinBases_term (ha : a ≠ 0) : joinBases [.ofInt a, .sym v] = lineTerm v a := by
  have unknown : (Expr.sym v).baseExp neg = (.sym v, .one) := rfl
  have number : ((a : ℚ).num = 1 && (a : ℚ).den ≠ 1) = false := by simp
  have whole : Expr.one.isInteger = true := rfl
  have product := times_sym v ha
  have single : mul [lineTerm v a] = lineTerm v a := by
    rcases lineTerm_cases v a with ⟨-, eq⟩ | ⟨-, eq⟩ <;> rw [eq] <;> rfl
  unfold joinBases
  rw [ofInt] at *
  simp only [List.foldl_cons, List.foldl_nil, number, Bool.false_eq_true, if_false,
    absorbExponent_one, unknown, addEntry, List.singleton_append]
  change mul [power (mul [.num (.exact a), .sym v]) .one] = _
  rw [product, power_one, single]

theorem mapProducts_ofInt (rule : List Expr → Expr) (fuel : ℕ) (b : ℤ) :
    mapProducts rule fuel (.ofInt b) = .ofInt b := by
  cases fuel <;> rfl

theorem mapProducts_sym (rule : List Expr → Expr) (fuel : ℕ) (v : String) :
    mapProducts rule fuel (.sym v) = .sym v := by
  cases fuel <;> rfl

section MapProducts

variable {rule : List Expr → Expr} (ha : a ≠ 0)
  (term : a ≠ 1 → rule [.ofInt a, .sym v] = lineTerm v a)

include ha term

theorem mapProducts_lineTerm (fuel : ℕ) :
    mapProducts rule fuel (lineTerm v a) = lineTerm v a := by
  cases fuel with
  | zero => rfl
  | succ fuel =>
    rcases lineTerm_cases v a with ⟨-, eq⟩ | ⟨h, eq⟩
    · rw [eq]
      rfl
    · have product := times_sym v ha
      have joined := term h
      rw [eq] at product joined ⊢
      simp only [mapProducts, List.map_cons, List.map_nil, mapProducts_ofInt, mapProducts_sym,
        product]
      exact joined

theorem mapProducts_line (b : ℤ) (fuel : ℕ) : mapProducts rule fuel (line v a b) = line v a b := by
  by_cases hb : b = 0
  · rw [hb]
    exact mapProducts_lineTerm ha term fuel
  · cases fuel with
    | zero => rfl
    | succ fuel =>
      rw [line_of_ne_zero v a hb]
      simp only [mapProducts, List.map_cons, List.map_nil, mapProducts_ofInt,
        mapProducts_lineTerm ha term]
      rw [add_line ha, line_of_ne_zero v a hb]

/-- The number before a line goes to its terms. -/
theorem mapProducts_shared {c : ℤ} (hc : c ≠ 0) (hb : b ≠ 0) {fuel : ℕ} :
    mapProducts rule (fuel + 1) (shared v c a b) = line v (c * a) (c * b) := by
  have line := mapProducts_line ha term b fuel
  have product := times_line (v := v) hc ha b
  rw [line_of_ne_zero v _ (mul_ne_zero hc hb)] at product ⊢
  rw [line_of_ne_zero v a hb] at line product
  simp only [shared, mapProducts, List.map_cons, List.map_nil, mapProducts_ofInt, line, product]

end MapProducts

theorem joinBasesAll_lineTerm (v : String) (ha : a ≠ 0) :
    (lineTerm v a).joinBasesAll = lineTerm v a :=
  mapProducts_lineTerm ha (fun _ => joinBases_term ha) _

theorem joinPowers_line (ha : a ≠ 0) (b : ℤ) : (line v a b).joinPowers = line v a b := by
  refine mapProducts_line ha (fun h => ?_) b _
  have joined : joinExponents false id [.ofInt a, .sym v] = lineTerm v a :=
    joinExponents_term ha h rfl rfl false
  change (joinExponents false id [.ofInt a, .sym v]).joinBasesAll = _
  rw [joined, joinBasesAll_lineTerm v ha]

theorem IsLine.joinPowers (ha : a ≠ 0) {x : Expr} (h : IsLine v a b x) :
    x.joinPowers = line v a b := by
  cases h with
  | whole => exact joinPowers_line ha b
  | @shared c d e number slope height he =>
    subst slope height
    have hc := left_ne_zero_of_mul ha
    have hd := right_ne_zero_of_mul ha
    refine mapProducts_shared hd (fun h => ?_) hc he
    have joined : joinExponents false id [.ofInt d, .sym v] = lineTerm v d :=
      joinExponents_term hd h rfl rfl false
    change (joinExponents false id [.ofInt d, .sym v]).joinBasesAll = _
    rw [joined, joinBasesAll_lineTerm v hd]

theorem joinExponentsAll_lineTerm (v : String) (ha : a ≠ 0) (fuel : ℕ) :
    joinExponentsAllAux fuel (lineTerm v a) = lineTerm v a := by
  cases fuel with
  | zero => rfl
  | succ fuel =>
    have number (c : ℤ) : joinExponentsAllAux fuel (.ofInt c) = .ofInt c := by
      cases fuel <;> rfl
    have unknown : joinExponentsAllAux fuel (.sym v) = .sym v := by
      cases fuel <;> rfl
    rcases lineTerm_cases v a with ⟨-, eq⟩ | ⟨h, eq⟩
    · rw [eq]
      rfl
    · have product := times_sym v ha
      have joined : joinExponents true (joinExponentsAllAux fuel) [.ofInt a, .sym v] =
          lineTerm v a := joinExponents_term ha h unknown (number 1) true
      rw [eq] at product joined ⊢
      simp only [joinExponentsAllAux, List.map_cons, List.map_nil, number, unknown, product]
      exact joined

theorem joinExponentsAll_line (ha : a ≠ 0) (b : ℤ) (fuel : ℕ) :
    joinExponentsAllAux fuel (line v a b) = line v a b := by
  by_cases hb : b = 0
  · rw [hb]
    exact joinExponentsAll_lineTerm v ha fuel
  · cases fuel with
    | zero => rfl
    | succ fuel =>
      have number (c : ℤ) : joinExponentsAllAux fuel (.ofInt c) = .ofInt c := by
        cases fuel <;> rfl
      have sum := add_line (v := v) ha b
      rw [line_of_ne_zero v a hb] at sum ⊢
      simp only [joinExponentsAllAux, List.map_cons, List.map_nil, number,
        joinExponentsAll_lineTerm v ha, sum]

theorem IsLine.joinExponentsAll (ha : a ≠ 0) {x : Expr} (h : IsLine v a b x) :
    x.joinExponentsAll = line v a b := by
  cases h with
  | whole => exact joinExponentsAll_line ha b _
  | @shared c d e number slope height he =>
    subst slope height
    have hc := left_ne_zero_of_mul ha
    have hd := right_ne_zero_of_mul ha
    obtain ⟨fuel, size⟩ : ∃ fuel, (Expr.shared v c d e).size + 4 = fuel + 2 := ⟨_, rfl⟩
    have first : joinExponentsAllAux (fuel + 1) (.ofInt c) = .ofInt c := rfl
    have line := joinExponentsAll_line (v := v) hd e (fuel + 1)
    have product := times_line (v := v) hc hd e
    rw [Expr.joinExponentsAll, size]
    rw [line_of_ne_zero v _ (mul_ne_zero hc he)] at product ⊢
    rw [line_of_ne_zero v d he] at line product
    rw [Expr.shared, joinExponentsAllAux]
    simp only [List.map_cons, List.map_nil, first, line, product]

/-! ## Contents -/

section Content

variable {clear radical : Bool}

theorem contentPrimitiveAux_ofInt (fuel : ℕ) (hb : b ≠ 0) :
    contentPrimitiveAux clear radical (fuel + 1) (.ofInt b) = (((|b| : ℤ) : ℚ), .ofInt b.sign) := by
  have nonzero : ¬ (b : ℚ) = 0 := by exact_mod_cast hb
  rw [ofInt, contentPrimitiveAux, if_neg nonzero]
  by_cases down : b < 0
  · have negative : (b : ℚ) < 0 := by exact_mod_cast down
    rw [if_pos negative, abs_of_neg down, Int.sign_eq_neg_one_of_neg down, Int.cast_neg]
    rfl
  · have positive : ¬ (b : ℚ) < 0 := by exact_mod_cast down
    rw [if_neg positive, abs_of_nonneg (by omega), Int.sign_eq_one_of_pos (by omega)]
    rfl

theorem contentPrimitiveAux_lineTerm (v : String) (ha : a ≠ 0) (fuel : ℕ) :
    contentPrimitiveAux clear radical (fuel + 2) (lineTerm v a) =
      (((|a| : ℤ) : ℚ), lineTerm v a.sign) := by
  rcases lineTerm_cases v a with ⟨rfl, eq⟩ | ⟨-, eq⟩
  · rw [eq]
    rfl
  · have unknown : contentPrimitiveAux clear radical (fuel + 1) (.sym v) = (1, .sym v) := rfl
    have product : mul ([ofInt a.sign, .sym v].filter (· != .one)) = lineTerm v a.sign :=
      (prodOf_filter _).trans (times_sym v (by rwa [Ne, Int.sign_eq_zero_iff_zero]))
    rw [eq, contentPrimitiveAux]
    simp only [List.map_cons, List.map_nil, contentPrimitiveAux_ofInt fuel ha, unknown, product,
      List.foldl_cons, List.foldl_nil, one_mul, mul_one]

theorem shareRadicals_line (v : String) (a b : ℤ) :
    shareRadicals [.ofInt b, lineTerm v a] = .sum [.ofInt b, lineTerm v a] := by
  rcases lineTerm_cases v a with ⟨-, eq⟩ | ⟨-, eq⟩ <;> rw [eq] <;> rfl

theorem contentPrimitiveAux_sum {g d e : ℤ} (hg : 0 < g) (hd : d ≠ 0) (he : e ≠ 0)
    (coprime : e.gcd d = 1) (fuel : ℕ) :
    contentPrimitiveAux clear radical (fuel + 3) (.sum [.ofInt (g * e), lineTerm v (g * d)]) =
      ((g : ℚ), .sum [.ofInt e, lineTerm v d]) := by
  have slope : g * d ≠ 0 := mul_ne_zero hg.ne' hd
  have height : g * e ≠ 0 := mul_ne_zero hg.ne' he
  have first : keepCoeff (.exact ((|g * e| : ℤ) : ℚ)) (.ofInt (g * e).sign) = .ofInt (g * e) :=
    (keepCoeff_ofInt (B := .ofDepth 64) _ _).trans (by rw [mul_comm, Int.sign_mul_abs])
  have second : keepCoeff (.exact ((|g * d| : ℤ) : ℚ)) (lineTerm v (g * d).sign) =
      lineTerm v (g * d) :=
    (keepCoeff_lineTerm (n := 62) (by simpa using slope) _).trans
      (by rw [mul_comm, Int.sign_mul_abs])
  have whole : primitive (.sum [.ofInt (g * e), lineTerm v (g * d)]) =
      ((g : ℚ), .sum [.ofInt e, lineTerm v d]) := primitiveSum_line hg hd coprime v
  have sum := add_line (v := v) slope (g * e)
  rw [line_of_ne_zero v _ height] at sum
  rw [contentPrimitiveAux]
  simp only [List.map_cons, List.map_nil, contentPrimitiveAux_ofInt (fuel + 1) height,
    contentPrimitiveAux_lineTerm v slope, first, second, sum, whole, Rat.den_intCast]
  rw [if_neg (by simp), shareRadicals_line, ite_self]

/-- A line is a positive number times a line without a common divisor in one way. -/
theorem primitive_unique {g g' d d' e e' : ℤ} (hg : 0 < g) (hg' : 0 < g') (coprime : e.gcd d = 1)
    (coprime' : e'.gcd d' = 1) (slope : g * d = g' * d') (height : g * e = g' * e') :
    g = g' ∧ d = d' ∧ e = e' := by
  have size (n : ℤ) (hn : 0 < n) : (n.natAbs : ℤ) = n := Int.natAbs_of_nonneg hn.le
  have same : g = g' := by
    have left : (g * e).gcd (g * d) = g.natAbs := by rw [Int.gcd_mul_left, coprime, mul_one]
    have right : (g' * e').gcd (g' * d') = g'.natAbs := by
      rw [Int.gcd_mul_left, coprime', mul_one]
    rw [slope, height, right] at left
    rw [← size g hg, ← size g' hg', left]
  subst same
  exact ⟨rfl, mul_left_cancel₀ hg.ne' slope, mul_left_cancel₀ hg.ne' height⟩

/-- The content of a line is the greatest common divisor. -/
theorem IsLine.contentPrimitive {g d e : ℤ} (hg : 0 < g) (hd : d ≠ 0) (coprime : e.gcd d = 1)
    {x : Expr} (h : IsLine v (g * d) (g * e) x) :
    x.contentPrimitive clear radical = ((g : ℚ), line v d e) := by
  generalize hk : g * d = k, hl : g * e = l at h
  cases h with
  | whole =>
    subst hk hl
    by_cases he : e = 0
    · have unit : |d| = 1 := by
        rw [he, Int.gcd_zero_left] at coprime
        rw [Int.abs_eq_natAbs, coprime, Nat.cast_one]
      have content : |g * d| = g := by rw [abs_mul, unit, mul_one, abs_of_pos hg]
      have sign : (g * d).sign = d := by
        rw [Int.sign_mul, Int.sign_eq_one_of_pos hg, one_mul]
        rcases abs_eq (zero_le_one' ℤ) |>.1 unit with rfl | rfl <;> rfl
      have term : (lineTerm v (g * d)).contentPrimitive clear radical = _ :=
        contentPrimitiveAux_lineTerm v (mul_ne_zero hg.ne' hd) _
      rw [content, sign] at term
      rw [he, mul_zero, line_zero, line_zero]
      exact term
    · rw [line_of_ne_zero v _ he, line_of_ne_zero v _ (mul_ne_zero hg.ne' he)]
      exact contentPrimitiveAux_sum hg hd he coprime _
  | @shared c m n number slope height hn =>
    have hc : c ≠ 0 := by
      rintro rfl
      exact mul_ne_zero hg.ne' hd (by rw [hk, ← slope, zero_mul])
    have hm : m ≠ 0 := by
      rintro rfl
      exact mul_ne_zero hg.ne' hd (by rw [hk, ← slope, mul_zero])
    obtain ⟨g', d', e', hg', hd', coprime', rfl, rfl⟩ := exists_primitive hm n
    have he' : e' ≠ 0 := right_ne_zero_of_mul hn
    have unit : c.sign ≠ 0 := by rwa [Ne, Int.sign_eq_zero_iff_zero]
    have signs : |c| * c.sign = c := by rw [mul_comm, Int.sign_mul_abs]
    have coprime'' : (c.sign * e').gcd (c.sign * d') = 1 := by
      rw [Int.gcd_mul_left, coprime', mul_one, Int.natAbs_sign_of_ne_zero hc]
    obtain ⟨hg'', rfl, rfl⟩ := primitive_unique hg (mul_pos (abs_pos.2 hc) hg') coprime coprime''
      (by rw [hk, ← slope]; linear_combination (-g' * d') * signs)
      (by rw [hl, ← height]; linear_combination (-g' * e') * signs)
    obtain ⟨fuel, size⟩ : ∃ fuel, 2 * (Expr.shared v c (g' * d') (g' * e')).size + 4 = fuel + 4 :=
      ⟨_, rfl⟩
    have sum : contentPrimitiveAux clear radical (fuel + 3)
        (.sum [.ofInt (g' * e'), lineTerm v (g' * d')]) =
          ((g' : ℚ), .sum [.ofInt e', lineTerm v d']) :=
      contentPrimitiveAux_sum hg' hd' he' coprime' fuel
    have product : mul ([ofInt c.sign, .sum [.ofInt e', lineTerm v d']].filter (· != .one)) =
        line v (c.sign * d') (c.sign * e') := by
      refine (prodOf_filter _).trans ?_
      rw [← line_of_ne_zero v d' he']
      exact times_line unit hd' e'
    rw [Expr.contentPrimitive, size, Expr.shared, contentPrimitiveAux]
    simp only [List.map_cons, List.map_nil, contentPrimitiveAux_ofInt (fuel + 2) hc, sum, product,
      List.foldl_cons, List.foldl_nil, one_mul, hg'', Int.cast_mul]

end Content

/-! ## Common factors -/

theorem ofExpr_ofInt (b : ℤ) : Term.ofExpr (.ofInt b) = ⟨b, [], []⟩ := rfl

theorem ofExpr_lineTerm (v : String) (a : ℤ) :
    Term.ofExpr (lineTerm v a) = ⟨a, [(.sym v, 1)], []⟩ := by
  have power : (a : ℚ) * (1 : ℚ) ^ (1 : ℤ) = a := by rw [zpow_one, mul_one]
  rcases lineTerm_cases v a with ⟨rfl, eq⟩ | ⟨-, eq⟩
  · rw [eq]
    change Term.mk ((1 : ℚ) * (1 : ℚ) ^ (1 : ℤ)) [(.sym v, 1)] [] = _
    rw [zpow_one, mul_one, Int.cast_one]
  · rw [eq]
    change Term.mk ((a : ℚ) * (1 : ℚ) ^ (1 : ℤ)) [(.sym v, 1)] [] = _
    rw [power]

theorem gcdRat_scaled {g d e : ℤ} (hg : 0 < g) (coprime : e.gcd d = 1) :
    Term.gcdRat ((g * e : ℤ) : ℚ) ((g * d : ℤ) : ℚ) = g := by
  have size : (g.natAbs : ℤ) = g := Int.natAbs_of_nonneg hg.le
  have common : Nat.gcd (g * e).natAbs (g * d).natAbs = g.natAbs := by
    change (g * e).gcd (g * d) = _
    rw [Int.gcd_mul_left, coprime, mul_one]
  rw [Term.gcdRat, Rat.num_intCast, Rat.num_intCast, Rat.den_intCast, Rat.den_intCast, common, size]
  exact Rat.mkRat_one g

theorem times_one (c : ℤ) : mul [.ofInt c, .one] = .ofInt c := by
  have product := prodOf_ofInt (B := .ofDepth 63) c 1
  rwa [mul_one] at product

theorem toExpr_ofInt (c : ℤ) : Term.toExpr ⟨c, [], []⟩ = .ofInt c := times_one c

theorem toExpr_lineTerm (ha : a ≠ 0) : Term.toExpr ⟨a, [(.sym v, 1)], []⟩ = lineTerm v a := by
  have unknown : div (Powers.toExpr [(.sym v, 1)]) (Powers.toExpr []) = .sym v := rfl
  rw [Term.toExpr, unknown, ofRat_intCast, times_sym v ha]

theorem ofInt_ne_zero (h : b ≠ 0) : ofInt b ≠ .zero := fun eq => h ((ofInt_inj (b := 0)).1 eq)

theorem lineTerm_ne_zero (v : String) (a : ℤ) : lineTerm v a ≠ .zero := by
  rcases lineTerm_cases v a with ⟨-, eq⟩ | ⟨-, eq⟩ <;> rw [eq] <;> exact Expr.noConfusion

theorem keepCoeff_one_left (x : Expr) : keepCoeff (.exact 1) x = x := rfl

theorem isLine_sum {d e : ℤ} (he : e ≠ 0) : IsLine v d e (.sum [.ofInt e, lineTerm v d]) := by
  rw [← line_of_ne_zero v d he]
  exact .whole

/-- A number that is kept before a line. -/
theorem isLine_keepCoeff {c d e : ℤ} (hd : d ≠ 0) (he : e ≠ 0) :
    IsLine v (c * d) (c * e) (keepCoeff (.exact c) (.sum [.ofInt e, lineTerm v d])) := by
  by_cases h1 : c = 1
  · subst h1
    rw [one_mul, one_mul]
    exact isLine_sum he
  · by_cases h2 : c = -1
    · have negated : keepCoeff (.exact c) (.sum [.ofInt e, lineTerm v d]) =
          neg (.sum [.ofInt e, lineTerm v d]) := by
        rw [h2]
        rfl
      rw [negated, neg_sum v hd he, h2, neg_one_mul, neg_one_mul]
      exact isLine_sum (neg_ne_zero.2 he)
    · have kept : keepCoeff (.exact c) (.sum [.ofInt e, lineTerm v d]) = shared v c d e := by
        change Builder.full.keepCoeff _ _ = _
        unfold Builder.keepCoeff
        rw [if_neg (mt exact_eq_one.1 h1), if_neg Expr.noConfusion,
          if_neg (mt exact_eq_negOne.1 h2)]
        rfl
      rw [kept]
      exact .shared h1 rfl rfl he

theorem keepCoeffInside_ofInt (c : ℤ) (x : Expr) :
    keepCoeffInside (.exact c) x = keepCoeff (.exact c) x := by
  cases x with
  | sum l =>
    rw [keepCoeffInside, Rat.den_intCast]
    rfl
  | _ => rfl

section Primitive

variable {g d e : ℤ} (hg : 0 < g) (hd : d ≠ 0) (he : e ≠ 0) (coprime : e.gcd d = 1)

include hg hd he coprime

theorem shareTerms_line (v : String) (isPrimitive bar : Bool) :
    shareTerms isPrimitive bar [.ofInt (g * e), lineTerm v (g * d)] =
      (.ofInt g, .sum [.ofInt e, lineTerm v d], .one) := by
  have kept : [ofInt (g * e), lineTerm v (g * d)].filter (· != .zero) =
      [ofInt (g * e), lineTerm v (g * d)] := by
    simp [ofInt_ne_zero (mul_ne_zero hg.ne' he), lineTerm_ne_zero]
  have shared : Term.gcd ⟨((g * e : ℤ) : ℚ), [], []⟩ ⟨((g * d : ℤ) : ℚ), [(.sym v, 1)], []⟩ =
      ⟨g, [], []⟩ := by
    rw [Term.gcd, gcdRat_scaled hg coprime]
    rfl
  have nonzero : (g : ℚ) ≠ 0 := by exact_mod_cast hg.ne'
  have quotient (c : ℤ) : ((g * c : ℤ) : ℚ) / g = c := by
    rw [Int.cast_mul, mul_div_cancel_left₀ _ nonzero]
  have first : Term.quo ⟨((g * e : ℤ) : ℚ), [], []⟩ ⟨g, [], []⟩ = ⟨e, [], []⟩ := by
    rw [Term.quo, quotient]
    rfl
  have second : Term.quo ⟨((g * d : ℤ) : ℚ), [(.sym v, 1)], []⟩ ⟨g, [], []⟩ =
      ⟨d, [(.sym v, 1)], []⟩ := by
    rw [Term.quo, quotient]
    rfl
  have sum : add [.ofInt e, lineTerm v d] = .sum [.ofInt e, lineTerm v d] := by
    rw [add_line hd, line_of_ne_zero v d he]
  have primitive : primitive (.sum [.ofInt e, lineTerm v d]) =
      (1, .sum [.ofInt e, lineTerm v d]) := by
    have whole := primitiveSum_line one_pos hd coprime v
    rwa [one_mul, one_mul, Int.cast_one] at whole
  have again : times (.ofInt g) (.ofRat 1) = .ofInt g := times_one g
  have above : mul [.ofInt e, Powers.toExpr (Powers.mul [] (Powers.quo [] []))] = .ofInt e :=
    times_one e
  have above' : mul [.ofInt d, Powers.toExpr (Powers.mul [(.sym v, 1)] (Powers.quo [] []))] =
      lineTerm v d := times_sym v hd
  have parts : (if bar then
      (Term.toExpr ⟨g, [], []⟩,
        add [mul [.ofInt e, Powers.toExpr (Powers.mul [] (Powers.quo [] []))],
          mul [.ofInt d, Powers.toExpr (Powers.mul [(.sym v, 1)] (Powers.quo [] []))]], .one)
      else (Term.toExpr ⟨g, [], []⟩,
        add [Term.toExpr ⟨e, [], []⟩, Term.toExpr ⟨d, [(.sym v, 1)], []⟩], .one)) =
      (ofInt g, Expr.sum [.ofInt e, lineTerm v d], Expr.one) := by
    rw [above, above', toExpr_ofInt, toExpr_ofInt, toExpr_lineTerm hd, sum, ite_self]
  unfold shareTerms
  rw [kept]
  simp only [List.map_cons, List.map_nil, ofExpr_ofInt, ofExpr_lineTerm, List.foldl_cons,
    List.foldl_nil, shared, first, second]
  refine (congrArg (fun p : Expr × Expr × Expr => if !isPrimitive && p.2.1.isSum then
    (times p.1 (.ofRat p.2.1.primitive.1), p.2.1.primitive.2, p.2.2) else p) parts).trans ?_
  simp only [primitive, again, ite_self]

theorem shareFactors_line (v : String) (isPrimitive clear bar : Bool) :
    shareFactors isPrimitive clear bar [.ofInt (g * e), lineTerm v (g * d)] =
      keepCoeff (.exact g) (.sum [.ofInt e, lineTerm v d]) := by
  have den : ¬ ((!clear && (g : ℚ).den ≠ 1) = true) := by simp
  have product : mul [.one, .sum [.ofInt e, lineTerm v d], inverse .one] =
      .sum [.ofInt e, lineTerm v d] := rfl
  have sign : ¬ ((Number.exact (g : ℚ) = .exact (-1) && false) = true) := by simp
  unfold shareFactors
  rw [shareTerms_line hg hd he coprime]
  simp only [coeffMul_ofInt, if_neg den, product]
  rw [joinCoeff, if_neg sign, keepCoeffInside_ofInt, ite_self]

end Primitive

theorem togetherAux_lineTerm (v : String) (ha : a ≠ 0) (deep : Bool) (fuel : ℕ) :
    togetherAux deep fuel (lineTerm v a) = lineTerm v a := by
  cases fuel with
  | zero => rfl
  | succ fuel =>
    have number (c : ℤ) : togetherAux deep fuel (.ofInt c) = .ofInt c := by
      cases fuel <;> rfl
    have unknown : togetherAux deep fuel (.sym v) = .sym v := by
      cases fuel <;> rfl
    rcases lineTerm_cases v a with ⟨-, eq⟩ | ⟨h, eq⟩
    · rw [eq]
      rfl
    · have product := times_sym v ha
      rw [eq] at product ⊢
      simp only [togetherAux, List.map_cons, List.map_nil, number, unknown, product]

theorem isLine_together (ha : a ≠ 0) (b : ℤ) (deep : Bool) :
    IsLine v a b ((line v a b).together deep) := by
  by_cases hb : b = 0
  · subst hb
    have term := togetherAux_lineTerm v ha deep (2 * (lineTerm v a).size + 8)
    rw [together, line_zero, term]
    exact .whole
  · obtain ⟨g, d, e, hg, hd, coprime, rfl, rfl⟩ := exists_primitive ha b
    have he := right_ne_zero_of_mul hb
    obtain ⟨fuel, size⟩ : ∃ fuel, 2 * (line v (g * d) (g * e)).size + 8 = fuel + 1 := ⟨_, rfl⟩
    have number (c : ℤ) : togetherAux deep fuel (.ofInt c) = .ofInt c := by
      cases fuel <;> rfl
    rw [together, size, line_of_ne_zero v _ hb, togetherAux]
    simp only [List.map_cons, List.map_nil, number, togetherAux_lineTerm v ha]
    rw [shareFactors_line hg hd he coprime]
    exact isLine_keepCoeff hd he

/-! ## Factors taken out -/

theorem joinCoeff_lineTerm {c : ℤ} (hc : c ≠ 0) (a : ℤ) (clear sign : Bool) :
    joinCoeff clear sign (.exact c) (lineTerm v a) = lineTerm v (c * a) := by
  have kept : keepCoeff (.exact c) (lineTerm v a) = lineTerm v (c * a) :=
    keepCoeff_lineTerm (n := 62) hc a
  rw [← kept]
  rcases lineTerm_cases v a with ⟨-, eq⟩ | ⟨-, eq⟩ <;> rw [eq] <;> rfl

theorem isLine_joinCoeff {c d e : ℤ} (hd : d ≠ 0) (he : e ≠ 0) (clear sign : Bool) :
    IsLine v (c * d) (c * e)
      (joinCoeff clear sign (.exact c) (.sum [.ofInt e, lineTerm v d])) := by
  rw [joinCoeff, keepCoeffInside_ofInt, ite_self]
  split_ifs with h
  · obtain ⟨minus, -⟩ := Bool.and_eq_true _ _ ▸ h
    rw [decide_eq_true_eq, exact_eq_negOne] at minus
    subst minus
    exact .shared (by decide) rfl rfl he
  · exact isLine_keepCoeff hd he

section FactorTerms

variable {sign radical : Bool}

theorem factorTermsAux_ofInt (fuel : ℕ) (b : ℤ) :
    factorTermsAux sign radical fuel (.ofInt b) = .ofInt b := by
  cases fuel <;> rfl

/-- A sum or product whose primitive part is no sum, product, power or function. -/
theorem factorTermsAux_of_sym {x : Expr} (compound : x.isSum ∨ x.isProd) {c : ℚ}
    (content : x.contentPrimitive false radical = (c, .sym v)) (fuel : ℕ) :
    x.factorTermsAux sign radical (fuel + 1) = joinCoeff false sign (.exact c) (.sym v) := by
  cases x <;> simp only [isSum, isProd, Bool.false_eq_true, or_self] at compound <;>
    simp only [factorTermsAux, content]

/-- A sum or product whose primitive part is a product. -/
theorem factorTermsAux_of_prod {x : Expr} (compound : x.isSum ∨ x.isProd) {c : ℚ} {l : List Expr}
    (content : x.contentPrimitive false radical = (c, .prod l)) (fuel : ℕ) :
    x.factorTermsAux sign radical (fuel + 1) =
      joinCoeff false sign (.exact c) (mul (l.map (factorTermsAux sign radical fuel))) := by
  cases x <;> simp only [isSum, isProd, Bool.false_eq_true, or_self] at compound <;>
    simp only [factorTermsAux, content]

/-- A sum or product whose primitive part is a sum. -/
theorem factorTermsAux_of_sum {x : Expr} (compound : x.isSum ∨ x.isProd) {c : ℚ}
    {l terms : List Expr} (content : x.contentPrimitive false radical = (c, .sum l)) (fuel : ℕ)
    (parts : l.map (factorTermsAux sign radical fuel) = terms) :
    x.factorTermsAux sign radical (fuel + 1) =
      if terms.all fun t => t.coeffMul.1.isNegative then
        joinCoeff false sign (.exact (-c)) (shareFactors true false false (terms.map neg))
      else joinCoeff false sign (.exact c) (shareFactors true false false terms) := by
  subst parts
  cases x <;> simp only [isSum, isProd, Bool.false_eq_true, or_self] at compound <;>
    simp only [factorTermsAux, content] <;> split_ifs <;> rfl

theorem factorTermsAux_lineTerm (v : String) (ha : a ≠ 0) (fuel : ℕ) :
    factorTermsAux sign radical fuel (lineTerm v a) = lineTerm v a := by
  cases fuel with
  | zero => rfl
  | succ fuel =>
    rcases lineTerm_cases v a with ⟨-, eq⟩ | ⟨h, eq⟩
    · rw [eq]
      rfl
    · have compound : (lineTerm v a).isSum ∨ (lineTerm v a).isProd := .inr (by rw [eq]; rfl)
      have content : (lineTerm v a).contentPrimitive false radical =
          (((|a| : ℤ) : ℚ), lineTerm v a.sign) :=
        contentPrimitiveAux_lineTerm v ha _
      have joined := joinCoeff_lineTerm (v := v) (abs_ne_zero.2 ha) a.sign false sign
      rw [mul_comm, Int.sign_mul_abs] at joined
      rcases lt_or_gt_of_ne ha with down | up
      · have unknown : factorTermsAux sign radical fuel (.sym v) = .sym v := by
          cases fuel <;> rfl
        rw [Int.sign_eq_neg_one_of_neg down] at content joined
        rw [← times_sym v (by decide)] at joined
        rw [factorTermsAux_of_prod (l := [.ofInt (-1), .sym v]) compound content]
        simp only [List.map_cons, List.map_nil, factorTermsAux_ofInt, unknown, joined]
      · rw [Int.sign_eq_one_of_pos up] at content joined
        rw [factorTermsAux_of_sym compound content]
        exact joined

/-- The common factor of the terms of a line comes before them, with the sign if both terms have
it. -/
theorem IsLine.factorTermsAux (ha : a ≠ 0) {x : Expr} (h : IsLine v a b x) (fuel : ℕ) :
    IsLine v a b (x.factorTermsAux sign radical fuel) := by
  cases fuel with
  | zero => exact h
  | succ fuel =>
    by_cases hb : b = 0
    · cases h with
      | whole =>
        subst hb
        rw [line_zero, factorTermsAux_lineTerm v ha]
        exact .whole
      | @shared c d e number slope height he =>
        rw [hb, mul_eq_zero, or_iff_left he] at height
        rw [height, zero_mul] at slope
        exact absurd slope.symm ha
    · obtain ⟨g, d, e, hg, hd, coprime, rfl, rfl⟩ := exists_primitive ha b
      have he := right_ne_zero_of_mul hb
      have content : x.contentPrimitive false radical = ((g : ℚ), line v d e) :=
        h.contentPrimitive hg hd coprime
      have compound : x.isSum ∨ x.isProd := by
        cases h with
        | whole => exact .inl (by rw [line_of_ne_zero v _ hb]; rfl)
        | shared => exact .inr rfl
      have parts : [ofInt e, lineTerm v d].map (Expr.factorTermsAux sign radical fuel) =
          [ofInt e, lineTerm v d] := by
        rw [List.map_cons, List.map_singleton, factorTermsAux_ofInt, factorTermsAux_lineTerm v hd]
      rw [line_of_ne_zero v d he] at content
      rw [factorTermsAux_of_sum compound content fuel parts]
      split_ifs
      · have negated : neg (.ofInt e) = .ofInt (-e) := neg_ofInt (B := .ofDepth 64) e
        have factors := shareFactors_line one_pos (neg_ne_zero.2 hd) (neg_ne_zero.2 he)
          (by rw [Int.neg_gcd, Int.gcd_neg, coprime]) v true false false
        rw [one_mul, one_mul, Int.cast_one, keepCoeff_one_left] at factors
        rw [List.map_cons, List.map_singleton, negated, neg_lineTerm, factors, ← Int.cast_neg]
        have joined := isLine_joinCoeff (v := v) (c := -g) (neg_ne_zero.2 hd) (neg_ne_zero.2 he)
          false sign
        rwa [neg_mul_neg, neg_mul_neg] at joined
      · have factors := shareFactors_line one_pos hd he coprime v true false false
        rw [one_mul, one_mul, Int.cast_one, keepCoeff_one_left] at factors
        rw [factors]
        exact isLine_joinCoeff hd he false sign

end FactorTerms

theorem IsLine.factorTerms (ha : a ≠ 0) {x : Expr} (h : IsLine v a b x) (sign : Bool) :
    IsLine v a b (x.factorTerms sign) := h.factorTermsAux ha _

theorem IsLine.factorRoots (ha : a ≠ 0) {x : Expr} (h : IsLine v a b x) :
    IsLine v a b x.factorRoots := h.factorTermsAux ha _

end Expr

end Reckoner
