-- Applied functions in normal form: known values at numbers and at fractions of pi, a
-- minus sign drawn out of the argument, and functions of measured numbers worked out.
import Reckoner.Algebra.SortKey

namespace Reckoner

namespace Builder

variable (B : Builder)

/-! ## Measured values -/

/-- A part of a numeric value as a number of at most 53 bits. -/
def partNumber : Option Part → Number
  | none => .exact 0
  | some p =>
    match p.value with
    | .approx b _ =>
      let bits := max 1 (min 53 p.accuracy)
      .settle (b.round .nearest bits.toNat) bits.toNat
    | n => n

/-- The measured value of an expression without symbols. -/
def measured? (x : Expr) : Option Expr :=
  match x.toNumeric 57 with
  | .value re none => some (.num (partNumber re))
  | .value none im => some (B.mul [.num (partNumber im), .i])
  | .value re im => some (B.add [.num (partNumber re), B.mul [.num (partNumber im), .i]])
  | _ => none

/-- Whether a function of the expression is worked out at once. -/
def isMeasured (x : Expr) : Bool :=
  match x with
  | .num n => n.isApprox
  | .sum l =>
    match pureComplex? l with
    | some (re, im) => re.isApprox || im.isApprox
    | none => false
  | _ => false

/-! ## Arguments -/

/-- The product without one factor, when it has that factor. -/
def withoutFactor? (part : Expr) (x : Expr) : Option Expr :=
  if x = part then some .one
  else
    match x with
    | .prod l => if l.contains part then some (B.mul (l.erase part)) else none
    | _ => none

mutual
/-- The expression without one factor `i`, where every term or some factor has it. -/
def withoutUnit? : Expr → Option Expr
  | .const .i => some .one
  | .sum l => (eachWithoutUnit? l).map B.add
  | .prod l => (oneWithoutUnit? l).map B.mul
  | _ => none
/-- The terms without one factor `i` each. -/
def eachWithoutUnit? : List Expr → Option (List Expr)
  | [] => some []
  | a :: r => do return (← withoutUnit? a) :: (← eachWithoutUnit? r)
/-- The factors, the first one that can without `i`. -/
def oneWithoutUnit? : List Expr → Option (List Expr)
  | [] => none
  | a :: r =>
    match withoutUnit? a with
    | some b => some (b :: r)
    | none => (oneWithoutUnit? r).map (a :: ·)
end

/-- The multiple of the imaginary unit that the expression is, where the unit is not in the
multiplier. -/
def imaginaryFactor? (x : Expr) : Option Expr :=
  match withoutUnit? B x with
  | some y => if y.any (· == .i) then none else some y
  | none => none

/-- `a` modulo `m`, not negative. -/
def ratMod (a m : Rat) : Rat := a - m * (a / m).floor

/-- A measured number that is a whole number of parts of a power of two, as a fraction. The
power is the one closest to the part after the point. -/
def recast (c : Binary) : Option Rat :=
  let q := c.toRat
  let part := ratMod (if q < 0 then -q else q) 1
  if part = 0 then some (if q < 0 then -((-q).floor : Rat) else (q.floor : Rat))
  else
    let b := Binary.ofRat .nearest 60 part
    let low := b.magnitude - 1
    -- the part is 2 ^ low times a number between 1 and 2, compared with the root of 2
    let above := if 0 ≤ low then part / 2 ^ low.toNat else part * 2 ^ (-low).toNat
    let power := -(if 2 ≤ above * above then low + 1 else low)
    let scale : Rat := if 0 ≤ power then 2 ^ power.toNat else 1 / 2 ^ (-power).toNat
    if (q * scale).den = 1 then some q else none

/-- The multiple of pi that the expression is, where a number is taken modulo 2. -/
def piFactor? (x : Expr) : Option Expr :=
  if x = .pi then some .one
  else if x.isZero? = some true then some .zero
  else
    match x with
    | .prod l =>
      if l.contains .pi then
        let rest := B.mul (l.erase .pi)
        let (c, tail) := rest.coeffMul
        let c := match c with
          | .approx b _ => match recast b with
            | some q => .exact q
            | none => c
          | c => c
        if tail = .one then
          match c with
          | .exact q => some (.ofRat (ratMod q 2))
          | .approx b p => some (.num (.approx (Binary.ofRat .nearest p (ratMod b.toRat 2)) p))
          | _ => some rest
        else some (B.mul [.num c, tail])
      else none
    | _ => none

/-- The largest multiple of half of pi in a sum, and what is left. -/
def peelPi (l : List Expr) : Option (Expr × Rat) :=
  let parts := l.map fun x => (x, (withoutFactor? B .pi x).bind Expr.rat?)
  let total := parts.foldl (fun acc (_, q) => acc + q.getD 0) (0 : Rat)
  if parts.all fun (_, q) => q.isNone then none
  else
    let small := ratMod total (1 / 2)
    let large := total - small
    if large = 0 then none
    else
      let rest := parts.filterMap fun (x, q) => if q.isSome then none else some x
      some (B.add (rest ++ [B.mul [.ofRat small, .pi]]), large)

def timesPi (q : Rat) : Expr := B.mul [.ofRat q, .pi]

/-! ## Circular functions -/

/-- The cosine of these fractions of pi comes from the difference of two others. -/
def cosineSplits : List (Nat × Nat × Nat) :=
  [(12, 3, 4), (20, 4, 5), (30, 5, 6), (15, 6, 10), (24, 6, 8), (40, 8, 10), (60, 20, 30),
    (120, 40, 60)]

/-- The cosine of `c` times pi, or nothing when it is not worked out. -/
def cosineOfPi? (c : Rat) : Option Expr :=
  let q := c.den
  let p := c.num % (2 * q)
  let sqrt5 := B.pow (.ofInt 5) .half
  if c.den = 1 then some (if c.num % 2 = 0 then .one else .negOne)
  else if c.den = 2 then some .zero
  else if (q : Int) < p then some (B.neg (B.app .cos (B.timesPi (c - 1))))
  else if (q : Int) < 2 * p then some (B.neg (B.app .cos (B.timesPi (1 - c))))
  else
    match lookupEntry q cosineSplits with
    | some (a, b) =>
      let a := (p : Rat) / a
      let b := (p : Rat) / b
      let cos := fun (r : Rat) => B.app .cos (B.timesPi r)
      some (B.add [B.mul [cos a, cos b], B.mul [cos (1 / 2 - a), cos (1 / 2 - b)]])
    | none =>
      if 12 < q then none
      else if q = 3 then some .half
      else if q = 5 then
        let quarter : Rat := 1 / 4
        some (B.add [B.mul [.ofRat quarter, sqrt5], .ofRat (if p = 1 then quarter else -quarter)])
      else if q % 2 = 0 then
        let double := B.app .cos (B.timesPi (2 * c))
        let x : Rat := (2 * c + 1) / 2
        let size := if x < 0 then (-x).floor else x.floor
        let root := B.pow (B.mul [.half, B.add [.one, double]]) .half
        some (if size % 2 = 0 then root else B.neg root)
      else none

/-- Whether the expression is an application of the function. -/
def isApp (f : Fn) : Expr → Bool
  | .app g _ => f == g
  | _ => false

/-- The sine of an argument, or nothing when it stays. -/
def sine? (x : Expr) : Option Expr :=
  if x.isZero? = some true then some .zero
  else if B.prefersNegative x then some (B.neg (B.app .sin (B.neg x)))
  else
    match imaginaryFactor? B x with
    | some y => some (B.mul [.i, B.app .sinh y])
    | none =>
      match piFactor? B x with
      | some c =>
        match c.rat? with
        | none =>
          let y := B.mul [c, .pi]
          if y != x then some (B.app .sin y) else none
        | some q =>
          if q.den = 1 then some .zero
          else if q.den = 2 then some (if q.num % 4 = 1 then .one else .negOne)
          else
            let r := ratMod q 2
            if 1 < r then some (B.neg (B.app .sin (B.timesPi (ratMod r 1))))
            else if 1 < 2 * r then some (B.app .sin (B.timesPi (1 - r)))
            else
              let y := B.app .cos (B.timesPi (ratMod (q + 3 / 2) 2))
              if !isApp .cos y then some y
              else if B.timesPi q != x then some (B.app .sin (B.timesPi q))
              else none
      | none =>
        match x with
        | .sum l =>
          match peelPi B l with
          | some (y, m) =>
            let m := B.timesPi m
            some (B.add [B.mul [B.app .sin m, B.app .cos y], B.mul [B.app .cos m, B.app .sin y]])
          | none => none
        | _ => none

/-- The cosine of an argument, or nothing when it stays. -/
def cosine? (x : Expr) : Option Expr :=
  if x.isZero? = some true then some .one
  else if B.prefersNegative x then some (B.app .cos (B.neg x))
  else
    match imaginaryFactor? B x with
    | some y => some (B.app .cosh y)
    | none =>
      match piFactor? B x with
      | some c =>
        match c.rat? with
        | none =>
          let y := B.mul [c, .pi]
          if y != x then some (B.app .cos y) else none
        | some q => cosineOfPi? B q
      | none =>
        match x with
        | .sum l =>
          match peelPi B l with
          | some (y, m) =>
            let m := B.timesPi m
            some (B.add [B.mul [B.app .cos m, B.app .cos y],
              B.mul [.negOne, B.app .sin m, B.app .sin y]])
          | none => none
        | _ => none

/-- The tangent of `k` tenths of pi. -/
def tangentOfTenth (k : Int) : Expr :=
  let sqrt5 := B.pow (.ofInt 5) .half
  let root := fun (a b : Rat) => B.pow (B.add [.ofRat a, B.mul [.ofRat b, sqrt5]]) .half
  match k with
  | 1 => root 1 (-2 / 5)
  | 2 => root 5 (-2)
  | 3 => root 1 (2 / 5)
  | _ => root 5 2

/-- The tangent of a fraction of pi that is not a whole number. -/
def tangentOfPi? (c : Rat) (x : Expr) : Option Expr :=
  let q := c.den
  let p := c.num % q
  let cos := fun (r : Rat) => B.app .cos (B.timesPi r)
  let isCosine := isApp .cos
  if q = 5 || q = 10 then
    let n := 10 * p / q
    some (if 5 < n then B.neg (tangentOfTenth B (10 - n)) else tangentOfTenth B n)
  else
    let byDouble : Option Expr :=
      if q % 2 = 0 then
        let c2 := cos (2 * c)
        let s2 := cos (2 * c - 1 / 2)
        if isCosine c2 || isCosine s2 then none
        else if s2 = .zero then some .zoo
        else
          some (B.add [B.pow s2 .negOne, B.mul [.negOne, B.mul [c2, B.pow s2 .negOne]]])
      else none
    if byDouble.isSome then byDouble
    else
      match lookupEntry q cosineSplits with
      | some (a, b) =>
        let ta := B.app .tan (B.timesPi ((p : Rat) / a))
        let tb := B.app .tan (B.timesPi ((p : Rat) / b))
        some (B.mul [B.add [ta, B.mul [.negOne, tb]],
          B.pow (B.add [.one, B.mul [ta, tb]]) .negOne])
      | none =>
        let r := ratMod (c + 1 / 2) 1 - 1 / 2
        let cr := cos r
        let sr := cos (r - 1 / 2)
        if !(isCosine cr || isCosine sr) then
          if cr = .zero then some .zoo else some (B.mul [sr, B.pow cr .negOne])
        else if B.timesPi r != x then some (B.app .tan (B.timesPi r))
        else none

/-- The tangent of an argument, or nothing when it stays. -/
def tangent? (x : Expr) : Option Expr :=
  if x.isZero? = some true then some .zero
  else if B.prefersNegative x then some (B.neg (B.app .tan (B.neg x)))
  else
    match imaginaryFactor? B x with
    | some y => some (B.mul [.i, B.app .tanh y])
    | none =>
      match piFactor? B x with
      | some c =>
        match c.rat? with
        | none =>
          let y := B.mul [c, .pi]
          if y != x then some (B.app .tan y) else none
        | some q => if q.den = 1 then some .zero else tangentOfPi? B q x
      | none =>
        match x with
        | .sum l =>
          match peelPi B l with
          | some (y, m) => some (if m.den = 1 then B.app .tan y else B.neg (B.app .cot y))
          | none => none
        | _ => none

/-- The cotangent of a fraction of pi that is not a whole number. -/
def cotangentOfPi? (c : Rat) (x : Expr) : Option Expr :=
  let q := c.den
  let p := c.num % q
  let cos := fun (r : Rat) => B.app .cos (B.timesPi r)
  let isCosine := isApp .cos
  if q = 5 || q = 10 then some (B.app .tan (B.timesPi (1 / 2 - c)))
  else
    let byDouble : Option Expr :=
      if 2 < q && q % 2 = 0 then
        let c2 := cos (2 * c)
        let s2 := cos (2 * c - 1 / 2)
        if isCosine c2 || isCosine s2 then none
        else some (B.add [B.pow s2 .negOne, B.mul [c2, B.pow s2 .negOne]])
      else none
    if byDouble.isSome then byDouble
    else
      match lookupEntry q cosineSplits with
      | some (a, b) =>
        let ca := B.app .cot (B.timesPi ((p : Rat) / a))
        let cb := B.app .cot (B.timesPi ((p : Rat) / b))
        some (B.mul [B.add [.one, B.mul [ca, cb]],
          B.pow (B.add [cb, B.mul [.negOne, ca]]) .negOne])
      | none =>
        let r := ratMod (c + 1 / 2) 1 - 1 / 2
        let cr := cos r
        let sr := cos (r - 1 / 2)
        if !(isCosine cr || isCosine sr) then
          if sr = .zero then some .zoo else some (B.mul [cr, B.pow sr .negOne])
        else if B.timesPi r != x then some (B.app .cot (B.timesPi r))
        else none

/-- The cotangent of an argument, or nothing when it stays. -/
def cotangent? (x : Expr) : Option Expr :=
  if x.isZero? = some true then some .zoo
  else if B.prefersNegative x then some (B.neg (B.app .cot (B.neg x)))
  else
    match imaginaryFactor? B x with
    | some y => some (B.mul [.negOne, .i, B.app .coth y])
    | none =>
      match piFactor? B x with
      | some c =>
        match c.rat? with
        | none =>
          let y := B.mul [c, .pi]
          if y != x then some (B.app .cot y) else none
        | some q => if q.den = 1 then some .zoo else cotangentOfPi? B q x
      | none =>
        match x with
        | .sum l =>
          match peelPi B l with
          | some (y, m) => some (if m.den = 1 then B.app .cot y else B.neg (B.app .tan y))
          | none => none
        | _ => none

/-- The secant or cosecant of an argument, or nothing when it stays: the reciprocal of a cosine
or sine that is known. `even` says that it forgets the sign of its argument. -/
def reciprocal? (f : Fn) (even : Bool) (inner : Expr → Option Expr) (x : Expr) : Option Expr :=
  if B.prefersNegative x then
    let y := B.app f (B.neg x)
    some (if even then y else B.neg y)
  else
    let turned : Option Expr := do
      let q ← (← piFactor? B x).rat?
      if (2 * q).den = 1 then none
      else
        let r := ratMod q 2
        if 1 < r then some (B.neg (B.app f (B.timesPi (q - 1))))
        else if 1 < 2 * r then
          let y := B.app f (B.timesPi (1 - q))
          some (if even then B.neg y else y)
        else none
    if turned.isSome then turned
    else
      (inner x).map fun t =>
        match t, B.neg t with
        | .app .cos y, _ => B.app .sec y
        | .app .sin y, _ => B.app .csc y
        | _, .app .cos y => B.neg (B.app .sec y)
        | _, .app .sin y => B.neg (B.app .csc y)
        | t, _ => B.pow t .negOne

/-! ## Hyperbolic functions -/

/-- The largest multiple of a quarter turn along the imaginary axis in a sum, as a multiple of
pi, and what is left. -/
def peelTurns (l : List Expr) : Option (Expr × Rat) :=
  let turn := fun (x : Expr) => do
    (← withoutFactor? B .pi (← withoutFactor? B .i x)).rat?
  let parts := l.map fun x => (x, turn x)
  match parts.findSome? Prod.snd with
  | none => none
  | some q =>
    -- only the first turn counts
    let small := ratMod q (1 / 2)
    let large := q - small
    if large = 0 then none
    else
      let rest := l.map fun x =>
        if turn x = some q then B.mul [.ofRat small, .pi, .i] else x
      some (B.add rest, large)

/-- A hyperbolic function of an argument, or nothing when it stays. `turned` is the
circular function that it is along the imaginary axis, and `even` says that it forgets the
sign of its argument. -/
def hyperbolic? (f turned : Fn) (even : Bool) (x : Expr) : Option Expr :=
  if x.isZero? = some true then
    match f with
    | .cosh | .sech => some .one
    | .coth | .csch => some .zoo
    | _ => some .zero
  else
    match imaginaryFactor? B x with
    | some y =>
      let z := B.app turned y
      match f with
      | .cosh | .sech => some z
      | .coth | .csch => some (B.mul [.negOne, .i, z])
      | _ => some (B.mul [.i, z])
    | none =>
      if B.prefersNegative x then
        let y := B.app f (B.neg x)
        some (if even then y else B.neg y)
      else
        match x with
        | .sum l =>
          match peelTurns B l with
          | none => none
          | some (y, m) =>
            let up := B.mul [.ofRat m, .pi, .i]
            match f with
            | .sinh => some (B.add [B.mul [B.app .sinh up, B.app .cosh y],
                B.mul [B.app .cosh up, B.app .sinh y]])
            | .cosh => some (B.add [B.mul [B.app .cosh up, B.app .cosh y],
                B.mul [B.app .sinh up, B.app .sinh y]])
            | .tanh => some (if m.den = 1 then B.app .tanh y else B.app .coth y)
            | .coth => some (if m.den = 1 then B.app .coth y else B.app .tanh y)
            | _ => none
        | _ => none

/-! ## Exponential and logarithm -/

/-- The exponential of a product, when it is a known value or holds one logarithm. -/
def exponentialOfProduct? (l : List Expr) : Option Expr :=
  let known : Option Expr := do
    let rest ← withoutFactor? B .i (.prod l)
    let c ← withoutFactor? B .pi rest
    let q ← c.rat?
    if q.den = 1 then some (if q.num % 2 = 0 then .one else .negOne)
    else if q.den = 2 then some (if q.num % 4 = 1 then .i else B.neg .i)
    else
      let r := ratMod q 2
      let r := if 1 < r then r - 2 else r
      if r ≠ q then some (B.app .exp (B.mul [.ofRat r, .pi, .i])) else none
  if known.isSome then known
  else
    let logs := l.filter (isApp .log)
    let others := l.filter fun x => !isApp .log x
    match logs with
    | [.app .log b] =>
      if others.all fun x => x.isClosed && x.isReal? = some true then some (B.pow b (B.mul others))
      else none
    | _ => none

/-- The exponential of an argument, or nothing when it stays. -/
def exponential? (x : Expr) : Option Expr :=
  match x with
  | .num .undefined => some .nan
  | .num (.infinite negative) => some (if negative then .zero else x)
  | .num n => if n.isZero then some .one else if n = .exact 1 then some (.const .e) else none
  | .const .zoo => some .nan
  | .app .log y => some y
  | .prod l => exponentialOfProduct? B l
  | .sum l =>
    let values := l.map fun a => (a, if a = .one then .app .exp a else B.app .exp a)
    let kept := values.map fun (a, v) => match v with
      | .app .exp b => some (if a = .one then a else b)
      | _ => none
    let out := values.filterMap fun (_, v) => if isApp .exp v then none else some v
    let add := kept.filterMap id
    if out.isEmpty && add = l then none
    else
      let rest := B.add add
      let rest := if rest = .zero then .one else if rest = .one then .const .e else .app .exp rest
      some (B.mul (out ++ [rest]))
  | _ => if x.isZero? = some true then some .one else none

/-- The logarithm of an argument, or nothing when it stays. -/
def logarithm? (x : Expr) : Option Expr :=
  let plain := fun (x : Expr) =>
    if x.isNegative then some (B.add [B.mul [.pi, .i], B.app .log (B.neg x)])
    else if x.isZero? = some true then some .zoo
    else
      match imaginaryFactor? B x with
      | some c =>
        match c.rat? with
        | some q =>
          let half : Rat := if q < 0 then -1 / 2 else 1 / 2
          some (B.add [B.mul [.ofRat half, .pi, .i], B.app .log (.ofRat (if q < 0 then -q else q))])
        | none => none
      | none => none
  match x with
  | .num .undefined => some .nan
  | .num (.infinite _) => some (.num (.infinite false))
  | .const .zoo => some .zoo
  | .const .e => some .one
  | .num (.exact q) =>
    if q = 0 then some .zoo
    else if q = 1 then some .zero
    else if q.num = 1 then some (B.neg (B.app .log (.ofNat q.den)))
    else plain x
  | .app .exp y => if y.isReal? = some true then some y else plain x
  | x => plain x

/-! ## The whole part -/

/-- The whole part of an argument, or nothing when it stays. Whole numbers come out of it,
and a part without symbols is worked out when nothing else is left. -/
def wholePart? (x : Expr) : Option Expr :=
  match x with
  | .num (.exact q) => some (.ofInt q.floor)
  | .num (.approx b _) => some (.ofInt b.floor)
  | .num _ | .const .zoo => some x
  | .app .floor _ => some x
  | x =>
    let isWhole := fun (t : Expr) => match t with
      | .num (.approx b _) => b.toRat.den == 1
      | t => t.isInteger
    let whole := x.terms.filter isWhole
    let rest := x.terms.filter fun t => !isWhole t
    let front := whole.map fun t => match t with
      | .num (.approx b _) => .ofInt b.floor
      | t => t
    if rest.all fun t => t.isClosed then
      match (B.add rest).toNumeric 120 with
      | .value (some ⟨.approx b _, _⟩) none => some (B.add (front ++ [.ofInt b.floor]))
      | .value none none => some (B.add front)
      | _ => none
    else if front.isEmpty then none
    else
      match rest with
      | [.app .floor _] => some (B.add (front ++ rest))
      | rest => some (B.add (front ++ [.app .floor (B.add rest)]))

/-! ## Application -/

/-- The known value of a function at an argument, or nothing when it stays. -/
def knownValue? (f : Fn) (x : Expr) : Option Expr :=
  match f with
  | .exp => exponential? B x
  | .log => logarithm? B x
  | .floor => wholePart? B x
  | f =>
    if x = .nan || x = .zoo then some .nan
    else
      match f with
      | .sin => sine? B x
      | .cos => cosine? B x
      | .tan => tangent? B x
      | .sinh => hyperbolic? B .sinh .sin false x
      | .cosh => hyperbolic? B .cosh .cos true x
      | .tanh => hyperbolic? B .tanh .tan false x
      | .coth => hyperbolic? B .coth .cot false x
      | .sech => hyperbolic? B .sech .sec true x
      | .csch => hyperbolic? B .csch .csc false x
      | .cot => cotangent? B x
      | .sec => reciprocal? B .sec true (cosine? B) x
      | .csc => reciprocal? B .csc false (sine? B) x
      | _ => none

/-- An applied function in normal form. -/
def appOf (f : Fn) (x : Expr) : Expr :=
  match knownValue? B f x with
  | some y => y
  | none =>
    let y := Expr.app f x
    if isMeasured x then (measured? B y).getD y else y

end Builder

end Reckoner
