-- Exponentials and waves: an exponential is a sum of waves and a wave a sum of exponentials,
-- and the shorter of the forms is taken.
import Reckoner.Algebra.Wave.Reduce

namespace Reckoner

namespace Expr

/-! ## By exponentials -/

/-- A wave or hyperbolic function by exponentials. -/
def exponentialsOf (f : Fn) (a : Expr) : Expr :=
  let turn := times a .i
  let up := apply .exp turn
  let down := apply .exp (times (neg a) .i)
  let grow := apply .exp a
  let shrink := apply .exp (neg a)
  let sine := div (sub up down) (times (.ofNat 2) .i)
  let cosine := div (plus up down) (.ofNat 2)
  let hsine := div (sub grow shrink) (.ofNat 2)
  let hcosine := div (plus grow shrink) (.ofNat 2)
  match f with
  | .sin => sine
  | .cos => cosine
  | .tan => div (times .i (sub down up)) (plus down up)
  | .cot => div (times .i (plus down up)) (sub up down)
  | .sec => inverse cosine
  | .csc => inverse sine
  | .sinh => hsine
  | .cosh => hcosine
  | .tanh => div (sub grow shrink) (plus grow shrink)
  | .coth => div (plus grow shrink) (sub grow shrink)
  | .sech => inverse hcosine
  | .csch => inverse hsine
  | f => apply f a

/-- A power as the exponential of its exponent times the logarithm of its base. -/
def powerAsExponential (b e : Expr) : Expr :=
  let hasExp := fun (x : Expr) => x.hasFn (· == .exp)
  if b.isZero? = some true || hasExp b || hasExp e then power b e
  else if !b.isClosed then
    let t := times (apply .log b) e
    if e.isClosed then .app .exp t else apply .exp t
  else if b.isPositive then apply .exp (times (apply .log b) e)
  else if b.isNegative then
    apply .exp (times (plus (apply .log (neg b)) (times .i .pi)) e)
  else power b e

/-- The expression with its powers, waves and hyperbolic functions by exponentials. -/
def byExponentials : Expr → Expr
  | .sum l => add (l.attach.map fun ⟨y, _⟩ => byExponentials y)
  | .prod l => mul (l.attach.map fun ⟨y, _⟩ => byExponentials y)
  | .pow b e => powerAsExponential (byExponentials b) (byExponentials e)
  | .app f a => exponentialsOf f (byExponentials a)
  | x => x

/-! ## By cosines -/

/-- A function by cosines. -/
def cosinesOfFn (f : Fn) (a : Expr) : Expr :=
  let quarter := times .half .pi
  let sine := Expr.app .cos (sub a quarter)
  let turned := Expr.app .cos (times .i a)
  match f with
  | .exp =>
    let t := times .i a
    plus (apply .cos t) (times .i (apply .cos (plus t quarter)))
  | .sin => sine
  | .tan => div sine (apply .cos a)
  | .cot => div (apply .cos a) sine
  | .sec => inverse (apply .cos a)
  | .csc => inverse sine
  | .cosh => turned
  | .sech => inverse turned
  | f => apply f a

/-- The expression with its exponentials and waves by cosines. -/
def byCosines : Expr → Expr
  | .sum l => add (l.attach.map fun ⟨y, _⟩ => byCosines y)
  | .prod l => mul (l.attach.map fun ⟨y, _⟩ => byCosines y)
  | .pow b e => power (byCosines b) (byCosines e)
  | .app f a => cosinesOfFn f (byCosines a)
  | .const .e => plus (apply .cosh .one) (apply .sinh .one)
  | x => x

/-- The shortest of a node, the node by exponentials and the node by cosines. -/
def shortestWave (x : Expr) : Expr :=
  if x.isAtom then x
  else
    let others := if x.hasWave || x.hasHyperbolic then [x.byExponentials] else []
    easiest x (others ++ [x.byCosines])

/-! ## Quotients of exponentials -/

/-- The exponent of an exponential with a sign before it. -/
def signedExponent? (x : Expr) : Option (Bool × Expr) :=
  let exponent? := fun (x : Expr) => match x with
    | .const .e => some Expr.one
    | .app .exp a => some a
    | _ => none
  match exponent? x with
  | some a => some (true, a)
  | none => (exponent? (neg x)).map (false, ·)

/-- Adds to the exponent of a base. -/
def raiseBase (b e : Expr) (l : List (Expr × Expr)) : List (Expr × Expr) := addEntry plus b e l

/-- Joins one base `c * (1 ± exp a)` with the exponential before it or with its partner. The
first part is what is left of the exponent of the exponential. -/
def joinExponentialSum (state : Expr × List (Expr × Expr)) (entry : Expr × Expr) :
    Expr × List (Expr × Expr) :=
  let (left, l) := state
  let (k, m) := entry
  match k with
  | .sum [c, d] =>
    match signedExponent? (div d c) with
    | none => state
    | some (up, a) =>
      let l := raiseBase k (neg m) l
      let half := times .half a
      if left = mul [negOne, a, m, .half] then
        let y := if up then mul [.ofNat 2, c, apply .cosh half]
          else mul [.ofInt (-2), c, apply .sinh half]
        (.zero, raiseBase y m (raiseBase (.const .e) (neg left) l))
      else
        let e := apply .exp a
        let partner := if up then sub .one e else plus .one e
        if lookupEntry partner l = some (neg m) then
          let t := apply .tanh half
          let y := if up then neg (div c t) else neg (times c t)
          (left, raiseBase y m (l.filter fun (b, _) => b != partner))
        else (left, raiseBase c m (raiseBase (if up then plus .one e else sub .one e) m l))
  | _ => state

/-- Sums of one and an exponential in a product as hyperbolic functions. -/
def joinExponentialSums (x : Expr) : Expr :=
  if !x.isProd then x
  else
    let powers := x.powersOf
    let base := Expr.const .e
    let powers := if (lookupEntry base powers).isSome then powers else powers ++ [(base, .zero)]
    let start := ((lookupEntry base powers).getD .zero, powers)
    let (_, l) := powers.foldl joinExponentialSum start
    mul (l.map fun (b, e) => power b e)

/-! ## All of it -/

/-- The expression with its exponentials and waves in the shortest form. A form that brings in
the imaginary unit is not taken. -/
def joinExponentials (x : Expr) : Expr :=
  let y := (x.mapUp shortestWave).mapUp joinExponentialSums
  let y := if y.hasHyperbolic then asWaves ratios y else y
  let y := if y.hasWave then ratios y else y
  if hasExpr .i y && !hasExpr .i x then x else y

end Expr

end Reckoner
