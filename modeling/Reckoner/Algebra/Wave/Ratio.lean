-- Quotients of waves: a tangent is a sine over a cosine, a secant is the reciprocal of a
-- cosine, and the other way round.
import Reckoner.Algebra.Wave.Basic

namespace Reckoner

namespace Expr

/-! ## Into sines and cosines -/

/-- Secants and cosecants as reciprocals. -/
def withoutSecants (x : Expr) : Expr :=
  x.mapUp fun y => match y with
    | .app .sec a => inverse (apply .cos a)
    | .app .csc a => inverse (apply .sin a)
    | y => y

/-- Tangents and cotangents as quotients. -/
def withoutTangents (x : Expr) : Expr :=
  x.mapUp fun y => match y with
    | .app .tan a => div (apply .sin a) (apply .cos a)
    | .app .cot a => div (apply .cos a) (apply .sin a)
    | y => y

/-! ## Back again -/

/-- Whether a power is a whole power of a sine or cosine. -/
def isWholeSinusoid (p : Expr × Expr) : Bool :=
  p.1.isSinusoid && (p.2.isInteger || p.1.isPositive)

/-- The tangent power that a sine or cosine above the bar makes with its partner below. -/
def tangentPower? (below : List (Expr × Expr)) (p : Expr × Expr) : Option (Expr × Expr) :=
  match p with
  | (.app .sin a, e) =>
    if lookupEntry (.app .cos a) below = some e then some (power (apply .tan a) e, .app .cos a)
    else none
  | (.app .cos a, e) =>
    if lookupEntry (.app .sin a) below = some e then
      some (power (apply .tan a) (neg e), .app .sin a)
    else none
  | _ => none

/-- One product with its quotients of sine and cosine as tangents. Sine and cosine have the
same exponent in such a quotient. -/
def tangentsOfProduct (x : Expr) : Expr :=
  if !x.isProd then x
  else
    let (n, d) := x.numerDenom
    if n.isAtom || d.isAtom then x
    else
      let (above, aboveRest) := n.powersOf.partition isWholeSinusoid
      let (below, belowRest) := d.powersOf.partition isWholeSinusoid
      let found := above.filterMap fun p => (tangentPower? below p).map fun (t, q) => (t, p.1, q)
      if found.isEmpty then x
      else
        let above := above.filter fun (b, _) => !(found.any fun (_, p, _) => p == b)
        let below := below.filter fun (b, _) => !(found.any fun (_, _, q) => q == b)
        let tangents := found.map fun (t, _, _) => t
        let y := div (mul (tangents ++ above.map fun (b, e) => power b e)) (productOfPowers below)
        times y (div (productOfPowers aboveRest) (productOfPowers belowRest))

/-- Quotients of sine and cosine as tangents. -/
def ratios (x : Expr) : Expr := x.mapUp tangentsOfProduct

/-- Negative powers of a sine, cosine or tangent as powers of its reciprocal. -/
def reciprocals (x : Expr) : Expr :=
  x.mapUp fun y => match y with
    | .pow (.app f a) e =>
      if (Expr.app f a).isPositive || (e.isInteger && e.isNegative) then
        match f with
        | .tan => power (apply .cot a) (neg e)
        | .sin => power (apply .csc a) (neg e)
        | .cos => power (apply .sec a) (neg e)
        | _ => y
      else y
    | y => y

end Expr

end Reckoner
