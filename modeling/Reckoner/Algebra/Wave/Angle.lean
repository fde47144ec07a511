-- Angles of waves: sums of angles are taken apart, doubled angles are halved, and an angle
-- near a right angle is measured from the other side.
import Reckoner.Algebra.Wave.Basic

namespace Reckoner

namespace Expr

/-! ## One angle -/

/-- A wave whose angle has its sign settled. An angle between an eighth and a quarter of a turn
becomes its complement. -/
def settleAngle (x : Expr) : Expr :=
  match x with
  | .app f a =>
    if !f.isWave then x
    else
      match apply f a.settleSigns with
      | .app g b =>
        if !g.isWave then .app g b
        else
          let part := fun (n : Nat) => times (.ofRat (mkRat 1 n)) .pi
          if b.isClosed && (sub b (part 4)).isPositive && (sub (part 2) b).isPositive then
            apply g.complement (sub (part 2) b)
          else .app g b
      | y => y
  | x => x

/-- The expression with the angles of its waves settled. -/
def settleAngles (x : Expr) : Expr :=
  let closed := fun (y : Expr) => if y.isClosed && y.isProd then mul y.factors else y
  let y := x.mapUp fun y => match y with
    | .app f a => if f.isWave then apply f (a.mapUp closed) else y
    | y => y
  y.mapUp settleAngle

/-! ## Sums of angles -/

/-- The terms of an angle but the last, and the last. At first the largest term is the last. -/
def splitLast? (inOrder : Bool) (l : List Expr) : Option (Expr × Expr) :=
  let l := if inOrder then bySize l else l
  l.getLast?.map fun a => (rawSum l.dropLast, a)

/-- Sines and cosines of sums of angles by those of the angles. -/
def splitAnglesAux : Nat → Bool → Expr → Expr
  | 0, _, x => x
  | fuel + 1, inOrder, x =>
    x.mapUp fun y =>
      match y with
      | .app f (.sum l) =>
        if !f.isSinusoid then y
        else
          match splitLast? inOrder l with
          | none => y
          | some (b, a) =>
            let wave := fun (g : Fn) =>
              if b.isSum then splitAnglesAux fuel false (apply g b) else apply g b
            if f = .sin then
              plus (times (apply .sin a) (wave .cos)) (times (apply .cos a) (wave .sin))
            else sub (times (apply .cos a) (wave .cos)) (times (apply .sin a) (wave .sin))
      | y => y

def splitAngles (x : Expr) : Expr := splitAnglesAux (x.size + 1) true x

/-- Tangents of sums of angles by those of the angles. -/
def splitTangentsAux : Nat → Bool → Expr → Expr
  | 0, _, x => x
  | fuel + 1, inOrder, x =>
    x.mapUp fun y =>
      match y with
      | .app .tan (.sum l) =>
        match splitLast? inOrder l with
        | none => y
        | some (b, a) =>
          let t := apply .tan b
          let t := if b.isSum then splitTangentsAux fuel false t else t
          let s := apply .tan a
          div (plus s t) (sub .one (times s t))
      | y => y

def splitTangents (x : Expr) : Expr := splitTangentsAux (x.size + 1) true x

/-! ## Doubled angles -/

/-- Sines and cosines of angles with an even number before them by those of half the angle. -/
def halveAnglesAux : Nat → Expr → Expr
  | 0, x => x
  | fuel + 1, x =>
    x.mapUp fun y =>
      match y with
      | .app f a =>
        if !f.isSinusoid || a.isNum then y
        else
          let (c, m) := a.coeffMulRational
          if c.num % 2 = 0 then
            let half := div (times (.ofInt (c.num / 2)) m) (.ofNat c.den)
            let cosine := halveAnglesAux fuel (apply .cos half)
            let sine := halveAnglesAux fuel (apply .sin half)
            if f = .sin then mul [.ofNat 2, sine, cosine]
            else sub (power cosine (.ofNat 2)) (power sine (.ofNat 2))
          else y
      | y => y

def halveAngles (x : Expr) : Expr := halveAnglesAux 64 x

/-- Sines and cosines of twice the given angle by those of the angle. -/
def halveTo (base : Expr) (x : Expr) : Expr :=
  let c := apply .cos base
  let s := apply .sin base
  x.mapUp fun y =>
    match y with
    | .app f a =>
      if !f.isSinusoid then y
      else
        let (co, t) : Number × Expr := match apply f (times base (.ofNat 2)) with
          | .prod l => (Expr.prod l).coeffMul
          | t => (.exact 1, t)
        match t with
        | .app g b =>
          if g.isSinusoid && a = b then
            if f = .cos then div (sub (power c (.ofNat 2)) (power s (.ofNat 2))) (.num co)
            else div (mul [.ofNat 2, c, s]) (.num co)
          else y
        | _ => y
    | y => y

/-- The angles of the given function that stand as whole positive powers in a product. -/
def anglesOf (f : Fn) (x : Expr) : List Expr :=
  (x.factors.filterMap fun y =>
    match y.baseExp neg with
    | (.app g a, e) => if f = g && e.isInteger && e.isPositive then some a else none
    | _ => none).eraseDups

/-- Halves each of the angles whose half is among the angles of the other side of the bar. -/
def halveMatching (x : Expr) (angles cosines sines : List Expr) : Expr × List Expr × List Expr :=
  angles.foldl (fun (y, cs, ss) a =>
    let half := times .half a
    if cs.contains half then (halveTo half y, cs.erase half, ss)
    else if ss.contains half then (halveTo half y, cs, ss.erase half)
    else (y, cs, ss)) (x, cosines, sines)

/-- Halves the angle of a sine above the bar when a wave of half the angle stands below it, and
the other way round. -/
def halveQuotients (x : Expr) : Expr :=
  x.mapUp fun y =>
    let (n, d) := y.numerDenom
    let below := anglesOf .sin d
    let (z, _, below) := halveMatching y (anglesOf .sin n) (anglesOf .cos d) below
    (halveMatching z below (anglesOf .cos n) (anglesOf .sin n)).1

end Expr

end Reckoner
