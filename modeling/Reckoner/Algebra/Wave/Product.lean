-- Products of waves: a product of two sines or cosines is half a sum, and cosines of doubled
-- angles telescope.
import Reckoner.Algebra.Wave.Basic

namespace Reckoner

namespace Expr

/-! ## Products as sums -/

/-- The angles of the sines and of the cosines of a product, each as often as it stands there,
and the other factors. -/
structure Waves where
  sines : List Expr
  cosines : List Expr
  other : List Expr

/-- The waves of a product. -/
def wavesOf (x : Expr) : Waves :=
  x.factors.foldl (fun w y =>
    let put := fun (f : Fn) (a : Expr) (n : Nat) =>
      let as := List.replicate n a
      if f = .sin then { w with sines := w.sines ++ as } else { w with cosines := w.cosines ++ as }
    match y with
    | .app f a => if f.isSinusoid then put f a 1 else { w with other := w.other ++ [y] }
    | .pow (.app f a) e =>
      match e.int? with
      | some n =>
        if f.isSinusoid && 0 < n then put f a n.toNat else { w with other := w.other ++ [y] }
      | none => { w with other := w.other ++ [y] }
    | y => { w with other := w.other ++ [y] }) ⟨[], [], []⟩

/-- Half of a sum. -/
def halfSum (x y : Expr) : Expr := times (plus x y) .half

/-- Products of two cosines of a list, from its end, as sums; an odd one is left. -/
def pairCosines : List Expr → List Expr
  | a :: b :: rest =>
    halfSum (apply .cos (plus a b)) (apply .cos (sub a b)) :: pairCosines rest
  | [a] => [apply .cos a]
  | [] => []

/-- Products of two sines of a list, from its end, as sums; an odd one is left. -/
def pairSines : List Expr → List Expr
  | a :: b :: rest =>
    halfSum (neg (apply .cos (plus a b))) (apply .cos (sub a b)) :: pairSines rest
  | [a] => [apply .sin a]
  | [] => []

/-- The product with its waves joined two by two, or nothing when there are not two. -/
def Waves.paired? (w : Waves) : Option Expr :=
  let c := w.cosines.reverse
  let s := w.sines.reverse
  if c.length + s.length < 2 then none
  else
    let n := min c.length s.length
    let mixed := (s.zip c).map fun (a, b) =>
      halfSum (apply .sin (plus a b)) (apply .sin (sub a b))
    some (mul (w.other ++ mixed ++ pairCosines (c.drop n) ++ pairSines (s.drop n)))

/-- Whether the expression may be a product of waves. -/
def isWaveProduct (x : Expr) : Bool :=
  match x with
  | .prod _ => true
  | .pow b e => b.isSinusoid && (e.isInteger || b.isPositive)
  | _ => false

/-- A leading number goes to the terms of a single sum after it. -/
def spreadLeading (x : Expr) : Expr :=
  match x with
  | .prod [.num (.exact q), .sum l] => mul [.ofRat q, .sum l]
  | x => x

/-- Products of sines and cosines as sums of such functions. `top` treats what stands above and
below the bar apart. -/
def productsAsSumsAux : Nat → Bool → Expr → Expr
  | 0, _, x => x
  | fuel + 1, top, x =>
    x.mapUp fun y =>
      if !y.isWaveProduct then y
      else if top then
        let (n, d) := y.numerDenom
        let n := n.expandMul
        let d := d.expandMul
        let n' := productsAsSumsAux fuel false n
        let d' := productsAsSumsAux fuel false d
        if n' = n && d' = d then y else spreadLeading (shareAll (div n' d'))
      else
        match (wavesOf y).paired? with
        | some z => productsAsSumsAux fuel true z.expandMul
        | none => y

def productsAsSums (x : Expr) : Expr := productsAsSumsAux 40 true x

/-! ## Doubling -/

/-- The cosines of a product by the part of their angle that is not a number, the numbers with
their exponents, and the other factors. -/
abbrev Cosines := List (Expr × List (Number × Nat))

/-- The cosines of a product, and its other factors. -/
def cosinesOf (l : List Expr) : Cosines × List Expr :=
  l.foldl (fun (acc, other) y =>
    match y.baseExp neg with
    | (.app .cos a, e) =>
      match e.int? with
      | some n =>
        let (c, m) := a.coeffMul
        (addEntry (· ++ ·) m [(c, n.toNat)] acc, other)
      | none => (acc, other ++ [y])
    | _ => (acc, other ++ [y])) ([], [])

/-- The numbers that double from `c` on in the list. -/
def doublings : Nat → Number → List (Number × Nat) → List Number
  | 0, _, _ => []
  | fuel + 1, c, l =>
    if l.any fun (d, _) => d = c then c :: doublings fuel (c.mul (.exact 2)) l else []

/-- The product of the cosines of angles `c * m`, where chains of doubled angles become a quotient
of two sines. The second part holds the cosines that are left. -/
def telescope (m : Expr) : Nat → List (Number × Nat) → List Expr × List Expr
  | 0, _ => ([], [])
  | _, [] => ([], [])
  | fuel + 1, (c, e) :: rest =>
    let l := (c, e) :: rest
    let chain := doublings (l.length + 1) c l
    let k := chain.length
    let angle := fun (n : Number) => times (.num n) m
    if 1 < k then
      let exponents := l.filterMap fun (d, e) => if chain.contains d then some e else none
      let take := exponents.foldl min e
      let size : Nat := 2 ^ k
      let quotient := div (div (apply .sin (angle (c.mul (.exact size)))) (.ofNat size))
        (apply .sin (angle c))
      let left := l.filterMap fun (d, e) =>
        if chain.contains d then if e = take then none else some (d, e - take) else some (d, e)
      let (new, other) := telescope m fuel left
      (power quotient (.ofNat take) :: new, other)
    else
      let (new, other) := telescope m fuel rest
      (new, power (apply .cos (angle c)) (.ofNat e) :: other)

/-- The cosines of doubled angles in a product with positive powers as a quotient of two
sines. -/
def telescopeProduct (x : Expr) : Expr :=
  match x with
  | .prod l =>
    let (cosines, other) := cosinesOf l
    let parts := cosines.map fun (m, l) =>
      let l := sortBy (fun a b => Number.cmp a.1 b.1 != .gt) l
      telescope m (2 * l.foldl (fun n (_, e) => n + e + 1) 1) l
    let new := parts.flatMap Prod.fst
    if new.isEmpty then x else mul (new ++ other ++ parts.flatMap Prod.snd)
  | x => x

/-- Products of cosines of doubled angles as quotients of two sines. -/
def telescopes (x : Expr) : Expr :=
  x.mapUp fun y =>
    if y.isProd then
      let (n, d) := y.numerDenom
      div (telescopeProduct n) (telescopeProduct d)
    else y

end Expr

end Reckoner
