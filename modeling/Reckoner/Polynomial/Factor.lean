-- Factors of polynomials with whole coefficients: in one variable by way of the factors modulo
-- a prime, and in several variables by way of one.
import Reckoner.Polynomial.Basic
import Reckoner.Polynomial.Lifting

namespace Reckoner

open scoped CoreArithmetic

/-! ## One variable -/

/-- Whole coefficients, lowest first. -/
abbrev IntPoly := List Int

namespace IntPoly

def trim (l : List Int) : IntPoly := (l.reverse.dropWhile (· == 0)).reverse

def mulAux : List Int → List Int → List Int
  | [], b => b
  | a, [] => a
  | x :: a, y :: b => (x + y) :: mulAux a b

def mul (a b : IntPoly) : IntPoly :=
  trim (a.foldr (fun x acc => mulAux (b.map (x * ·)) (0 :: acc)) [])

/-- The polynomial without the common divisor of its coefficients, and with a positive
leading one. -/
def primitive (a : IntPoly) : IntPoly :=
  let g := a.foldl (fun (g : Nat) c => Nat.gcd g c.natAbs) 0
  let g : Int := if (a.getLast?.getD 0) < 0 then -g else g
  if g = 0 then [] else a.map (· / g)

/-- Division from the highest coefficient down; nothing when it does not come out. -/
def divAux (divisor : List Int) (lead : Int) : Nat → List Int → List Int → Option (List Int)
  | 0, a, q => if a.all (· == 0) then some q.reverse else none
  | steps + 1, a, q =>
    match a with
    | [] => none
    | x :: _ =>
      if x % lead ≠ 0 then none
      else
        let k := x / lead
        let rest := mulAux a (divisor.map fun y => -(k * y))
        divAux divisor lead steps rest.tail (k :: q)

/-- The quotient, when the division leaves nothing. -/
def divExact? (a b : IntPoly) : Option IntPoly :=
  match b.getLast? with
  | none => none
  | some lead =>
    if a.length < b.length then none
    else
      (divAux b.reverse lead (a.length - b.length + 1) a.reverse []).map fun q => trim q.reverse

/-- The coefficients modulo `p`. -/
def toMod (p : Nat) (a : IntPoly) : ModPoly := ModPoly.trim (a.map fun c => (c % (p : Int)).toNat)

/-- The polynomial with coefficients of the smallest size. -/
def ofMod (p : Nat) (a : ModPoly) : IntPoly :=
  trim (a.map fun c => if p / 2 < c then (c : Int) - p else c)

/-! ## Cyclotomic polynomials -/

/-- `x ^ n + c`. -/
def binomial (n : Nat) (c : Int) : IntPoly := c :: List.replicate (n - 1) 0 ++ [1]

def divisors (n : Nat) : List Nat := ((List.range (n + 1)).drop 1).filter fun d => n % d = 0

/-- The cyclotomic polynomials of the divisors of `n`, smallest first. -/
def cyclotomics (n : Nat) : List (Nat × IntPoly) :=
  (divisors n).foldl (fun acc d =>
    let below := acc.filter fun (e, _) => d % e = 0
    let f := below.foldl (fun f (_, g) => (divExact? f g).getD f) (binomial d (-1))
    acc ++ [(d, f)]) []

/-- The factors of `x ^ n - 1` and `x ^ n + 1`. -/
def cyclotomicFactors? (f : IntPoly) : Option (List IntPoly) :=
  let n := f.length - 1
  if n = 0 then none
  else if f = binomial n (-1) then some ((cyclotomics n).map Prod.snd)
  else if f = binomial n 1 then
    some (((cyclotomics (2 * n)).filter fun (d, _) => n % d ≠ 0).map Prod.snd)
  else none

/-! ## Recombination -/

/-- The primes to try: the first odd ones, and large ones for a polynomial that has repeated
factors modulo all of those. -/
def primes : List Nat :=
  [3, 5, 7, 11, 13, 17, 19, 23, 29, 31, 37, 41, 43, 47, 53, 59, 61, 67, 71, 73, 79, 83, 89, 97,
    101, 103, 107, 109, 113, 127, 131, 137, 139, 149, 151, 157, 163, 167, 173, 179, 181, 191] ++
    [31, 61, 89, 107, 127, 521].map fun k : Nat => 2 ^ k - 1

/-- Twice a bound on the coefficients of every factor, times the leading coefficient. -/
def factorBound (f : IntPoly) : Nat :=
  let size := f.foldl (fun (m : Nat) c => max m c.natAbs) 0
  let lead := (f.getLast?.getD 0).natAbs
  2 * lead * lead * size * 2 ^ f.length * (f.length + 1)

/-- The sublists with `k` elements, each with the elements left out. -/
def choices {α : Type} : Nat → List α → List (List α × List α)
  | 0, l => [([], l)]
  | _ + 1, [] => []
  | k + 1, x :: r =>
    ((choices k r).map fun (a, b) => (x :: a, b)) ++ ((choices (k + 1) r).map fun (a, b) => (a, x :: b))

/-- Finds true factors as products of `k` factors modulo `m`, then of more. Only the degrees in
`allowed` can be those of a factor. -/
def recombine (m : Nat) (allowed : List Nat) : Nat → Nat → IntPoly → List ModPoly → List IntPoly
  | 0, _, f, _ => if f.length ≤ 1 then [] else [f]
  | fuel + 1, k, f, parts =>
    if parts.length < 2 * k then if f.length ≤ 1 then [] else [f]
    else
      let lead := (f.getLast?.getD 1)
      let found := (choices k parts).findSome? fun (chosen, rest) =>
        let degree := chosen.foldl (fun n g => n + (g.length - 1)) 0
        if !allowed.contains degree then none
        else
          let product := chosen.foldl (ModPoly.mul m) (toMod m [lead])
          let g := primitive (ofMod m product)
          (divExact? f g).map fun q => (g, q, rest)
      match found with
      | some (g, q, rest) => g :: recombine m allowed fuel k q rest
      | none => recombine m allowed fuel (k + 1) f parts

/-! ## Factors modulo several primes -/

/-- The sums of the sublists of a list, each once. -/
def subsetSums (l : List Nat) : List Nat :=
  l.foldl (fun sums n => sums ++ (sums.map (· + n)).filter fun s => !sums.contains s) [0]

/-- A prime with the products of the factors of each degree. -/
abbrev DegreeSplit := Nat × List (Nat × ModPoly)

/-- The degrees of the factors of one split, with repetitions. -/
def degreesOf (split : DegreeSplit) : List Nat :=
  split.2.flatMap fun (d, g) => List.replicate ((g.length - 1) / d) d

/-- The splits modulo the first few primes that keep the degree and give no repeated factors. -/
def degreeSplits (f : IntPoly) : Nat → List Nat → List DegreeSplit
  | 0, _ => []
  | _, [] => []
  | count + 1, p :: rest =>
    let g := toMod p f
    if g.length = f.length && (ModPoly.gcd p g (ModPoly.derivative p g)).length = 1 then
      (p, ModPoly.byDegree p g.length 1 (ModPoly.monic p g) [0, 1]) :: degreeSplits f count rest
    else degreeSplits f (count + 1) rest

/-- The split with the fewest factors. -/
def fewestFactors (first : DegreeSplit) (rest : List DegreeSplit) : DegreeSplit :=
  rest.foldl (fun best x => if (degreesOf x).length < (degreesOf best).length then x else best) first

/-- The factors of a polynomial without content and without repeated factors. -/
def squareFreeFactors (f : IntPoly) : List IntPoly :=
  if f.length ≤ 2 then [f]
  else
    match cyclotomicFactors? f with
    | some l => l
    | none =>
      match degreeSplits f 5 primes with
      | [] => [f]
      | first :: rest =>
        -- the degree of a true factor is a sum of degrees modulo each prime
        let allowed := rest.foldl (fun acc x =>
          let sums := subsetSums (degreesOf x)
          acc.filter sums.contains) (subsetSums (degreesOf first))
        if allowed.length ≤ 2 then [f]
        else
          let (p, split) := fewestFactors first rest
          let parts := split.flatMap fun (d, g) =>
            ModPoly.splitEqual p d (40 + 10 * g.length) 0 g
          let bound := factorBound f
          let times := ModPoly.squaringsPast bound (bound.log2 + 2) p
          let k := 2 ^ times
          let m := p ^ k
          let g := toMod m f
          let monic := ModPoly.scale m (ModPoly.inverseModPower p k (g.getLast?.getD 1)) g
          recombine m allowed (2 * f.length + 4) 1 f
            (ModPoly.liftFactors p times parts.length monic parts)

end IntPoly

/-! ## Several variables -/

namespace Poly

/-- A polynomial in one variable as coefficients, lowest first. -/
def toIntPoly (p : Poly Rat) : IntPoly :=
  (List.range (degree p + 1)).map fun i =>
    ((p.find? fun (e, _) => e.head? = some i).map fun (_, c) => c.num).getD 0

def ofIntPoly (l : IntPoly) : Poly Rat :=
  (l.zipIdx.filterMap fun (c, i) => if c = 0 then none else some ([i], (c : Rat))).reverse

/-- The smallest exponents. -/
def commonExponents (p : Poly Rat) : Exponents :=
  p.foldl (fun (acc : List Nat) (e, _) =>
    if acc.isEmpty then e else List.zipWith min acc e) []

/-- The highest exponents. -/
def highestExponents (p : Poly Rat) : Exponents :=
  p.foldl (fun (acc : List Nat) (e, _) =>
    if acc.isEmpty then e else List.zipWith max acc e) []

/-- Repeated factors in the first variable: a polynomial as a product of powers of
polynomials without repeated factors. -/
def squareFreeAux (one : Poly Rat) : Nat → Nat → Poly Rat → Poly Rat → List (Poly Rat × Nat)
  | 0, _, _, _ => []
  | fuel + 1, k, b, d =>
    if degree b = 0 then []
    else
      let a := gcd b d
      let b' := (divExact? b a).getD b
      let c := (divExact? d a).getD d
      let d' := sub c (derivative b')
      let rest := squareFreeAux one fuel (k + 1) b' d'
      if degree a = 0 then rest else (a, k) :: rest

/-- The parts without repeated factors of a polynomial without content in the first
variable, each with its multiplicity. -/
def squareFree (f : Poly Rat) : List (Poly Rat × Nat) :=
  let df := derivative f
  let g := gcd f df
  let b := (divExact? f g).getD f
  let c := (divExact? df g).getD df
  squareFreeAux (constant f.arity 1) (degree f + 2) 1 b (sub c (derivative b))

/-- The weights by which several variables become powers of one. -/
def packWeights : List Nat → Nat → List Nat
  | [], _ => []
  | n :: rest, w => w :: packWeights rest (w * (n + 1))

/-- A polynomial with each variable replaced by a power of one variable. -/
def pack (weights : List Nat) (p : Poly Rat) : Poly Rat :=
  ofTerms (p.map fun (e, c) => ([(List.zipWith (· * ·) weights e).foldl (· + ·) 0], c))

/-- The exponents that a packed one stands for. -/
def unpackExponent : List Nat → Nat → Exponents
  | [], _ => []
  | n :: rest, k => k % (n + 1) :: unpackExponent rest (k / (n + 1))

def unpack (bounds : List Nat) (p : Poly Rat) : Poly Rat :=
  ofTerms (p.map fun (e, c) => (unpackExponent bounds (e.head?.getD 0), c))

/-- Finds true factors as products of `k` packed ones, then of more. -/
def recombinePacked (bounds : List Nat) : Nat → Nat → Poly Rat → List IntPoly → List (Poly Rat)
  | 0, _, f, _ => if isConstant f then [] else [f]
  | fuel + 1, k, f, parts =>
    if parts.length < 2 * k then if isConstant f then [] else [f]
    else
      let found := (IntPoly.choices k parts).findSome? fun (chosen, rest) =>
        let g := unpack bounds (ofIntPoly (chosen.foldl IntPoly.mul [1]))
        if isConstant g then none
        else (divExact? f g).map fun q => (normal g, normal q, rest)
      match found with
      | some (g, q, rest) => g :: recombinePacked bounds fuel k q rest
      | none => recombinePacked bounds fuel (k + 1) f parts

/-- The factors of a polynomial in one variable, with repetitions. -/
def packedFactors (p : Poly Rat) : List IntPoly :=
  let low := (commonExponents p).head?.getD 0
  let rest := (divExact? p [([low], 1)]).getD p
  List.replicate low [0, 1] ++
    (squareFree (normal rest)).flatMap fun (f, k) =>
      (IntPoly.squareFreeFactors (toIntPoly f)).flatMap fun g => List.replicate k g

/-- The factors of a polynomial without repeated factors in all its variables. -/
def factorsPacked (p : Poly Rat) : List (Poly Rat) :=
  match p.arity with
  | 0 => []
  | 1 => (IntPoly.squareFreeFactors (toIntPoly p)).map ofIntPoly
  | _ =>
    let bounds := highestExponents p
    -- the last variable counts least, so that packing keeps small degrees
    let weights := packWeights bounds 1
    recombinePacked bounds (2 * (packedFactors (pack weights p)).length + 4) 1 p
      (packedFactors (pack weights p))

/-- Whether all terms have the same total degree. -/
def isHomogeneous (p : Poly Rat) : Bool :=
  let degrees := p.map fun (e, _) => e.foldl (· + ·) 0
  degrees.all fun d => degrees.head? = some d

/-- The polynomial with the value one for the last variable. -/
def dropLastVariable (p : Poly Rat) : Poly Rat := ofTerms (p.map fun (e, c) => (e.dropLast, c))

/-- The homogeneous polynomial from which a last variable was dropped. -/
def restoreLastVariable (p : Poly Rat) : Poly Rat :=
  let total := p.foldl (fun n (e, _) => max n (e.foldl (· + ·) 0)) 0
  ofTerms (p.map fun (e, c) => (e ++ [total - e.foldl (· + ·) 0], c))

/-- The coefficient of one power of the variable at a place, in the other variables. -/
def coefficientAt (i n : Nat) (p : Poly Rat) : Poly Rat :=
  ofTerms ((p.filter fun (e, _) => e[i]? = some n).map fun (e, c) => (e.eraseIdx i, c))

/-- The value at whole numbers for all variables, one of them after the other. -/
def valueAt (point : List Int) (p : Poly Rat) : Rat :=
  p.foldl (fun acc (e, c) =>
    acc + c * ((List.zipWith (fun (x : Int) n => x ^ n) point e).foldl (· * ·) (1 : Int) : Int)) 0

/-- Whether a polynomial shows at a point that it has no factors but itself: as one in the variable
at a place it has no content, and with numbers for the others it keeps its degree and has no
factors. -/
def isPrimeAt (i : Nat) (point : List Int) (p : Poly Rat) : Bool :=
  let top := ((highestExponents p)[i]?).getD 0
  let coefficients := (List.range (top + 1)).map fun n => coefficientAt i n p
  let values : IntPoly := coefficients.map fun c => (valueAt point c).num
  let f := IntPoly.primitive (IntPoly.trim values)
  let whole := ofIntPoly f
  top ≠ 0 && f.length = top + 1 && isConstant (gcd whole (derivative whole)) &&
    (IntPoly.squareFreeFactors f).length = 1 &&
    isConstant (coefficients.foldl gcd [])

/-- Whether a polynomial shows at one of a few points that it has no factors but itself. -/
def showsPrime (p : Poly Rat) : Bool :=
  let places := List.range p.arity
  [1, 2, 5].any fun (first : Int) =>
    places.any fun i =>
      isPrimeAt i ((List.range (p.arity - 1)).map fun (j : Nat) => first + 3 * (j : Int)) p

/-- The factors of a polynomial without content in the first variable and without repeated
factors. One that is homogeneous has the factors of its value at one. -/
def squareFreeFactors (p : Poly Rat) : List (Poly Rat) :=
  if 2 ≤ p.arity && showsPrime p then [p]
  else if 2 ≤ p.arity && isHomogeneous p && p.length ≠ 1 then
    (factorsPacked (dropLastVariable p)).map restoreLastVariable
  else factorsPacked p

/-- The factors of a polynomial in `arity` variables, with multiplicities and without
content. -/
def factorAux : Nat → Poly Rat → List (Poly Rat × Nat)
  | 0, _ => []
  | arity + 1, p =>
    let contentOf := (byFirst p).foldl (fun g (_, c) => gcdAux arity g c) []
    let rest := (divExact? p (lift 0 contentOf)).getD p
    let outer := (factorAux arity contentOf).map fun (f, k) => (lift 0 f, k)
    let inner := (squareFree (normal rest)).flatMap fun (f, k) =>
      (squareFreeFactors f).map fun g => (normal g, k)
    outer ++ inner

/-- The variables of a polynomial that occur, each by its place. -/
def occurring (p : Poly Rat) : List Nat :=
  (List.range p.arity).filter fun i => p.any fun (e, _) => (e[i]?).getD 0 ≠ 0

/-- The rational content of a polynomial, with the sign of its leading coefficient, and its
factors with multiplicities. -/
def factor (p : Poly Rat) : Rat × List (Poly Rat × Nat) :=
  if p.isEmpty then (0, [])
  else
    let c := if lead p < 0 then -(content p) else content p
    let low := commonExponents p
    let p := (divExact? (scale (1 / c) p) [(low, 1)]).getD p
    let single := fun (i : Nat) => (List.range low.length).map fun j => if i = j then 1 else 0
    let powers := low.zipIdx.filterMap fun (n, i) =>
      if n = 0 then none else some ([(single i, (1 : Rat))], n)
    -- only the variables that occur take part
    let used := occurring p
    let narrow := ofTerms (p.map fun (e, c) => (used.map fun i => (e[i]?).getD 0, c))
    let widen := fun (q : Poly Rat) => ofTerms (q.map fun (e, c) =>
      ((List.range low.length).map fun i =>
        ((used.zip e).find? fun (j, _) => i = j).elim 0 Prod.snd, c))
    let factors := if used.isEmpty then [] else factorAux used.length narrow
    (c, powers ++ factors.map fun (q, k) => (widen q, k))

end Poly

end Reckoner
