-- Powers in normal form: powers of numbers are worked out as far as they stay exact, a
-- power of a power is joined where that keeps its value, and a power of a product is
-- spread over the factors that allow it.
import Reckoner.Algebra.Product
import Reckoner.Number.Factors

namespace Reckoner

open scoped CoreArithmetic

namespace Builder

variable (B : Builder)

/-! ## Powers of exact numbers -/

/-- The factors of the base of a root, sorted by what becomes of them. -/
structure RootParts where
  /-- The whole number before the root. -/
  outside : Nat
  /-- Roots of a smaller degree. -/
  radicals : List Expr
  /-- The factors that stay under the root, with their exponents. -/
  inside : List (Nat × Nat)

/-- Sorts the factors of the base of a root: `p / q` is the exponent. -/
def splitRoot (p q : Nat) (factors : List (Nat × Nat)) : RootParts :=
  factors.foldl (fun acc (prime, e) =>
    let whole := e * p / q
    let rest := e * p % q
    let acc := { acc with outside := acc.outside * prime ^ whole }
    let g := Nat.gcd rest q
    if rest = 0 then acc
    else if g ≠ 1 then
      { acc with radicals := acc.radicals ++ [B.pow (.ofNat prime) (.ofRat (mkRat (rest / g) (q / g)))] }
    else { acc with inside := acc.inside ++ [(prime, rest)] }) ⟨1, [], []⟩

/-- A positive fractional power `n ^ (p / q)`, or nothing when it is as simple as it gets. -/
def rootOfInt? (n : Int) (x : Rat) : Option Expr :=
  let p := x.num.natAbs
  let q := x.den
  let turn := if n < 0 then [B.pow .negOne (.ofRat x)] else []
  let times := fun (l : List Expr) => match l ++ turn with
    | [y] => y
    | l => B.mul l
  match exactRoot? q n.natAbs with
  | some r => some (times [.ofNat (r ^ p)])
  | none =>
    let (b, e) := powerParts n.natAbs
    let factors := if e ≠ 1 then [(b, e)] else factorsOf n.natAbs
    let parts := splitRoot B p q factors
    let shared : Nat := parts.inside.foldl (fun (g : Nat) (_, e) => Nat.gcd g e) 0
    let under : Nat := parts.inside.foldl (fun (m : Nat) (prime, e) => m * prime ^ (e / max shared 1)) 1
    if under = n.natAbs && parts.outside == 1 && parts.radicals.isEmpty then none
    else
      some (times (B.mul (.ofNat parts.outside :: parts.radicals) ::
        [B.pow (.ofNat under) (.ofRat (mkRat shared q))]))

/-- The largest numerator of an exponent for which a power of a number is worked out. -/
def maxExponentSize : Nat := 10000000

/-- A power of a whole number other than 0, 1 and -1 with an exact exponent. One with too many
digits stays a power. -/
def powInt? (n : Int) (x : Rat) : Option Expr :=
  if maxExponentSize < x.num.natAbs then none
  else if x.den = 1 then
    let v : Rat := (n : Rat) ^ x.num.natAbs
    some (.ofRat (if x.num < 0 then 1 / v else v))
  else if x = 1 / 2 && n < 0 then some (B.mul [.i, B.pow (.ofInt (-n)) .half])
  else if x < 0 then
    let inverse := B.pow (.ofRat (mkRat 1 n.natAbs)) (.ofRat (-x))
    some (if n < 0 then B.mul [B.pow .negOne (.ofRat x), inverse] else inverse)
  else rootOfInt? B n x

/-- A power of a proper fraction with an exact exponent. -/
def powFraction (b x : Rat) : Expr :=
  if maxExponentSize < x.num.natAbs then .pow (.ofRat b) (.ofRat x)
  else if x.den = 1 then
    let v : Rat := b ^ x.num.natAbs
    .ofRat (if x.num < 0 then 1 / v else v)
  else if x < 0 then
    if b < 0 then B.mul [B.pow .negOne (.ofRat x), B.pow (.ofRat (-1 / b)) (.ofRat (-x))]
    else B.pow (.ofRat (1 / b)) (.ofRat (-x))
  else
    let whole := x.floor + 1
    let root := B.pow (.ofNat b.den) (.ofRat (whole - x))
    let scale := Expr.ofRat (mkRat 1 (b.den ^ whole.toNat))
    if b.num = 1 then B.mul [root, scale]
    else B.mul [B.mul [B.pow (.ofInt b.num) (.ofRat x), root], scale]

/-- A power of -1 with an exact exponent. -/
def powNegOne (x : Rat) : Option Expr :=
  if x.den = 1 then some (if x.num % 2 = 0 then .one else .negOne)
  else if x = 1 / 2 then some .i
  else if x.den = 2 then some (B.pow .i (.ofInt x.num))
  else
    let whole := x.floor
    if whole = 0 then none
    else some (B.mul [B.pow .negOne (.ofInt whole), B.pow .negOne (.ofRat (x - whole))])

/-! ## Powers of measured numbers -/

/-- A power of measured numbers, rounded once for each operation that makes it up. -/
def powBinary (prec : Nat) (b x : Binary) : Binary :=
  let x := x.trim
  if 0 ≤ x.exp then Binary.powInt .nearest prec b (x.man * 2 ^ x.exp.toNat)
  else if x.exp = -1 then
    if x.man = 1 then Binary.sqrt .nearest prec b
    else Binary.powInt .nearest prec (Binary.sqrt .nearest (prec + 10) b) x.man
  else
    Binary.exponential .nearest prec (x.mul (Binary.ln .nearest (prec + 10) b))

/-- A power of a negative measured number whose exponent is not whole. -/
def powNegativeBinary (prec : Nat) (b x : Binary) : Expr :=
  let x := x.trim
  let part := fun (y : Binary) => Expr.num (Number.settle (y.round .nearest prec) prec)
  if x.exp = -1 then
    let size := Binary.powInt .nearest prec (Binary.sqrt .nearest (prec + 10) b.neg) x.man
    let size := if x.man % 4 = 1 then size else size.neg
    B.add [part .zero, B.mul [part size, .i]]
  else
    let z := BinaryPair.pow (prec + 10) (b, .zero) (x, .zero)
    B.add [part z.1, B.mul [part z.2, .i]]

/-- A power of a measured number with a number as exponent. -/
def powApprox (b : Binary) (prec : Nat) (x : Number) : Option Expr :=
  let negative := decide (b.man < 0)
  match x with
  | .exact q =>
    if b.man = 0 then
      if q < 0 then some .zoo else some (.num (.approx b prec))
    else if q.den = 1 then
      some (.num (.settle (powBinary prec b (.ofInt q.num)) prec))
    else if q.num = 1 && q.den % 2 = 1 && negative then
      some (B.mul [.pow .negOne (.ofRat q), B.pow (.num (.approx b.neg prec)) (.ofRat q)])
    else
      let y := Binary.ofRat .nearest prec q
      if negative then some (powNegativeBinary B prec b y)
      else some (.num (.settle (powBinary prec b y) prec))
  | .approx y _ =>
    if b.man = 0 then
      if y.man < 0 then some .zoo else some (.num (.approx b prec))
    else if negative && decide (y.trim.exp < 0) then some (powNegativeBinary B prec b y)
    else some (.num (.settle (powBinary prec b y) prec))
  | .infinite down =>
    let size := b.abs.cmp (.ofInt 1)
    if size = .eq then some .nan
    else if (size = .gt) != down then some (if negative then .zoo else .num (.infinite false))
    else some .zero
  | .undefined => some .nan

/-! ## Powers of other bases -/

/-- A power of an infinite number with a number as exponent. -/
def powInfinite (negative : Bool) (x : Number) : Option Expr :=
  match x.sign? with
  | some 1 =>
    if !negative then some (.num (.infinite false))
    else match x with
      | .exact q =>
        if q.den = 1 then some (.num (.infinite (q.num % 2 = 1)))
        else some (B.mul [B.pow .negOne (.ofRat q), .num (.infinite false)])
      | _ => some .nan
  | some (-1) => if negative && !x.isFinite then some .nan else some .zero
  | _ => some .nan

/-- A power of a number with a number as exponent, or nothing when it stays a power. -/
def powNumber? (b x : Number) : Option Expr :=
  match b, x with
  | .undefined, _ | _, .undefined => some .nan
  | .infinite negative, x => powInfinite B negative x
  | .approx b prec, x => powApprox B b prec x
  | .exact q, .approx y prec =>
    if q = 0 then some (if y.man < 0 then .zoo else .zero)
    else powApprox B (Binary.ofRat .nearest prec q) prec (.approx y prec)
  | .exact q, .infinite down =>
    if q = 0 then some (if down then .zoo else .zero)
    else if q = 1 || q = -1 then some .nan
    else if (decide (1 < q) || decide (q < -1)) != down then
      some (if q < 0 then .zoo else .num (.infinite false))
    else some .zero
  | .exact q, .exact x =>
    if q = 0 then some (if x < 0 then .zoo else .zero)
    else if q = -1 then powNegOne B x
    else if q.den = 1 then powInt? B q.num x
    else some (powFraction B q x)

/-- A power of the imaginary unit with an exact exponent. -/
def powImaginary (x : Rat) : Expr :=
  if x.den = 1 then
    match (x.num % 4).toNat with
    | 0 => .one
    | 1 => .i
    | 2 => .negOne
    | _ => .prod [.negOne, .i]
  else
    let whole := (x / 2).floor
    let rest := Expr.pow .i (.ofRat (x - 2 * whole))
    if whole % 2 = 0 then rest else .prod [.negOne, rest]

/-- The absolute value of a real expression without symbols. -/
def absClosed (b : Expr) : Expr := if b.isNegative then B.neg b else b

/-- Whether the real part of an expression without symbols is not negative. -/
def hasNonnegativeRealPart (b : Expr) : Bool :=
  b.isClosed &&
    match b.toNumeric 64 with
    | .value none _ => true
    | .value (some p) _ => !p.isTiny && p.value.isPositive
    | _ => false

/-- The power `(b ^ e) ^ x` as one power, where that keeps its value. -/
def powPower? (b e x : Expr) : Option Expr :=
  let joined := fun (b : Expr) => B.pow b (B.mul [e, x])
  let isHalf := match x.rat? with
    | some q => q.den == 2
    | none => false
  if x.isInteger then some (joined b)
  else if e.isReal? = some true then
    if e = .negOne && isHalf && b.isNegative then
      some (B.mul [B.pow .negOne x, B.pow (B.neg b) (B.mul [e, x])])
    else if e = .negOne && isHalf && (b.isPositive || b.isReal? = some false) then
      some (B.pow b (B.neg x))
    else
      let even := match e.int? with
        | some n => n % 2 == 0
        | none => false
      let b := if even && b.isReal? = some true then absClosed B b else b
      let size := match e.rat? with
        | some q => some (if q < 0 then -q else q)
        | none => match e.toNumeric 64 with
          | .value (some p) _ => p.value.toRat?.map fun q => if q < 0 then -q else q
          | _ => none
      match size with
      | some a =>
        if a < 1 || e = .one || b.isNonnegative then some (joined b)
        else if a < 2 && hasNonnegativeRealPart b then some (joined b)
        else match e.rat?, x.rat? with
          | some r, some q =>
            if isHalf && b.isNegative then
              let turns := (1 / 2 - r / 2 : Rat).floor * q.num
              some (if turns % 2 = 0 then joined b else B.mul [.negOne, joined b])
            else none
          | _, _ => none
      | none => none
  else none

/-- The factors of a base, sorted by what is known of their signs. -/
structure BaseFactors where
  nonneg : List Expr
  neg : List Expr
  other : List Expr

/-- Sorts the factors of a base. A square of the imaginary unit counts as a sign. -/
def sortFactors (l : List Expr) : BaseFactors :=
  let notReal := l.filter fun x => x.isReal? = some false && x != .i
  let rest := l.filter fun x => !(x.isReal? = some false && x != .i)
  let units := rest.filter (· == .i)
  let rest := rest.filter (· != .i)
  let nonneg := rest.filter Expr.isNonnegative
  let neg := rest.filter Expr.isNegative
  let open_ := rest.filter fun x => !x.isNonnegative && !x.isNegative
  let base : BaseFactors := ⟨nonneg, neg, notReal ++ open_⟩
  if units.isEmpty then base else { base with other := base.other ++ units }

/-- A power of a product with a fractional or measured exponent: the factors that are not
negative come out, and the signs of the others are gathered. -/
def spreadPower (l : List Expr) (x : Expr) : Expr :=
  let parts := sortFactors l
  let (nonneg, other) :=
    match parts.neg with
    | [] => (parts.nonneg, parts.other)
    | [n] =>
      if parts.other.isEmpty then (parts.nonneg, [n])
      else if n.isNum && n != Expr.negOne then
        (parts.nonneg ++ [B.neg n], parts.other ++ [Expr.negOne])
      else (parts.nonneg, parts.other ++ [n])
    | n :: more =>
      let (first, rest) :=
        if parts.other.isEmpty && n.isNum then (n, more) else (Expr.one, n :: more)
      let first := if rest.length % 2 = 1 then B.neg first else first
      let nonneg := parts.nonneg ++ rest.map B.neg
      (nonneg, if first = Expr.one then parts.other else parts.other ++ [first])
  let isRoot := fun (b : Expr) => match b with
    | .pow c e => e.isRational && c.isClosed
    | _ => false
  let roots := if x.isRational then nonneg.filter isRoot else []
  let plain := if x.isRational then nonneg.filter fun b => !isRoot b else nonneg
  let front := B.mul (roots.map fun b => B.pow b x)
  let front := match plain with
    | [] => front
    | [b] => B.mul [front, .pow b x]
    | l => B.mul [front, B.mul (l.map fun b => .pow b x)]
  match other with
  | [] => front
  | [b] => B.mul [front, .pow b x]
  | l => B.mul [front, .pow (B.mul l) x]

/-- A power of a product. -/
def powProduct (l : List Expr) (x : Expr) : Expr :=
  -- the product is taken twice: a power may itself come out as a product
  if x.isInteger then B.mul [B.mul (l.map fun b => .pow b x), .pow .one x]
  else
    let imaginary : Option Rat := match l with
      | [.num (.exact q), .const .i] => some q
      | _ => none
    let root : Option Expr := do
      let q ← imaginary
      let e ← x.rat?
      if e.den ≠ 2 then none
      let half := q / 2
      let n ← exactRoot? 2 half.num.natAbs
      let d ← exactRoot? 2 half.den
      let sign := if q < 0 then Expr.prod [.negOne, .i] else .i
      return B.mul [B.pow (.ofRat (mkRat n d)) (.ofInt e.num),
        B.pow (B.add [.one, sign]) (.ofInt e.num)]
    match root with
    | some r => r
    | none =>
      match x with
      | .num n => if n.isFinite then spreadPower B l x else .pow (.prod l) x
      | _ => .pow (.prod l) x

/-- The real and imaginary part of a sum of a number and a multiple of the unit. -/
def pureComplex? (l : List Expr) : Option (Number × Number) :=
  match l with
  | [.num re, .const .i] => some (re, .exact 1)
  | [.num re, .prod [.num im, .const .i]] => some (re, im)
  | _ => none

/-- A power of a sum. Under an exponent that is not whole, one with measured coefficients gives
up the largest of them; a complex number is inverted, and its root is taken when that is exact. -/
def powSum? (l : List Expr) (x : Expr) : Option Expr :=
  match x with
  | .num n =>
    let special : Option Expr :=
      match pureComplex? l, n with
      | some (re, im), .exact e =>
        if e = -1 then
          let d := B.add [B.pow (.num re) (.ofInt 2), B.pow (.num im) (.ofInt 2)]
          some (B.mul [B.add [.num re, B.mul [.negOne, .num im, .i]], B.pow d .negOne])
        else if e.den = 2 then
          match re, im with
          | .exact r, .exact i =>
            match (B.pow (.ofRat (r * r + i * i)) .half).rat? with
            | some d =>
              let root := B.pow (B.pow (.ofRat ((d - r) / 2)) .half) (.ofInt e.num)
              let size := (d + r) / (if i < 0 then -i else i)
              let unit := if i < 0 then Expr.prod [.negOne, .i] else .i
              let factor := B.add [.ofRat size, unit]
              if e.num = 1 then some (B.mul [root, factor]) else none
            | none => none
          | _, _ => none
        else none
      | _, _ => none
    if special.isSome then special
    else if n.isExact && Expr.isClosed (.sum l) then none
    else if !n.isFinite || n.isInteger then none
    else
      let parts := l.map Expr.coeffMul
      if parts.any fun (c, _) => c.isApprox then
        let size := fun (c : Number) => if c.isNegative then c.neg else c
        let big := parts.foldl (fun (acc : Number) (c, _) =>
          if Number.cmp (size c) acc != .lt then size c else acc) (.exact (-1))
        if !big.isPositive || Number.cmp big (.exact 1) = .eq then none
        else
          let scaled := parts.map fun (c, m) =>
            if c = big then m
            else if c = big.neg then B.mul [.negOne, m]
            else
              let c := if big.isApprox || c.isApprox then c.divMeasured big
                else match c, big with
                  | .exact p, .exact q => .exact (p / q)
                  | c, _ => c
              B.mul [.num c, m]
          some (B.mul [B.pow (.num big) x, B.pow (B.add scaled) x])
      else none
  | _ => none

/-- A power of zero with an exponent that is not a number. -/
def powZero? (x : Expr) : Option Expr :=
  if x.isPositive then some .zero
  else if x.isNegative then some .zoo
  else if x.isReal? = some false then some .nan
  else
    let (c, rest) := x.coeffMul
    if c.isNegative then some (B.pow .zoo rest)
    else if c != .exact 1 then some (B.pow .zero rest)
    else none

/-- A power by the kind of its base, or nothing when it stays a power. -/
def powByBase? (b x : Expr) : Option Expr :=
  match b with
  | .num m =>
    match x with
    | .num n => powNumber? B m n
    | _ => if m = .exact 0 then powZero? B x else none
  | .const .i => x.rat?.map powImaginary
  | .const .e => some (B.app .exp x)
  | .const .zoo =>
    match x with
    | .num n =>
      if n.isZero || n = .undefined then some .nan
      else some (if n.isPositive then .zoo else .zero)
    | _ => none
  | .pow c e =>
    let (c, e) := (Expr.pow c e).baseExp B.neg
    powPower? B c e x
  | .app .exp e => powPower? B (.const .e) e x
  | .prod l => some (powProduct B l x)
  | .sum l => powSum? B l x
  | _ => none

/-- The exponent `t` of a power `b ^ (t / log b)`. -/
def logExponent? (b x : Expr) : Option Expr :=
  let inverse := Expr.pow (.app .log b) .negOne
  if x.isAtom then none
  else if x = inverse then some .one
  else
    match x with
    | .prod l => if l.contains inverse then some (B.mul (l.filter (· != inverse))) else none
    | _ => none

/-- A power in normal form. -/
def powOf (b x : Expr) : Expr :=
  let negativeNumber := match b with
    | .num n => n.isNegative
    | .prod (.num n :: _) => n.isNegative && b.isClosed
    | _ => false
  if x = .zoo then .nan
  else if x = .zero then .one
  else if x = .one then b
  else if x = .negOne && b = .num (.exact 0) then .zoo
  else if b = .nan || x = .nan then .nan
  else
    match x.int?, negativeNumber with
    | some n, true =>
      if n % 2 = 0 then
        let c := B.neg b
        if c = .one then .one else (powByBase? B c x).getD (.pow c x)
      else B.neg (B.pow (B.neg b) x)
    | _, _ =>
      if b = .one then
        match x with
        | .num (.infinite _) => .nan
        | _ => .one
      else
        let byLog := if b = .const .e then none else logExponent? B b x
        match byLog with
        | some t => B.app .exp t
        | none => (powByBase? B b x).getD (.pow b x)

end Builder

end Reckoner
