-- How expressions are written: sums and products in the order of reading, quotients with a
-- bar, square roots by name, and brackets only where they are needed.
import Reckoner.Algebra.Normal

namespace Reckoner

namespace Expr

/-! ## How tightly an expression holds together -/

def sumLevel : Nat := 40
def productLevel : Nat := 50
def powerLevel : Nat := 60
def functionLevel : Nat := 70
def atomLevel : Nat := 1000

/-- The level of an expression: one of a lower level than its surroundings is bracketed. -/
def level : Expr → Nat
  | .num (.exact q) =>
    if q < 0 then sumLevel else if q.den = 1 then atomLevel else productLevel
  | .num n => if n.isNegative then sumLevel else atomLevel
  | .const _ | .sym _ => atomLevel
  | .sum _ => sumLevel
  | .prod (.num n :: _) => if n.isNegative then sumLevel else productLevel
  | .prod _ => productLevel
  | .pow _ _ => powerLevel
  | .app _ _ => functionLevel

/-- A text in brackets where the surroundings hold at least as tightly. -/
def bracket (x : Expr) (level : Nat) (text : String) : String :=
  if x.level ≤ level then "(" ++ text ++ ")" else text

/-! ## Parts of a quotient -/

/-- Whether the expression is a power whose exponent has a negative number. -/
def isReciprocal : Expr → Bool
  | .pow _ e => e.coeffMul.1.isNegative
  | _ => false

/-- The power with the opposite exponent, as it stands under a bar. -/
def reciprocalBase : Expr → Expr
  | .pow b e =>
    if e = .negOne then b
    else
      match e with
      | .num n => if n = .exact (-1) then b else .pow b (.num n.neg)
      | .prod (.num n :: rest) =>
        if n = .exact (-1) then .pow b (rawProd rest) else .pow b (.prod (.num n.neg :: rest))
      | e => .pow b e
  | x => x

/-- Whether a product is not in normal form: it shows its numbers as they stand. -/
def showsNumbers : List Expr → Bool
  | [] => false
  | first :: rest =>
    first = .one || rest.any fun x => match x with
      | .num _ => true
      | .pow b e => b.isInteger && e.isInteger
      | _ => false

/-- Texts with a sign between them. -/
def joinWith (sign : String) : List String → String
  | [] => ""
  | [s] => s
  | s :: r => s ++ sign ++ joinWith sign r

/-- A quotient of products. -/
def quotientText (above below : List String) : String :=
  let above := joinWith "*" above
  match below with
  | [] => above
  | [s] => above ++ "/" ++ s
  | l => above ++ "/(" ++ joinWith "*" l ++ ")"

/-- The exact numerator and denominator of a factor that stands above the bar. -/
def splitFactor (x : Expr) : List Expr × List Expr :=
  match x with
  | .num (.exact q) =>
    (if q.num = 1 then [] else [.ofInt q.num], if q.den = 1 then [] else [.ofNat q.den])
  | x => if x.isReciprocal then ([], [x.reciprocalBase]) else ([x], [])

/-- A term after another one: its sign stands apart. -/
def signedTerm (x : Expr) (text : String) : String × String :=
  let (sign, text) :=
    match text.toList with
    | '-' :: rest => if x.isSum then ("+", text) else ("-", String.ofList rest)
    | _ => ("+", text)
  (sign, if x.level < sumLevel || x.isSum then "(" ++ text ++ ")" else text)

/-- The slope of the whole part at an argument: at a symbol as a derivative, at any other
argument with that put in place of a symbol of its own. -/
def slopeText (x : Expr) (text : String) : String :=
  match x with
  | .sym _ => "Derivative(floor(" ++ text ++ "), " ++ text ++ ")"
  | _ => "Subs(Derivative(floor(_xi_1), _xi_1), _xi_1, " ++ text ++ ")"

/-! ## The text -/

/-- The text of an expression; `inner` says that it stands inside another one. -/
def textAux : Nat → Bool → Expr → String
  | 0, _, _ => ""
  | fuel + 1, inner, x =>
    let part := textAux fuel true
    let within := fun (level : Nat) (y : Expr) => bracket y level (part y)
    match x with
    | .num n => n.text inner
    | .const .zoo => "zoo"
    | .const .i => "I"
    | .const .pi => "pi"
    | .const .e => "E"
    | .sym s => s
    | .app .floorSlope a => slopeText a (part a)
    | .app f a => f.name ++ "(" ++ part a ++ ")"
    | .pow b e =>
      if e = .half then "sqrt(" ++ part b ++ ")"
      else if e = .ofRat (-1 / 2) then "1/sqrt(" ++ part b ++ ")"
      else if e = .negOne then "1/" ++ within powerLevel b
      else within powerLevel b ++ "**" ++ within powerLevel e
    | .sum l =>
      let terms := (Builder.full.orderedTerms (.sum l)).map fun t => signedTerm t (part t)
      match terms with
      | [] => ""
      | (sign, text) :: rest =>
        (if sign = "+" then "" else sign) ++
          joinWith " " (text :: rest.flatMap fun (sign, text) => [sign, text])
    | .prod l =>
      let level := x.level
      if showsNumbers l then
        let below := (l.filter isReciprocal).map reciprocalBase
        let above := l.filter fun y => !y.isReciprocal
        let write := fun (only : Bool) (l : List Expr) => match l with
          | [] => []
          | y :: rest =>
            (if only && !y.isSum && Builder.full.prefersNegative y then part y
              else within level y) :: rest.map (within level)
        let above := if above.isEmpty then ["1"] else write true above
        quotientText above (write (decide (1 < below.length)) below)
      else
        let (c, rest) := x.coeffMul
        let (sign, y) :=
          if c.isNegative then ("-", Builder.full.keepCoeff c.neg rest) else ("", x)
        let factors := match y with
          | .prod l => Builder.full.sortByKey l
          | y => [y]
        let split := factors.map splitFactor
        let above := split.flatMap Prod.fst
        let below := split.flatMap Prod.snd
        let above := if above.isEmpty then [Expr.one] else above
        let wraps := factors.filterMap fun f => match f with
          | .pow (.prod l) e => if e = .negOne then some (Expr.prod l) else none
          | .pow (.pow b e') e => if e = .negOne then some (Expr.pow b e') else none
          | _ => none
        let under := fun (y : Expr) =>
          let text := within level y
          if wraps.contains y then "(" ++ text ++ ")" else text
        sign ++ quotientText (above.map (within level)) (below.map under)

/-- The text of an expression. -/
def text (x : Expr) : String := textAux (2 * x.size + 4) false x

end Expr

end Reckoner
