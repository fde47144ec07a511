-- Joining logarithms: a sum of logarithms of positive values is the logarithm of a product, and
-- a quotient of two logarithms of whole numbers may come out as a number.
import Reckoner.Algebra.Joined.Base

namespace Reckoner

open scoped CoreArithmetic

namespace Expr

/-! ## Taking logarithms apart -/

/-- The logarithms of whole numbers in an expression, each once. -/
def wholeLogs (x : Expr) : List Int :=
  (x.postorder.filterMap fun y => match y with
    | .app .log a => a.int?
    | _ => none).eraseDups

/-- The number of logarithms. -/
def logCount (x : Expr) : Nat :=
  x.postorder.countP fun y => match y with
    | .app .log _ => true
    | _ => false

/-- Whether a factor is the logarithm of a rational number. -/
def hasRationalLog (x : Expr) : Bool :=
  x.factors.any fun y => match y with
    | .app .log a => a.isRational
    | _ => false

/-- A quotient of logarithms of numbers, worked out as far as one number is a power of the
other. -/
def divideLogs (x : Expr) : Expr :=
  if !x.isProd then x
  else
    let (n, d) := x.numerDenom
    if !(hasRationalLog n && hasRationalLog d) then x
    else
      let (n, d) := x.fraction
      let y := match n.wholeLogs, d.wholeLogs with
        | [a], [b] =>
          let m := multiplicityNat b.natAbs a.natAbs
          if m = 0 then x
          else
            let bottom := Expr.app .log (.ofInt b)
            let rest := div (apply .log (.ofInt (a / b ^ m))) bottom
            x.substitute fun z =>
              if z = .app .log (.ofInt a) then some (times bottom (plus (.ofNat m) rest)) else none
        | _, _ => x
      let z := (expandLogWith true y).expandMul
      if z.logCount ≤ y.logCount then z else y

/-- The expression with its logarithms taken apart. -/
def expandLog (x : Expr) : Expr := expandLogWith false (x.mapUp divideLogs)

/-! ## Joining logarithms -/

/-- A term with logarithms: the factors that stay before them, those that go into them, and
their arguments. -/
structure LogTerm where
  outside : List Expr
  inside : List Expr
  args : List Expr

/-- A term with its factors sorted. Real factors go into a logarithm, all but the sign. -/
def LogTerm.ofExpr (x : Expr) : LogTerm :=
  x.factors.foldl (fun t f =>
    match f with
    | .num (.exact q) =>
      if q < 0 then
        { t with outside := t.outside ++ [.negOne], inside := t.inside ++ [.ofRat (-q)] }
      else { t with inside := t.inside ++ [f] }
    | .app .log a =>
      if a.isPositive then { t with args := t.args ++ [a] }
      else if f.isReal? = some true then { t with inside := t.inside ++ [f] }
      else { t with outside := t.outside ++ [f] }
    | f =>
      if f.isReal? = some true then { t with inside := t.inside ++ [f] }
      else { t with outside := t.outside ++ [f] }) ⟨[], [], []⟩

/-- The term as one logarithm of a power, its several logarithms one in the exponent of the
other. -/
def LogTerm.collapse (t : LogTerm) : Expr :=
  match bySize (t.args.map (.app .log)) with
  | .app .log a :: rest =>
    rest.foldl (fun e l => match l with
      | .app .log b => apply .log (power b e)
      | _ => e) (apply .log (power a (mul t.inside)))
  | _ => .one

/-- Logarithms by what stands before them: each as the factors of its exponent and its
argument. -/
abbrev LogGroups := List (List Expr × List (List Expr × Expr))

/-- The logarithm that the logarithms of one group make; `join` joins those in its argument. -/
def joinGroup (join : Expr → Expr) (l : List (List Expr × Expr)) : Expr :=
  join (mul (l.map fun (e, a) => power a (mul e)))

/-- Pairs of groups whose factors are opposite become the logarithm of a quotient. -/
def joinOpposite : List (Expr × Expr) → Nat → List Expr
  | _, 0 => []
  | [], _ => []
  | (k, a) :: rest, fuel + 1 =>
    let turned := neg k
    match lookupEntry turned rest with
    | some b =>
      let rest := rest.filter fun (j, _) => j != turned
      let (k, a, b) := if turned.effort < k.effort then (turned, b, a) else (k, a, b)
      times k (.app .log (div a b)) :: joinOpposite rest fuel
    | none => times k (.app .log a) :: joinOpposite rest fuel

/-- One sum or product with the logarithms of positive values joined. -/
def joinLogsStep (join : Expr → Expr) (x : Expr) : Expr :=
  if !(x.isSum || x.isProd) then x
  else
    let terms := x.terms.map fun t => (t, LogTerm.ofExpr t)
    let other := terms.filterMap fun (t, l) => if l.args.isEmpty then some t else none
    let many := terms.filterMap fun (_, l) => if 1 < l.args.length then some l else none
    let groups : LogGroups := terms.foldl (fun acc (_, l) =>
      match l.args with
      | [a] => addEntry (· ++ ·) l.outside [(l.inside, a)] acc
      | _ => acc) []
    -- a single logarithm of any value joins the others
    let (other, groups) := match other with
      | [.app .log a] => ([], addEntry (· ++ ·) [] [([], a)] groups)
      | other => (other, groups)
    if groups.isEmpty && many.isEmpty then x
    else
      let (other, groups) := many.foldl (fun ((other, groups) : List Expr × LogGroups) t =>
        let front := mul t.outside
        match t.collapse with
        | .app .log a => (other, addEntry (· ++ ·) [front] [([], a)] groups)
        | y => (other ++ [times front y], groups)) (other, groups)
      let joined := groups.foldl (fun acc (k, l) =>
        addEntry (fun _ new => new) (mul k) (joinGroup join l) acc) []
      let order := bySize (joined.map Prod.fst)
      let joined := order.filterMap fun k => (lookupEntry k joined).map (k, ·)
      add (other ++ joinOpposite joined joined.length)

/-- The expression with the logarithms of positive values joined. -/
def joinLogsAux : Nat → Expr → Expr
  | 0, x => x
  | fuel + 1, x => x.mapUp (joinLogsStep (joinLogsAux fuel))

def joinLogs (x : Expr) : Expr := joinLogsAux 6 x

end Expr

end Reckoner
