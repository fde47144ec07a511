-- The value of an expression for given values of its symbols.
import Reckoner.Algebra.Evaluate
import Reckoner.Symbolic.Quadratic
import Reckoner.Value.Entries

namespace Reckoner

namespace Symbolic

/-! ## Replacements -/

/-- The symbols of a text that stands for a value. -/
def textSymbols (tokens : List Token) : List String :=
  tokens.filterMap fun
    | .name s =>
      if s = "Integer" || s = "Float" || (functionOf? s).isSome || (constantOf? s).isSome then none
      else some s
    | _ => none

/-- The meaning of a text that stands for a value. No signs may be left out in it. -/
def meaningOfText? (text : String) : Option Meaning := do
  let tokens ← tokensOf (String.ofList (text.toList.filter (· != '\n')))
  (← treeOf (caretsAsPowers tokens)).meaning (textSymbols tokens)

/-- A double as a number of 53 bits. -/
def numberOfFloat (x : Float) : Number :=
  match Binary.ofFloat? x with
  | some b => .settle b 53
  | none => if x.isNaN then .undefined else .infinite (x < 0)

/-- What stands in place of a symbol. -/
inductive Replacement where
  | expression (x : Expr)
  /-- A truth value, which no expression is made of. -/
  | truth (b : Bool)
  /-- No value at all. -/
  | absent

/-- What a value puts in place of a symbol. -/
def replacementOf (v : Value) : Except ValueFault Replacement :=
  match v with
  | .number (.whole n) => .ok (.expression (.ofInt n))
  | .number (.measure x) => .ok (.expression (.num (numberOfFloat x)))
  | .text s => match meaningOfText? s with
    | some (.value x) => .ok (.expression x)
    | some (.count n) => .ok (.expression (.ofInt n))
    | some (.truth b) => .ok (.truth b)
    | some .absent => .ok .absent
    | _ => .error (.unreadable s)
  | .truth b => .ok (.truth b)
  | v => do throw (.noExpression (← v.shown))

/-- Whether a replacement has no finite value. -/
def Replacement.isUnbounded : Replacement → Bool
  | .expression (.num n) => !n.isFinite
  | .expression x => x = .zoo
  | .truth _ | .absent => false

/-- Moves the entry at an index to the front. -/
def moveToFront {α : Type} (l : List α) (i : Nat) : List α :=
  match l[i]? with
  | some a => a :: l.eraseIdx i
  | none => l

/-- The order in which symbols are replaced: by their names, and then the ones with unbounded
values are moved to the front, the last index first. -/
def replacementOrder (l : List (String × Replacement)) : List (String × Replacement) :=
  let sorted := sortBy (fun a b => decide (a.1 < b.1)) l
  let indices := (List.range sorted.length).filter fun i =>
    (sorted[i]?).any fun (_, r) => r.isUnbounded
  indices.reverse.foldl moveToFront sorted

/-- The name that messages give the kind of an expression. -/
def kindName : Expr → String
  | .num (.exact q) =>
    if q = 0 then "Zero"
    else if q = 1 then "One"
    else if q = -1 then "NegativeOne"
    else if q = 1 / 2 then "Half"
    else if q.den = 1 then "Integer"
    else "Rational"
  | .num (.approx _ _) => "Float"
  | .num (.infinite negative) => if negative then "NegativeInfinity" else "Infinity"
  | .num .undefined => "NaN"
  | .const .pi => "Pi"
  | .const .e => "Exp1"
  | .const .i => "ImaginaryUnit"
  | .const .zoo => "ComplexInfinity"
  | .sym _ => "Symbol"
  | .sum _ => "Add"
  | .prod _ => "Mul"
  | .pow _ _ => "Pow"
  | .app f _ => f.name

/-- The part that a function misses in a truth value; the exponential misses none. -/
def missingPart? : Fn → Option String
  | .exp => none
  | .log => some "as_coefficient"
  | .floor | .floorSlope => some "is_extended_real"
  | _ => some "could_extract_minus_sign"

/-- The fault of the innermost operation that does not take a value of the kind in place of
the symbol, where `fuel` bounds the depth. -/
def refusal? (kind name : String) : Nat → Expr → Option ValueFault
  | 0, _ => none
  | fuel + 1, x =>
    let within := refusal? kind name fuel
    let isIt := fun (y : Expr) => y == .sym name
    match x with
    | .prod l =>
      (l.findSome? within).orElse fun _ => match l with
        | [.num (.exact _), y] => if isIt y then some (.noPart kind "as_coeff_Mul") else none
        | _ => none
    | .pow b e =>
      if isIt b then some (.operands "** or pow()" kind (kindName e))
      else (within b).orElse fun _ => within e
    | .sum l => l.findSome? within
    | .app f a =>
      (within a).orElse fun _ =>
        if isIt a then (missingPart? f).map (.noPart kind) else none
    | _ => none

/-- Puts a replacement in place of a symbol. A truth value has no value as a number. -/
def replaceSymbol (x : Expr) (name : String) (r : Replacement) : Except ValueFault Expr :=
  match r with
  | .expression y => .ok (Expr.replace (.sym name) y x)
  | .truth b =>
    let kind := if b then "BooleanTrue" else "BooleanFalse"
    if x = .sym name then .error (.noPart kind "evalf")
    else if x.hasSymbol name then
      .error ((refusal? kind name (x.size + 1) x).getD (.noPart kind "_eval_evalf"))
    else .ok x
  | .absent =>
    if x = .sym name then .error (.noPart "NoneType" "evalf")
    else if x.hasSymbol name then .error (.noExpression "None")
    else .ok x

/-- The names of the symbols that are replaced. -/
def replacedName (key : Value) : Except ValueFault String :=
  match key with
  | .text name => .ok name
  | v => .error (.notName v.kind)

/-- The expression with the given values in place of its symbols. -/
def substitute (x : Expr) (entries : List Value.Entry) : Except ValueFault Expr := do
  let names ← entries.mapM fun (key, _) => replacedName key
  let replacements ← entries.mapM fun (_, v) => replacementOf v
  (replacementOrder (names.zip replacements)).foldlM (fun x (name, r) => replaceSymbol x name r) x

/-! ## Values -/

/-- What the value of an expression comes to. -/
inductive Outcome where
  | real (x : Float)
  /-- Symbols are left. -/
  | unbound (names : List String)
  | notReal (value : Expr)

/-- The value of an expression. -/
def outcomeOf (x : Expr) : Outcome :=
  if !x.symbols.isEmpty then .unbound x.symbols
  else
    match Builder.full.measured? x with
    | some (.num n) => if n.isFinite then .real (Expr.num n).toDouble else .notReal (.num n)
    | some y => .notReal y
    | none => .notReal .zoo

/-- The solution by an outcome. -/
def evaluationSolution (expression : Value) (bindings : List (String × Value)) :
    Outcome → Except Fault Solution
  | .real x => do
    return {
      method := "evaluation"
      answer := x
      steps := [← line ["Expression: ", expression],
        ← line ["With ", .record bindings, ": ", x]]
      details := [("expression", expression), ("variables", .record bindings)] }
  | .unbound names =>
    .ok (.failure "evaluation" ("Unbound variables: " ++ Value.joinTexts ", " names) []
      [("expression", expression), ("variables", .record bindings)])
  | .notReal y => do
    return .failure "evaluation" "Expression does not evaluate to a real number" []
      [("expression", expression), ("variables", .record bindings), ("value", ← y.checkedText)]

/-- The value of an expression for the given values of its symbols. -/
def evaluation (expression bindings : Value) : Except Fault Solution := do
  let entries ← bindings.entries.mapError .value
  let fields ← (Value.fieldsOf entries).mapError .value
  reportReading (readArgument expression (fields.map (·.1)))
    (fun reason => .failure "evaluation" reason []
      [("expression", expression), ("variables", .record fields)])
    fun x => do
      let y ← (substitute x entries).mapError .value
      evaluationSolution expression fields (outcomeOf y)

end Symbolic

end Reckoner
