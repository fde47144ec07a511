-- Reading an expression: the names are checked, the signs that were left out are put in,
-- the powers are checked as written, and only then is the expression worked out.
import Reckoner.Reading.Guard

namespace Reckoner

/-! ## Reading -/

/-- What a text with these symbols may call. -/
def callablesFor (symbols : List String) : Callables where
  isCallable f :=
    !symbols.contains f && (f = "Integer" || f = "Float" || (functionOf? f).isSome)

/-- The tree of a text with these symbols. -/
def parseTree (symbols : List String) (text : String) : Option Tree := do
  let tokens ← splitNames symbols (← tokensOf text) [] ⟨false, false⟩
  treeOf (← completeTokens (callablesFor symbols) tokens)

/-- The expression that a tree stands for, once its powers are checked. -/
def workOut (symbols : List String) (text : String) (tree : Tree) : Except ReadFault Expr := do
  match tree.written symbols with
  | none => throw (.malformed text)
  | some w =>
    if !w.isAlgebraic then throw (.notAlgebraic text)
    match w.expr? with
    | none => throw (.malformed text)
    | some x =>
      checkTruths symbols tree
      checkPowers x
  match tree.meaning symbols with
  | none => throw (.malformed text)
  | some (.value x) => return x
  | some _ => throw (.notAlgebraic text)

/-- Reads an expression; the bound names are symbols whatever they mean otherwise. -/
def readExpression (text : String) (bound : List String) : Except ReadFault Expr := do
  match bound.find? fun name => !isName name.toList with
  | some name => throw (.badVariable name)
  | none =>
    if (stripBlank text.toList).isEmpty then throw .empty
    let names ← symbolNames text bound
    let symbols := names ++ bound
    match parseTree symbols text with
    | none => throw (.malformed text)
    | some tree => workOut symbols text tree

end Reckoner
