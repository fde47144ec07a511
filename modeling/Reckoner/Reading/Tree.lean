-- The grammar of arithmetic: sums of products of signed powers, calls of functions, and
-- brackets. A power binds to the right and before a sign on its left.
import Reckoner.Reading.Juxtaposition

namespace Reckoner

/-! ## Trees -/

inductive BinaryOperator where
  | plus | minus | times | over | wholeOver | power
deriving DecidableEq

/-- What a text says, before anything is worked out. -/
inductive Tree where
  | name (s : String)
  /-- A whole number, by its literal. -/
  | whole (literal : String)
  /-- A number with a point or an exponent, by its literal. -/
  | decimal (literal : String)
  /-- Brackets around nothing. -/
  | nothing
  | call (f : String) (arg : Tree)
  | positive (a : Tree)
  | negative (a : Tree)
  | binary (o : BinaryOperator) (a b : Tree)
deriving DecidableEq

/-! ## Reading -/

/-- What is being read; the rest of a sum or product has the part before it. -/
inductive Stage where
  | sum | sumRest (a : Tree)
  | product | productRest (a : Tree)
  | signed | power | atom

/-- A literal in the brackets of a call to the kind of its number. -/
def numberCall (f : String) (arg : Tree) : Option Tree :=
  match f, arg with
  | "Integer", .whole s => some (.whole s)
  | "Float", .whole s => some (.decimal s)
  | "Integer", _ | "Float", _ => none
  | f, arg => some (.call f arg)

/-- Reads one stage. Each step goes one stage down or takes a token, so a few steps for
each token are enough. -/
def readStage : Nat → Stage → List Token → Option (Tree × List Token)
  | 0, _, _ => none
  | fuel + 1, stage, tokens =>
    match stage with
    | .sum => do
      let (a, rest) ← readStage fuel .product tokens
      readStage fuel (.sumRest a) rest
    | .sumRest a =>
      let more := fun (o : BinaryOperator) (rest : List Token) => do
        let (b, rest) ← readStage fuel .product rest
        readStage fuel (.sumRest (.binary o a b)) rest
      match tokens with
      | .op .plus :: rest => more .plus rest
      | .op .minus :: rest => more .minus rest
      | rest => some (a, rest)
    | .product => do
      let (a, rest) ← readStage fuel .signed tokens
      readStage fuel (.productRest a) rest
    | .productRest a =>
      let more := fun (o : BinaryOperator) (rest : List Token) => do
        let (b, rest) ← readStage fuel .signed rest
        readStage fuel (.productRest (.binary o a b)) rest
      match tokens with
      | .op .times :: rest => more .times rest
      | .op .over :: rest => more .over rest
      | .op .wholeOver :: rest => more .wholeOver rest
      | rest => some (a, rest)
    | .signed =>
      match tokens with
      | .op .plus :: rest => (readStage fuel .signed rest).map fun (a, rest) => (.positive a, rest)
      | .op .minus :: rest => (readStage fuel .signed rest).map fun (a, rest) => (.negative a, rest)
      | rest => readStage fuel .power rest
    | .power => do
      let (a, rest) ← readStage fuel .atom tokens
      match rest with
      | .op .power :: rest =>
        let (b, rest) ← readStage fuel .signed rest
        return (.binary .power a b, rest)
      | rest => return (a, rest)
    | .atom =>
      match tokens with
      | .literal s :: rest => some (.whole s, rest)
      | .op .opening :: .op .closing :: rest => some (.nothing, rest)
      | .op .opening :: rest => do
        let (a, rest) ← readStage fuel .sum rest
        match rest with
        | .op .closing :: rest => return (a, rest)
        | _ => none
      | .name f :: .op .opening :: rest => do
        let (a, rest) ← readStage fuel .sum rest
        match rest with
        | .op .closing :: rest => return (← numberCall f a, rest)
        | _ => none
      | .name s :: rest => some (.name s, rest)
      | _ => none

/-- The deepest nesting of brackets that is read. -/
def maxDepth : Nat := 200

/-- Whether brackets nest no deeper than allowed; `depth` counts the open ones. -/
def nestsWithin : List Token → Nat → Bool
  | [], _ => true
  | .op .opening :: rest, depth => depth < maxDepth && nestsWithin rest (depth + 1)
  | .op .closing :: rest, depth => nestsWithin rest (depth - 1)
  | _ :: rest, depth => nestsWithin rest depth

/-- The tree of a whole list of tokens. -/
def treeOf (tokens : List Token) : Option Tree :=
  let tokens := tokens.filter fun t => t != .newline && t != .finish
  if !nestsWithin tokens 0 then none
  else
    match readStage (8 * tokens.length + 8) .sum tokens with
    | some (a, []) => some a
    | _ => none

end Reckoner
