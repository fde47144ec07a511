-- Signs that are left out: a product of neighbours gets its sign, an argument without
-- brackets gets them, and a power on the name of a function moves behind the argument.
import Reckoner.Reading.Token

namespace Reckoner

/-! ## Brackets -/

/-- A token, or what stands in a pair of brackets. -/
inductive Group where
  | token (t : Token)
  | inner (l : List Group)

/-- Pairs the brackets. The stack holds what stands before each open bracket, last first. -/
def pairBrackets : List Token → List (List Group) → List Group → Option (List Group)
  | [], [], acc => some acc.reverse
  | [], _ :: _, _ => none
  | .op .opening :: rest, stack, acc => pairBrackets rest (acc :: stack) []
  | .op .closing :: rest, before :: stack, acc =>
    pairBrackets rest stack (.inner acc.reverse :: before)
  | .op .closing :: _, [], _ => none
  | t :: rest, stack, acc => pairBrackets rest stack (.token t :: acc)

/-- A token, or a function with its argument in brackets. -/
inductive Item where
  | token (t : Token)
  | applied (f : String) (inner : List Token)
deriving DecidableEq

/-- The tokens of an item. -/
def Item.tokens : Item → List Token
  | .token t => [t]
  | .applied f inner => .name f :: .op .opening :: inner ++ [.op .closing]

/-- What a text may call: functions that no bound name hides, and the kinds of numbers. -/
structure Callables where
  isCallable : String → Bool

/-- Joins names of functions with the brackets after them; other brackets become tokens
again. Each level is changed from the inside out. -/
def mapLevels (calls : Callables) (change : List Item → List Item) :
    List Group → List Item
  | [] => []
  | .token (.name f) :: .inner l :: rest =>
    let tokens := (change (mapLevels calls change l)).flatMap Item.tokens
    if calls.isCallable f then .applied f tokens :: mapLevels calls change rest
    else
      .token (.name f) :: .token (.op .opening) :: tokens.map .token ++
        .token (.op .closing) :: mapLevels calls change rest
  | .inner l :: rest =>
    let tokens := (change (mapLevels calls change l)).flatMap Item.tokens
    .token (.op .opening) :: tokens.map .token ++
      .token (.op .closing) :: mapLevels calls change rest
  | .token t :: rest => .token t :: mapLevels calls change rest

/-- Changes a list of tokens level by level. -/
def mapTokens (calls : Callables) (change : List Item → List Item) (l : List Token) :
    Option (List Token) :=
  (pairBrackets l [] []).map fun groups =>
    (change (mapLevels calls change groups)).flatMap Item.tokens

/-! ## Products -/

/-- Whether a sign of multiplication is left out between two neighbours. -/
def leavesOutTimes (calls : Callables) : Item → Item → Bool
  | .applied _ _, .applied _ _ => true
  | .applied _ _, .token (.op .opening) => true
  | .applied _ _, .token (.name _) => true
  | .token (.op .closing), .applied _ _ => true
  | .token (.op .closing), .token (.name _) => true
  | .token (.op .closing), .token (.op .opening) => true
  | .token (.name f), next =>
    !calls.isCallable f &&
      match next with
      | .applied _ _ => true
      | .token (.name _) => true
      | .token (.op .opening) => true
      | _ => false
  | _, _ => false

/-- Puts the signs of multiplication that are left out. -/
def insertTimes (calls : Callables) : List Item → List Item
  | a :: b :: rest =>
    if leavesOutTimes calls a b then a :: .token (.op .times) :: insertTimes calls (b :: rest)
    else a :: insertTimes calls (b :: rest)
  | l => l

/-! ## Arguments without brackets -/

/-- Where the insertion of brackets stands. -/
structure BracketState where
  /-- The brackets that are still open. -/
  owed : Nat
  /-- Whether the next token still belongs to the argument. -/
  skip : Bool
  /-- Whether the exponent of a function is being read. -/
  exponent : Bool

def isTimesOrPower : Item → Bool
  | .token (.op .times) | .token (.op .power) | .token (.op .caret) => true
  | _ => false

/-- Whether an item cannot begin an argument. -/
def endsCall : Item → Bool
  | .token (.op _) | .token .finish => true
  | _ => false

/-- Puts brackets around the arguments that have none. -/
def insertBrackets (calls : Callables) : List Item → BracketState → List Item
  | a :: b :: rest, state =>
    let next := insertBrackets calls (b :: rest)
    let callable := match a with
      | .token (.name f) => some (calls.isCallable f)
      | _ => none
    let isTimes := fun (x : Item) => x = .token (.op .times)
    let continues : Unit → List Item := fun _ =>
      if state.exponent then
        let exponentEnds := match a with
          | .applied _ _ => true
          | a => isTimes a
        if exponentEnds && !isTimes b then
          if b = .token (.op .opening) then a :: next { state with exponent := false }
          else
            a :: .token (.op .opening) ::
              next { state with owed := state.owed + 1, exponent := false }
        else a :: next state
      else if 0 < state.owed then
        if isTimesOrPower b then a :: next { state with skip := true }
        else if state.skip then a :: next { state with skip := false }
        else a :: .token (.op .closing) :: next { state with owed := state.owed - 1 }
      else a :: next state
    match callable with
    | some known =>
      if !endsCall b then
        if known then a :: .token (.op .opening) :: next { state with owed := state.owed + 1 }
        else a :: next state
      else if b = .token (.op .power) then
        a :: next (if known then { state with exponent := true } else state)
      else continues ()
    | none => continues ()
  | l, state => l ++ List.replicate state.owed (.token (.op .closing))

/-! ## Powers of functions -/

/-- Where the exponent of a function is moved to. -/
structure ExponentState where
  exponent : List Token
  consuming : Bool
  level : Int

/-- Moves the exponent on the name of a function behind its argument. -/
def moveExponents (calls : Callables) : List Token → ExponentState → List Token
  | a :: b :: rest, state =>
    let next := moveExponents calls (b :: rest)
    let begins := match a with
      | .name f => b == Token.op .power && calls.isCallable f
      | _ => false
    let namesPower := match a with
      | .name _ => b == Token.op .power
      | _ => false
    if namesPower then a :: next (if begins then { state with consuming := true } else state)
    else if state.consuming then
      if a == Token.op .closing && b == Token.op .opening then
        next { state with exponent := state.exponent ++ [a], consuming := false }
      else if a == Token.op .times && b == Token.op .opening then next { state with consuming := false }
      else next { state with exponent := state.exponent ++ [a] }
    else if !state.exponent.isEmpty then
      let level := match a with
        | .op .opening => state.level + 1
        | .op .closing => state.level - 1
        | _ => state.level
      if level = 0 then a :: state.exponent ++ next { state with exponent := [], level := level }
      else a :: next { state with level := level }
    else a :: next state
  | l, state => l ++ state.exponent

/-! ## All of it -/

/-- Two signs that stand next to each other and read as one. -/
def joinSigns : List Token → List Token
  | .op .times :: .op .times :: rest => .op .power :: joinSigns rest
  | .op .over :: .op .over :: rest => .op .wholeOver :: joinSigns rest
  | t :: rest => t :: joinSigns rest
  | [] => []

/-- Whether every end of a line stands in brackets; `depth` counts the open ones. -/
def breaksInside : List Token → Nat → Bool
  | [], _ => true
  | .op .opening :: rest, depth => breaksInside rest (depth + 1)
  | .op .closing :: rest, depth => breaksInside rest (depth - 1)
  | .newline :: rest, depth => 0 < depth && breaksInside rest depth
  | _ :: rest, depth => breaksInside rest depth

/-- The tokens with every sign that was left out, as plain operators. -/
def completeTokens (calls : Callables) (l : List Token) : Option (List Token) := do
  if !breaksInside l 0 then none
  let l ← mapTokens calls (insertTimes calls) l
  let l ← mapTokens calls (fun l => insertBrackets calls l ⟨0, false, false⟩) l
  let l := moveExponents calls l ⟨[], false, 0⟩
  return joinSigns (caretsAsPowers l)

end Reckoner
