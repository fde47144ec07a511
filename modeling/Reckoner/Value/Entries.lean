-- Values as entries under keys: records, and lists of pairs.
import Reckoner.Value.Text

namespace Reckoner

namespace Value

/-- An entry: a key and the value under it. -/
abbrev Entry := Value × Value

/-- The parts of a value that can stand for a pair. -/
def parts? : Value → Option (List Value)
  | list l => some l
  | text s => some (s.toList.map fun c => text (String.singleton c))
  | record l => some (l.map fun (name, _) => text name)
  | _ => none

/-- Whether a value can be a key. -/
def isKey : Value → Bool
  | list _ | record _ => false
  | _ => true

/-- The entry at an index: a pair whose first part is a key. -/
def entryOf (i : Nat) (v : Value) : Except ValueFault Entry :=
  match v.parts? with
  | some [key, value] => if key.isKey then .ok (key, value) else .error (.notKey key.kind)
  | some l => .error (.wrongLength i l.length)
  | none => .error (.notPair i)

/-- The entries from an index on. -/
def entriesFrom (i : Nat) : List Value → Except ValueFault (List Entry)
  | [] => .ok []
  | v :: rest => do
    let e ← entryOf i v
    return e :: (← entriesFrom (i + 1) rest)

/-- The entries that a value gives. What is empty in any way gives none. -/
def entries (v : Value) : Except ValueFault (List Entry) :=
  if !v.isTrue then .ok []
  else
    match v with
    | record l => .ok (l.map fun (name, w) => (text name, w))
    | list l => entriesFrom 0 l
    | text s => entriesFrom 0 (s.toList.map fun c => text (String.singleton c))
    | v => .error (.noEntries v.kind)

/-- Entries under the texts of their keys. The last of several with one key stands at the
place of the first. -/
def fieldsOf : List Entry → Except ValueFault (List (String × Value))
  | l => l.foldlM (fun acc (key, value) => do
    return addEntry (fun _ new => new) (← key.toText) value acc) []

/-- The entries whose keys are texts. -/
def textFields (l : List Entry) : List (String × Value) :=
  l.foldl (fun acc (key, value) =>
    match key with
    | text name => addEntry (fun _ new => new) name value acc
    | _ => acc) []

end Value

end Reckoner
