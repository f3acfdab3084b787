import GraphDoc.Error
import GraphDoc.Insertion

/-!
# GraphDoc.Value.Shape

Access to values whose shape is not known beforehand.  Each function either
finds what it was asked for or says by a `Misfit` what was missing.

* `Value.members` asks for an object, `Value.letters` for a text.
* `Value.walk` goes over the items of a list, the code points of a text, or the
  names of the members of an object.
* `Value.bag` makes an association of an object or of a list of pairs.
-/

namespace GraphDoc

namespace Value

/-- The members of an object. -/
def members : Value → Except Error Members
  | obj ms => .ok ms
  | _ => .error (.misfit .noMembers)

/-- The text of a text. -/
def letters : Value → Except Error Text
  | str t => .ok t
  | _ => .error (.misfit .noMembers)

/-- The items of a list, the code points of a text, or the names of members. -/
def walk : Value → Except Error (List Value)
  | arr items => .ok items
  | str t => .ok (t.map fun c => str [c])
  | obj ms => .ok (ms.map fun m => str m.1)
  | _ => .error (.misfit .noItems)

/-- A key for looking up. -/
def toKey (v : Value) : Except Error Key :=
  if Key.possible v then .ok (Key.ofValue v) else .error (.misfit .noItems)

/-- The two parts of the pair at `index` of a list of pairs. -/
def pair (index : Nat) (v : Value) : Except Error (Value × Value) := do
  match ← v.walk with
  | [a, b] => return (a, b)
  | parts => throw (.pairSize index parts.length)

/-- Adds the pairs of a list, the first of them at `index`, to an
association. -/
def addPairs (entries : List (Key × Value)) (index : Nat) :
    List Value → Except Error (List (Key × Value))
  | [] => .ok entries
  | v :: rest => do
    let p ← v.pair index
    let k ← p.1.toKey
    addPairs (Assoc.put entries k p.2) (index + 1) rest

/-- The association that a value stands for: the members of an object, or the
pairs of a list. -/
def bag : Value → Except Error (List (Key × Value))
  | obj ms => .ok (ms.map fun m => (Key.name m.1, m.2))
  | v => do addPairs [] 0 (← v.walk)

end Value

/-! ## order of keys -/

def Value.Quantity.less : Value.Quantity → Value.Quantity → Bool
  | .ratio n d, .ratio n' d' => n * d' < n' * d
  | .ratio _ _, .infinite negative => !negative
  | .infinite negative, .ratio _ _ => negative
  | .infinite a, .infinite b => a && !b
  | _, _ => false

/-- Whether two keys can be told in order: texts among themselves and numbers
among themselves. -/
def Key.comparable : Key → Key → Bool
  | .name _, .name _ => true
  | .stray v, .stray w => v.quantity?.isSome && w.quantity?.isSome
  | _, _ => false

def Key.less : Key → Key → Bool
  | .name t, .name u => t < u
  | .stray v, .stray w =>
    match v.quantity?, w.quantity? with
    | some q, some q' => q.less q'
    | _, _ => false
  | _, _ => false

/-- The keys of an association in ascending order; an undefined number is less
than nothing and nothing is less than it. -/
def sortedKeys (entries : List (Key × Value)) : Except Error (List Value) :=
  match entries with
  | first :: second :: rest =>
    if (second :: rest).all fun e => Key.comparable first.1 e.1 then
      .ok ((Insertion.sort Key.less (Assoc.keys entries)).map Key.value)
    else .error (.misfit .noItems)
  | _ => .ok (entries.map fun e => e.1.value)

end GraphDoc
