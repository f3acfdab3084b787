import GraphDoc.Path
import GraphDoc.Schema.Field

/-!
# GraphDoc.Selection.Basic

What a caller wants to read: an ordered set of names, each a leaf or a relation
with a selection of its own.

`Spec.ofValue` reads a selection from an object whose members are `true`,
`false` or an object with the one member `select`; `false` leaves the name out.
`Spec.toValue` writes a selection in that form.  What was read before may also be
handed over instead of a value (`Draft`), and is then taken as it is.
-/

namespace GraphDoc

/-- What is selected under a name: the name alone, a relation with all that is
read by default, or a relation with a selection. -/
inductive Selection where
  | leaf
  | whole
  | nested (entries : List (Key × Selection))
  deriving Inhabited, Repr

/-- A selection: names in order, each with what is selected under it. -/
abbrev Spec := List (Key × Selection)

/-! ## reading -/

namespace Spec

mutual
/-- Reads the members of a selection that stands at `path`. -/
def ofMembers (path : Text) : List (Text × Value) → Except Error Spec
  | [] => .ok []
  | (key, v) :: rest => do
    let _ ← checkName "field" (.str key)
    let first ← ofEntry (below path key) v
    let others ← ofMembers path rest
    match first with
    | some s => return (Key.name key, s) :: others
    | none => return others

/-- Reads what is selected at `path`, nothing for a name that is left out. -/
def ofEntry (path : Text) : Value → Except Error (Option Selection)
  | .bool b => .ok (if b then some .leaf else none)
  | .obj [(key, inner)] =>
    if key = "select" then ofSelect path inner
    else .error (.selection (.entry path (.obj [(key, inner)])))
  | v => .error (.selection (.entry path v))

/-- Reads the selection of a relation at `path`. -/
def ofSelect (path : Text) : Value → Except Error (Option Selection)
  | .null => .ok (some .whole)
  | .obj ms => do
    let entries ← ofMembers path ms
    return some (.nested entries)
  | v => .error (.selection (.noMapping path v))
end

/-- Reads a selection; `null` selects nothing in particular. -/
def ofValue : Value → Except Error (Option Spec)
  | .null => .ok none
  | .obj ms => do
    let entries ← ofMembers [] ms
    return some entries
  | v => .error (.selection (.noMapping [] v))

/-! ## what was read before -/

/-- What is handed over for a name: a value that is still to be read, or what
was read from one before. -/
inductive Draft where
  | unread (v : Value)
  | read (s : Selection)

/-- Reads what is handed over for the name at `path`. -/
def ofDraft (path : Text) : Draft → Except Error (Option Selection)
  | .unread v => ofEntry path v
  | .read s => .ok (some s)

/-- Reads a selection parts of which may have been read before. -/
def ofDrafts : List (Key × Draft) → Except Error Spec
  | [] => .ok []
  | (key, draft) :: rest => do
    let name ← checkName "field" key.value
    let first ← ofDraft (below [] name) draft
    let others ← ofDrafts rest
    match first with
    | some s => return (Key.name name, s) :: others
    | none => return others

/-- Reads a selection all of which was read before. -/
def reread : Option Spec → Except Error (Option Spec)
  | none => .ok none
  | some entries => do
    let entries ← ofDrafts (entries.map fun e => (e.1, .read e.2))
    return some entries

/-! ## writing -/

mutual
/-- The members that stand for the entries of a selection. -/
def toMembers : List (Key × Selection) → List (Text × Value)
  | [] => []
  | (key, s) :: rest => (key.text, entryValue s) :: toMembers rest

/-- The value that stands for what is selected under a name. -/
def entryValue : Selection → Value
  | .leaf => .bool true
  | .whole => .obj [("select", .null)]
  | .nested entries => .obj [("select", .obj (toMembers entries))]
end

/-- The value that stands for a selection. -/
def toValue : Option Spec → Value
  | none => .null
  | some entries => .obj (toMembers entries)

end Spec

end GraphDoc
