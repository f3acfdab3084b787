import GraphDoc.Path
import GraphDoc.Value.Shape

/-!
# GraphDoc.Input.Preparation

What of a caller's values goes into the input of a mutation.

* An entry that was never filled in stays behind.
* Nothing, and an empty text, mean "clear this field"; they go where the field
  was touched, and in a creation only where touched fields are known.
* A list goes whole, an object part by part and only if a part remains.
* Where touched fields are known, the others stay behind; where they are not, a
  plain value that equals its default stays behind.

Touched fields are dotted paths; a touched object touches all its parts.  What
is excluded stays behind.  What is always included goes as it is, with all that is
in it, whatever is touched; but nothing is looked for in an object that stays
behind.
-/

namespace GraphDoc

inductive InputOperation where
  | create
  | update
  | patch
  deriving DecidableEq, Repr

namespace InputOperation

def text : InputOperation → String
  | create => "create"
  | update => "update"
  | patch => "patch"

def ofText? (word : Text) : Option InputOperation :=
  [create, update, patch].find? fun o => o.text == word

end InputOperation

/-- How values are prepared: the touched paths where they are known, the
default values, and names or paths that always go or stay behind. -/
structure Preparation where
  operation : InputOperation
  dirty : Option (List Text) := none
  defaults : Value := .null
  always : List Text := []
  excluded : List Text := []

namespace Preparation

/-! ## one entry -/

/-- Whether an entry is excluded, by its name or by its path. -/
def excludes (p : Preparation) (key path : Text) : Bool :=
  p.excluded.contains key || p.excluded.contains path

/-- Whether an entry always goes, by its name or by its path. -/
def includes (p : Preparation) (key path : Text) : Bool :=
  p.always.contains key || p.always.contains path

def tracks (p : Preparation) : Bool := p.dirty.isSome

/-- Whether a path or an ancestor of it was touched; where nothing is known
everything counts as touched. -/
def touched (p : Preparation) (path : Text) : Bool :=
  match p.dirty with
  | none => true
  | some dirty => dirty.any fun d => covers d path

/-- Whether something at a path or below it was touched. -/
def touchedBelow (p : Preparation) (path : Text) : Bool :=
  match p.dirty with
  | none => true
  | some dirty => dirty.any fun d => covers path d

/-- Whether a container at a path goes. -/
def reaches (p : Preparation) (path : Text) : Bool := p.touched path || p.touchedBelow path

/-- Whether a cleared field goes. -/
def clears (p : Preparation) (path : Text) : Bool :=
  match p.operation with
  | .create => p.tracks && p.touched path
  | _ => p.touched path

/-- Whether a value equals its default. -/
def isDefault (p : Preparation) (path : Text) (v : Value) : Bool :=
  match p.defaults.at? path with
  | some w => v.equals w
  | none => false

/-- Whether a plain value goes. -/
def changes (p : Preparation) (path : Text) (v : Value) : Bool :=
  if p.tracks then p.touched path else !p.isDefault path v

/-! ## the walk -/

mutual
/-- What of the members of an object at `path` goes. -/
def members (p : Preparation) (path : Text) : List (Text × Value) → Members
  | [] => []
  | (key, v) :: rest =>
    let here := below path key
    if p.excludes key here then p.members path rest
    else if p.includes key here then (key, v) :: p.members path rest
    else
      match p.value here v with
      | some w => (key, w) :: p.members path rest
      | none => p.members path rest

/-- What of the value at `path` goes, if anything. -/
def value (p : Preparation) (path : Text) : Value → Option Value
  | .missing => none
  | .null => if p.clears path then some .null else none
  | .str t =>
    if t.isEmpty then if p.clears path then some (.str t) else none
    else if p.changes path (.str t) then some (.str t) else none
  | .arr items => if p.reaches path then some (.arr items) else none
  | .obj ms =>
    if p.reaches path then
      let kept := p.members path ms
      if kept.isEmpty then none else some (.obj kept)
    else none
  | v => if p.changes path v then some v else none
end

/-- What of the values goes into the input. -/
def run (p : Preparation) (values : Members) : Members := p.members [] values

/-! ## stray entries -/

mutual
/-- Whether the walk over members has to ask of every touched entry whether it
lies below a path, and finds none that does. -/
def searches (p : Preparation) (path : Text) : List (Text × Value) → Bool
  | [] => false
  | (key, v) :: rest =>
    let here := below path key
    (!p.excludes key here && !p.includes key here && p.searchesValue here v) || p.searches path rest

/-- The same for one value. -/
def searchesValue (p : Preparation) (path : Text) : Value → Bool
  | .arr _ => !p.reaches path
  | .obj ms => !p.reaches path || p.searches path ms
  | _ => false
end

end Preparation

/-! ## values of unknown shape -/

/-- How values are to be prepared, as a caller says it. -/
structure PreparationRequest where
  operation : Text
  values : Value
  dirty : Value := .null
  defaults : Value := .null
  always : Value := .arr []
  excluded : Value := .arr []

/-- The names in a list of names. -/
def namesOf (given : Value) : Except Error (List Key) := do
  (← given.walk).mapM Value.toKey

/-- What of a caller's values goes into the input.  A touched entry that is no
text cannot lie below a path, and asking for that breaks the work off. -/
def PreparationRequest.run (r : PreparationRequest) : Except Error Members := do
  let operation ← match InputOperation.ofText? r.operation with
    | some operation => pure operation
    | none => throw (.unknownInputOperation r.operation)
  let dirty ← if r.dirty.isNull then pure none else (namesOf r.dirty).map some
  let always ← namesOf r.always
  let excluded ← namesOf r.excluded
  let values ← r.values.members
  let preparation : Preparation := {
    operation
    dirty := dirty.map fun keys => keys.filterMap Key.name?
    defaults := r.defaults
    always := always.filterMap Key.name?
    excluded := excluded.filterMap Key.name? }
  let stray := (dirty.getD []).any fun key => key.name?.isNone
  if stray && preparation.searches [] values then throw (.misfit .noMembers)
  return preparation.run values

end GraphDoc
