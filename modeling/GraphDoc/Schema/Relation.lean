import GraphDoc.Schema.Field

/-!
# GraphDoc.Schema.Relation

The relations of a table to other tables, in four groups by kind.

`Relations.ofList` sorts a list of relations into the groups and keeps the
order inside each; `Relations.toList` goes over the groups one after the
other.
-/

namespace GraphDoc

/-- Whether a relation leads to one row or to many. -/
inductive Cardinality where
  | singular
  | plural
  deriving DecidableEq, Repr

def Cardinality.text : Cardinality → String
  | singular => "singular"
  | plural => "plural"

inductive RelationKind where
  | belongsTo
  | hasOne
  | hasMany
  | manyToMany
  deriving DecidableEq, Repr

namespace RelationKind

def text : RelationKind → String
  | belongsTo => "belongsTo"
  | hasOne => "hasOne"
  | hasMany => "hasMany"
  | manyToMany => "manyToMany"

/-- All kinds, in the order of the groups. -/
def all : List RelationKind := [belongsTo, hasOne, hasMany, manyToMany]

def ofText? (word : Text) : Option RelationKind := all.find? fun k => k.text == word

/-- Whether a relation of a kind leads to one row or to many. -/
def cardinality : RelationKind → Cardinality
  | belongsTo => .singular
  | hasOne => .singular
  | hasMany => .plural
  | manyToMany => .plural

end RelationKind

/-- A relation: the field that follows it, its kind, and the table at its far
end. -/
structure Relation where
  field : Text
  kind : RelationKind
  target : Text
  deriving DecidableEq, Repr

/-- A relation with checked names. -/
def Relation.make (field target : Value) (kind : RelationKind) : Except Error Relation := do
  let field ← checkName "relation" field
  let target ← checkName "table" target
  return { field, kind, target }

/-- A relation with checked names, its kind given by a word. -/
def Relation.makeNamed (field kind target : Value) : Except Error Relation := do
  let field ← checkName "relation" field
  let target ← checkName "table" target
  match kind with
  | .str s =>
    match RelationKind.ofText? s with
    | some kind => return { field, kind, target }
    | none => throw (.unknownRelationKind (.str s))
  | given => throw (.unknownRelationKind given)

/-- The names of a relation have passed the check. -/
def Relation.Checked (r : Relation) : Prop :=
  Name.accepted r.field = true ∧ Name.accepted r.target = true

instance (r : Relation) : Decidable r.Checked :=
  inferInstanceAs (Decidable (Name.accepted r.field = true ∧ Name.accepted r.target = true))

/-- Relations grouped by kind. -/
structure Relations where
  belongsTo : List Relation := []
  hasOne : List Relation := []
  hasMany : List Relation := []
  manyToMany : List Relation := []
  deriving DecidableEq, Repr

namespace Relations

def toList (rs : Relations) : List Relation :=
  rs.belongsTo ++ rs.hasOne ++ rs.hasMany ++ rs.manyToMany

/-- Groups a list of relations by kind. -/
def ofList (rs : List Relation) : Relations where
  belongsTo := rs.filter (·.kind = .belongsTo)
  hasOne := rs.filter (·.kind = .hasOne)
  hasMany := rs.filter (·.kind = .hasMany)
  manyToMany := rs.filter (·.kind = .manyToMany)

/-- Sorting relations by their kind neither loses nor adds one. -/
theorem mem_toList_ofList {rs : List Relation} {r : Relation} :
    r ∈ (ofList rs).toList ↔ r ∈ rs := by
  obtain ⟨field, kind, target⟩ := r
  cases kind <;> simp [toList, ofList]

end Relations

end GraphDoc
