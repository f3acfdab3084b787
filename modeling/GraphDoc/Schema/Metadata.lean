import GraphDoc.Schema.Validation
import GraphDoc.Text.Case

/-!
# GraphDoc.Schema.Metadata

Tables from the metadata that a backend tells about itself.

The metadata is a list of tables, or an object that holds the list as `tables`,
or one that holds such an object as `_meta`.  Entries that do not count as
given are skipped, and so are relations without a field name or a far end.
-/

namespace GraphDoc

/-! ## columns -/

/-- The storage types whose values are composite on the wire. -/
def compositeStorageTypes : List Text := ["geometry", "geography", "interval"]

/-- Whether a column must be requested with a selection of its parts: its type
is composite on the wire, or stored as one. -/
def isComposite (wireType storageType : Value) : Except Error Bool :=
  match wireType with
  | .str s => if (WireType.ofText? s).isSome then .ok true else stored
  | _ => stored
where
  stored : Except Error Bool := do
    let s ← (storageType.orElse (.str "")).letters
    return compositeStorageTypes.contains (Text.lower s)

/-- Text without the exclamation marks at its end. -/
def withoutMarks (t : Text) : Text := (t.reverse.dropWhile (· == .char '!')).reverse

def endsInMark (t : Text) : Bool := t.getLast? == some (.char '!')

def requiredMember (ms : Members) (key : Text) : Except Error Value :=
  match ms.lookup key with
  | some v => .ok v
  | none => .error (.misfit (.absent key))

/-- A member of an object, `null` where there is none. -/
def optionalMember (ms : Members) (key : Text) : Value := Value.ofOption (ms.lookup key)

/-- A column from metadata.  An exclamation mark at the end of the type says
that the column is never null, unless `isNotNull` decides. -/
def Field.ofMetadata (raw : Value) : Except Error Field := do
  let ms ← raw.members
  let type ← ((optionalMember ms "type").orElse (.obj [])).members
  let marked ← ((optionalMember type "gqlType").orElse (.str "String")).letters
  let wireType := withoutMarks marked
  let nullable := match type.lookup ("isNotNull" : Text) with
    | some v => !v.truthy
    | none => !endsInMark marked
  let name ← requiredMember ms "name"
  let expansion ← isComposite (.str wireType) (optionalMember type "pgType")
  Field.make name (.str wireType) (optionalMember type "isArray").truthy nullable expansion

/-! ## relations -/

/-- Where metadata lists the relations of a kind, and which member of an entry
tells the far end. -/
def relationSources : List (RelationKind × Text × Text) := [
  (.belongsTo, "belongsTo", "references"),
  (.hasOne, "hasOne", "referencedBy"),
  (.hasMany, "hasMany", "referencedBy"),
  (.manyToMany, "manyToMany", "rightTable")]

/-- The far end of a relation: the name of an object, or the value itself. -/
def farEnd (v : Value) : Value :=
  match v with
  | .obj ms => (optionalMember ms "name").orElse (.str "")
  | v => v.orElse (.str "")

/-- A relation from metadata, none for an entry without a field name or a far
end. -/
def Relation.ofMetadata (kind : RelationKind) (endKey : Text) (raw : Value) :
    Except Error (Option Relation) := do
  if !raw.truthy then return none
  let ms ← raw.members
  let field := optionalMember ms "fieldName"
  if !field.truthy then return none
  let target := farEnd (optionalMember ms endKey)
  if !target.truthy then return none
  return some (← Relation.make field target kind)

/-- The items that metadata lists under a key. -/
def listed (ms : Members) (key : Text) : Except Error (List Value) :=
  ((optionalMember ms key).orElse (.arr [])).walk

def relationsOfKind (ms : Members) (kind : RelationKind) (key endKey : Text) :
    Except Error (List Relation) := do
  let found ← (← listed ms key).mapM (Relation.ofMetadata kind endKey)
  return found.filterMap id

def relationsOfMetadata (raw : Value) : Except Error (List Relation) := do
  let ms ← raw.members
  let groups ← relationSources.mapM fun source => relationsOfKind ms source.1 source.2.1 source.2.2
  return groups.flatten

/-! ## tables -/

def Table.ofMetadata (raw : Value) : Except Error Table := do
  let ms ← raw.members
  let relations ← relationsOfMetadata ((optionalMember ms "relations").orElse (.obj []))
  let name ← requiredMember ms "name"
  let columns ← listed ms "fields"
  let fields ← (columns.filter Value.truthy).mapM Field.ofMetadata
  Table.make name fields (.ofList relations)

/-- The part of metadata that lists the tables. -/
def tableList (payload : Value) : Except Error Value :=
  match payload with
  | .obj ms =>
    match ms.lookup ("_meta" : Text) with
    | some inner => do
      let inner ← (inner.orElse (.obj [])).members
      return (optionalMember inner "tables").orElse (.arr [])
    | none => .ok ((optionalMember ms "tables").orElse (.arr []))
  | v => .ok v

def tablesOfMetadata (payload : Value) : Except Error (List Table) := do
  let entries ← (← tableList payload).walk
  (entries.filter Value.truthy).mapM Table.ofMetadata

end GraphDoc
