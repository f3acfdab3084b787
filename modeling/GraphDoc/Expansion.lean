import GraphDoc.Document.Basic
import GraphDoc.Schema.Table

/-!
# GraphDoc.Expansion

How composite columns are requested.

A `Registry` knows for each composite type the parts to ask for.  Types can
only be added, each once and only until the registry is frozen.  `fieldRequest`
tells a plain column from one that is requested with its parts.
-/

namespace GraphDoc

/-! ## the registry -/

/-- The parts of composite types, in the order of registration. -/
structure Registry where
  entries : List (WireType × List Text) := []
  frozen : Bool := false
  deriving DecidableEq, Repr

namespace Registry

def types (r : Registry) : List WireType := Assoc.keys r.entries

/-- The parts of a type. -/
def parts? (r : Registry) (type : WireType) : Option (List Text) := r.entries.lookup type

/-- The parts of the type with a name. -/
def find? (r : Registry) (wireType : Text) : Option (List Text) :=
  (WireType.ofText? wireType).bind r.parts?

/-- The parts of a wire type stand in some entry of the registry. -/
theorem mem_entries_of_find? {r : Registry} {wireType : Text} {parts : List Text}
    (h : r.find? wireType = some parts) : ∃ type, (type, parts) ∈ r.entries := by
  obtain ⟨type, _, hparts⟩ := Option.bind_eq_some_iff.1 h
  exact ⟨type, Assoc.mem_of_lookup hparts⟩

def register (r : Registry) (type : Value) (parts : List Text) : Except Error Registry :=
  if r.frozen then .error .registryFrozen
  else
    match type with
    | .str name =>
      match WireType.ofText? name with
      | some t =>
        if (r.parts? t).isSome then .error (.alreadyRegistered t)
        else .ok { r with entries := r.entries ++ [(t, parts)] }
      | none => .error (.unknownWireType type)
    | _ => .error (.unknownWireType type)

/-- Closes a registry to additions. -/
def freeze (r : Registry) : Registry := { r with frozen := true }

end Registry

/-! ## the standard registry -/

def intervalParts : List Text := ["seconds", "minutes", "hours", "days", "months", "years"]

def geometryPointParts : List Text := ["geojson", "srid", "x", "y"]

/-- The parts of any other shape. -/
def geometryParts : List Text := ["geojson", "srid"]

/-- The parts of a point on the globe. -/
def geographyPointParts : List Text := ["geojson", "srid", "longitude", "latitude"]

/-- The types of shapes that are no points. -/
def shapeTypes : List WireType := [
  .geometryLineString, .geometryPolygon, .geometryMultiPoint, .geometryMultiLineString,
  .geometryMultiPolygon, .geometryCollection, .geometryInterface, .geographyLineString,
  .geographyPolygon, .geographyMultiPoint, .geographyMultiLineString, .geographyMultiPolygon,
  .geographyCollection, .geographyInterface]

/-- The registry that knows every composite type. -/
def Registry.standard : Registry where
  entries :=
    [(.interval, intervalParts), (.geometryPoint, geometryPointParts),
      (.geographyPoint, geographyPointParts)] ++ shapeTypes.map fun t => (t, geometryParts)
  frozen := true

/-! ## requests of columns -/

/-- A column as it is requested. -/
inductive FieldRequest where
  | plain (field : Field)
  | expanded (field : Field) (parts : List Text)
  deriving DecidableEq, Repr

/-- The field of a column with its parts. -/
def expansionNode (name : Text) (parts : List Text) : Node :=
  .branch name [] (parts.map .plain)

/-- The field that requests a column. -/
def FieldRequest.node : FieldRequest → Node
  | plain f => .plain f.name
  | expanded f parts => expansionNode f.name parts

/-- How a column of a table is requested. -/
def fieldRequest (registry : Registry) (table : Text) (f : Field) : Except Error FieldRequest :=
  if f.composite then
    match registry.find? f.wireType with
    | some parts => .ok (.expanded f parts)
    | none => .error (.unsupportedType table f.name f.wireType)
  else .ok (.plain f)

/-- The field that requests a column of a table. -/
def fieldNode (registry : Registry) (table : Text) (f : Field) : Except Error Node :=
  (fieldRequest registry table f).map FieldRequest.node

end GraphDoc
