import GraphDoc.Text.Basic

/-!
# GraphDoc.Schema.WireType

The composite types of the wire: a field of such a type is requested with a
selection of its parts.
-/

namespace GraphDoc

/-- The composite types. -/
inductive WireType where
  | interval
  | geometryPoint
  | geometryLineString
  | geometryPolygon
  | geometryMultiPoint
  | geometryMultiLineString
  | geometryMultiPolygon
  | geometryCollection
  | geometryInterface
  | geographyPoint
  | geographyLineString
  | geographyPolygon
  | geographyMultiPoint
  | geographyMultiLineString
  | geographyMultiPolygon
  | geographyCollection
  | geographyInterface
  deriving DecidableEq, Repr

namespace WireType

/-- The name of a type on the wire. -/
def text : WireType → String
  | interval => "Interval"
  | geometryPoint => "GeometryPoint"
  | geometryLineString => "GeometryLineString"
  | geometryPolygon => "GeometryPolygon"
  | geometryMultiPoint => "GeometryMultiPoint"
  | geometryMultiLineString => "GeometryMultiLineString"
  | geometryMultiPolygon => "GeometryMultiPolygon"
  | geometryCollection => "GeometryGeometryCollection"
  | geometryInterface => "GeometryInterface"
  | geographyPoint => "GeographyPoint"
  | geographyLineString => "GeographyLineString"
  | geographyPolygon => "GeographyPolygon"
  | geographyMultiPoint => "GeographyMultiPoint"
  | geographyMultiLineString => "GeographyMultiLineString"
  | geographyMultiPolygon => "GeographyMultiPolygon"
  | geographyCollection => "GeographyGeometryCollection"
  | geographyInterface => "GeographyInterface"

def all : List WireType := [
  interval, geometryPoint, geometryLineString, geometryPolygon, geometryMultiPoint,
  geometryMultiLineString, geometryMultiPolygon, geometryCollection, geometryInterface,
  geographyPoint, geographyLineString, geographyPolygon, geographyMultiPoint,
  geographyMultiLineString, geographyMultiPolygon, geographyCollection, geographyInterface]

def ofText? (name : Text) : Option WireType := all.find? fun t => t.text == name

/-- A composite type is found by its name. -/
theorem ofText?_text (t : WireType) : ofText? t.text = some t := by
  simp only [ofText?, Text.ofString_beq]
  cases t <;> decide

/-- What a name finds has that name. -/
theorem text_of_ofText? {name : Text} {t : WireType} (h : ofText? name = some t) :
    (t.text : Text) = name := by
  have := List.find?_some h
  simpa using this

end WireType

end GraphDoc
