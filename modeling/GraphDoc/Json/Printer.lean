import GraphDoc.Number.Shortest
import GraphDoc.Text.Encoding
import GraphDoc.Value.Basic

/-!
# GraphDoc.Json.Printer

JSON text from values.

`render` writes members in the order in which they stand; `Value.ordered` puts
them in the order of their keys, throughout.  A `Layout` decides the rest: on
one line without blanks, with every character as it is; or one item a line,
indented by two, with every character beyond ASCII written by its code units.
A surrogate on its own is written by its number in either layout.
An entry that was never filled in has no JSON form and prints as `null`.
-/

namespace GraphDoc

/-! ## order of members -/

/-- The order of keys: by code point. -/
def Value.keyLess (a b : Text) : Bool := a < b

mutual
/-- A value with the members of every object in the order of their keys. -/
def Value.ordered : Value → Value
  | .arr items => .arr (Value.orderedItems items)
  | .obj members => .obj (Assoc.sorted Value.keyLess (Value.orderedMembers members))
  | v => v

def Value.orderedItems : List Value → List Value
  | [] => []
  | v :: rest => Value.ordered v :: Value.orderedItems rest

def Value.orderedMembers : List (Text × Value) → List (Text × Value)
  | [] => []
  | (k, v) :: rest => (k, Value.ordered v) :: Value.orderedMembers rest
end

end GraphDoc

namespace GraphDoc.Json

/-! ## layout -/

/-- How a value is laid out. -/
inductive Layout where
  | compact
  | indented
  deriving DecidableEq, Repr

/-! ## text -/

/-- A code unit by its four digits. -/
def unitEscape (code : Nat) : Text := "\\u" ++ Text.hexadecimal 4 code

/-- A code point by its one or two code units. -/
def pointEscape (c : CodePoint) : Text :=
  let code := c.code
  let rest := code - 0x10000
  if code < 0x10000 then unitEscape code
  else unitEscape (0xD800 + rest / 0x400) ++ unitEscape (0xDC00 + rest % 0x400)

/-- Whether a code point beyond the controls stands as it is. -/
def isPlain (layout : Layout) (c : CodePoint) : Bool :=
  match layout with
  | .compact => !c.isSurrogate
  | .indented => c.code ≤ 126

/-- One code point inside a text literal. -/
def textPoint (layout : Layout) (c : CodePoint) : Text :=
  if c = '"' ∨ c = '\\' then ['\\', c]
  else if c = '\n' then "\\n"
  else if c = '\r' then "\\r"
  else if c = '\t' then "\\t"
  else if c = '\x08' then "\\b"
  else if c = '\x0c' then "\\f"
  else if 32 ≤ c.code && isPlain layout c then [c]
  else pointEscape c

def textLiteral (layout : Layout) (t : Text) : Text :=
  "\"" ++ t.flatMap (textPoint layout) ++ "\""

def numberText (x : Binary64) : Text := x.text "Infinity" "NaN"

/-! ## containers -/

/-- The line break before an item at a depth. -/
def lineBreak (depth : Nat) : Text :=
  .char '\n' :: List.replicate (2 * depth) ' '

/-- The items of a container between its brackets; `depth` is the depth of the
items. -/
def enclosed (layout : Layout) (depth : Nat) (left right : Text) (items : List Text) : Text :=
  match layout, items with
  | _, [] => left ++ right
  | .compact, items => left ++ Text.separated "," items ++ right
  | .indented, items =>
    left ++ lineBreak depth ++ Text.separated ("," ++ lineBreak depth) items ++
      lineBreak (depth - 1) ++ right

def memberText (layout : Layout) (key value : Text) : Text :=
  match layout with
  | .compact => textLiteral layout key ++ ":" ++ value
  | .indented => textLiteral layout key ++ ": " ++ value

mutual
/-- A value in JSON text; `depth` counts the containers around it. -/
def render (layout : Layout) (depth : Nat) : Value → Text
  | .null => "null"
  | .missing => "null"
  | .bool b => if b then "true" else "false"
  | .int n => Text.ofInt n
  | .float x => numberText x
  | .str t => textLiteral layout t
  | .arr items => enclosed layout (depth + 1) "[" "]" (renderItems layout (depth + 1) items)
  | .obj members =>
    enclosed layout (depth + 1) "\x7b" "\x7d" (renderMembers layout (depth + 1) members)

def renderItems (layout : Layout) (depth : Nat) : List Value → List Text
  | [] => []
  | v :: rest => render layout depth v :: renderItems layout depth rest

def renderMembers (layout : Layout) (depth : Nat) : List (Text × Value) → List Text
  | [] => []
  | (k, v) :: rest =>
    memberText layout k (render layout depth v) :: renderMembers layout depth rest
end

/-- A value on one line, members as they stand. -/
def compact (v : Value) : Text := render .compact 0 v

/-- A value on one line, members in the order of their keys. -/
def canonical (v : Value) : Text := compact v.ordered

/-- A value over several lines, in ASCII, members in the order of their
keys. -/
def indented (v : Value) : Text := render .indented 0 v.ordered

end GraphDoc.Json
