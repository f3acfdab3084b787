import GraphDoc.Value.Basic

/-!
# GraphDoc.Path

Dotted paths through nested members.

`below` extends a path by a name, `covers` says that a path is another one or
an ancestor of it, and `Value.at?` follows a path through members.
-/

namespace GraphDoc

/-- The path of a name below another path; the empty path is the top. -/
def below (path key : Text) : Text := if path.isEmpty then key else path ++ "." ++ key

/-- Whether a path is `other` or an ancestor of it. -/
def covers (path other : Text) : Bool :=
  path == other || (path ++ ".").isPrefixOf other

/-- The names between the dots of a path. -/
def segments (path : Text) : List Text := path.parts '.'

/-- The value behind a list of names. -/
def Value.follow? (v : Value) : List Text → Option Value
  | [] => some v
  | name :: rest =>
    match v.member? name with
    | some w => w.follow? rest
    | none => none

/-- The value at a path. -/
def Value.at? (v : Value) (path : Text) : Option Value := v.follow? (segments path)

end GraphDoc
