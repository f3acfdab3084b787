import GraphDoc.Text.Case

/-!
# GraphDoc.Naming.Camel

Camel case.  The first code point and every code point behind an underscore go
to upper case and that underscore disappears; a line feed never takes part.
`camelLower` starts with the lower-case counterpart of the first code point of
the text instead.
-/

namespace GraphDoc.Naming

/-- The text behind the first code point. -/
def camelTail : Text → Text
  | [] => []
  | [c] => [c]
  | .char '_' :: c :: rest =>
    if c = '\n' then .char '_' :: camelTail (c :: rest) else Text.upperPoint c ++ camelTail rest
  | c :: rest => c :: camelTail rest

/-- Text in camel case, the first code point upper case. -/
def camel : Text → Text
  | [] => []
  | c :: rest => if c = '\n' then c :: camelTail rest else Text.upperPoint c ++ camelTail rest

/-- Text in camel case, the first code point lower case. -/
def camelLower : Text → Text
  | [] => []
  | c :: rest => Text.lowerPoint c ++ (camel (c :: rest)).tail

end GraphDoc.Naming
