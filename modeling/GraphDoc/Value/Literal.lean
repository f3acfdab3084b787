import GraphDoc.Number.Shortest
import GraphDoc.Text.Quoted
import GraphDoc.Value.Basic

/-!
# GraphDoc.Value.Literal

Values as messages show them.  `Value.literal` is the value as a literal:
`None`, `True`, `1.0`, `'text'`, `['a', 2]`, and members as `'key': value`
between braces.  `Value.text` is the same, except that a text stands for
itself, without quotes.
-/

namespace GraphDoc

def Binary64.literal (x : Binary64) : Text := x.text "inf" "nan"

/-- Literals in brackets. -/
def bracketed (literals : List Text) : Text := "[" ++ Text.separated ", " literals ++ "]"

namespace Value

mutual
def literal : Value → Text
  | null => "None"
  | missing => "MISSING"
  | bool b => if b then "True" else "False"
  | int n => Text.ofInt n
  | float x => x.literal
  | str t => Text.quoted t
  | arr items => bracketed (itemLiterals items)
  | obj members => "\x7b" ++ Text.separated ", " (memberLiterals members) ++ "\x7d"

def itemLiterals : List Value → List Text
  | [] => []
  | v :: rest => literal v :: itemLiterals rest

def memberLiterals : List (Text × Value) → List Text
  | [] => []
  | (k, v) :: rest => (Text.quoted k ++ ": " ++ literal v) :: memberLiterals rest
end

/-- A value inside a sentence: a text as it is, anything else as a literal. -/
def text : Value → Text
  | str t => t
  | v => v.literal

end Value

def textsLiteral (ts : List Text) : Text := bracketed (ts.map Text.quoted)

end GraphDoc
