import GraphDoc.Document.Basic
import GraphDoc.Error

/-!
# GraphDoc.Document.Printer

The canonical text of a request document.

Selections are indented by two.  The arguments of a field stand in one line,
unless the field and its arguments pass eighty characters, indentation not
counted; then each has a line of its own.  Variables stand in one line unless
one of them breaks the line itself.  An anonymous query without variables is
only its selection.
-/

namespace GraphDoc

/-! ## layout -/

/-- Text moved two to the right. -/
def indented (t : Text) : Text :=
  "  " ++ t.flatMap fun c : CodePoint => if c = '\n' then ("\n  " : Text) else [c]

/-- Texts in a row with a separator between them; empty ones are left out. -/
def joined (separator : Text) (texts : List Text) : Text :=
  Text.separated separator (texts.filter fun t => !t.isEmpty)

/-- Text between two others; nothing around an empty text. -/
def wrapped (left t right : Text) : Text :=
  if t.isEmpty then [] else left ++ t ++ right

/-- The longest line that a field and its arguments may take. -/
def maxLine : Nat := 80

/-- A selection set around the text of its fields. -/
def selectionSet (fields : List Text) : Text :=
  let body := joined "\n" fields
  if body.isEmpty then "\x7b\x7d" else "\x7b\n" ++ indented body ++ "\n\x7d"

/-! ## fields -/

def ArgumentValue.print : ArgumentValue → Text
  | var name => "$" ++ name
  | int n => Text.ofNat n

def Argument.print (a : Argument) : Text := a.name ++ ": " ++ a.value.print

/-- The name of a field and its arguments. -/
def fieldHead (name : Text) (arguments : List Argument) : Text :=
  let texts := arguments.map Argument.print
  let line := name ++ wrapped "(" (joined ", " texts) ")"
  if maxLine < line.length then
    let body := joined "\n" texts
    name ++ wrapped "(\n" (if body.isEmpty then [] else indented body) "\n)"
  else line

mutual
def Node.print : Node → Text
  | .leaf name arguments => fieldHead name arguments
  | .branch name arguments children =>
    joined " " [fieldHead name arguments, selectionSet (Node.printAll children)]

def Node.printAll : List Node → List Text
  | [] => []
  | n :: rest => n.print :: Node.printAll rest
end

/-! ## operations -/

def TypeRef.print : TypeRef → Text
  | named name => name
  | list item => "[" ++ item.print ++ "]"
  | nonNull inner => inner.print ++ "!"

def VariableDefinition.print (d : VariableDefinition) : Text :=
  "$" ++ d.name ++ ": " ++ d.type.print

def definitionsText (definitions : List VariableDefinition) : Text :=
  let texts := definitions.map VariableDefinition.print
  if texts.any (·.contains '\n') then wrapped "(\n" (joined "\n" texts) "\n)"
  else wrapped "(" (joined ", " texts) ")"

/-- What stands before the selection of an operation. -/
def Document.head (d : Document) : Text :=
  joined " " [d.kind.text, joined [] [d.name, definitionsText d.definitions]]

def Document.text (d : Document) : Text :=
  let selection := selectionSet [d.root.print]
  if d.head = "query" then selection else d.head ++ " " ++ selection

/-! ## compiled documents -/

/-- A document with the values of its variables. -/
structure BoundDocument where
  document : Document
  values : Members
  deriving Repr

namespace BoundDocument

def operationName (c : BoundDocument) : Text := c.document.name

def text (c : BoundDocument) : Text := c.document.text

/-- The hash of the text, which must have UTF-8 bytes. -/
def digest (c : BoundDocument) : Except Error Text :=
  match c.text.utf8 with
  | .ok bytes => .ok (Sha256.digest bytes)
  | .error gap => .error (.unencodable gap)

end BoundDocument

end GraphDoc
