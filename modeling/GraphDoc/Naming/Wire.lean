import GraphDoc.Naming.Camel
import GraphDoc.Naming.Plural

/-!
# GraphDoc.Naming.Wire

The names that a table goes by in a request document: the fields that answer
its rows, and the types of its filter, its order and its inputs.

All of them come from the camel case of the table's name; the name of many
rows is the plural of the name of one row.
-/

namespace GraphDoc.Naming

/-- The field of one row: `ActionGoal` becomes `actionGoal`. -/
def singular (table : Text) : Text := camelLower table

/-- The field of many rows: `ActionGoal` becomes `actionGoals`. -/
def plural (table : Text) : Text := pluralize (camelLower table)

/-- The type of a row: `action_goal` becomes `ActionGoal`. -/
def typeName (table : Text) : Text := camel table

def orderByType (table : Text) : Text :=
  match plural table with
  | [] => "OrderBy"
  | c :: rest => Text.upperPoint c ++ rest ++ "OrderBy"

def filterType (table : Text) : Text := typeName table ++ "Filter"

def createInputType (table : Text) : Text := "Create" ++ typeName table ++ "Input"

def updateInputType (table : Text) : Text := "Update" ++ typeName table ++ "Input"

def deleteInputType (table : Text) : Text := "Delete" ++ typeName table ++ "Input"

/-- The type of a partial row. -/
def patchType (table : Text) : Text := typeName table ++ "Patch"

def mutationField (action table : Text) : Text := action ++ typeName table

/-! ## orders -/

/-- A lower-case letter or a digit, the side of a word boundary before a
capital. -/
def endsWord (c : CodePoint) : Bool := c.satisfies fun c => c.isLower || c.isDigit

/-- A capital, the other side of a word boundary. -/
def startsWord (c : CodePoint) : Bool := c.satisfies Char.isUpper

/-- Text with an underscore at every boundary between a lower-case letter or a
digit and a capital. -/
def snake : Text → Text
  | a :: b :: rest =>
    if endsWord a && startsWord b then a :: .char '_' :: snake (b :: rest)
    else a :: snake (b :: rest)
  | t => t

/-- The value that orders by a field: `createdAt` and `desc` become
`CREATED_AT_DESC`. -/
def orderWord (field direction : Text) : Text :=
  Text.upper (snake field) ++ "_" ++ Text.upper direction

end GraphDoc.Naming
