import GraphDoc.Error
import GraphDoc.Naming.Wire

/-!
# GraphDoc.Naming.Asked

The names of a table that may have no name at all.

Every table that passed its check has a name, and the functions of
`GraphDoc.Naming.Wire` give an answer for each text.  Asked of an empty text,
the names that begin with the lower-case first letter do not exist.
-/

namespace GraphDoc.Naming

/-- A name that begins with the first letter of the table's name. -/
def asked (form : Text → Text) (table : Text) : Except Error Text :=
  if table.isEmpty then .error (.misfit .noCharacter) else .ok (form table)

/-- The field of one row. -/
def askedSingular (table : Text) : Except Error Text := asked singular table

/-- The field of many rows. -/
def askedPlural (table : Text) : Except Error Text := asked plural table

/-- The type of the orders on a table. -/
def askedOrderByType (table : Text) : Except Error Text := asked orderByType table

end GraphDoc.Naming
