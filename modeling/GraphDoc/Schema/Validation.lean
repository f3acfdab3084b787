import GraphDoc.Schema.Table

/-!
# GraphDoc.Schema.Validation

Whether a set of tables is closed under its relations and names each thing
once.

`problems` lists every repetition of a table name, and then table by table
every repetition of a column name, every repetition of a relation name, and
every relation whose far end is not in the set.
-/

namespace GraphDoc

/-! ## repetitions -/

/-- The elements of a list that came before, in the list or in `seen`. -/
def repeatedAfter (seen : List Text) : List Text → List Text
  | [] => []
  | s :: rest =>
    if seen.contains s then s :: repeatedAfter seen rest else repeatedAfter (s :: seen) rest

/-- The elements of a list that came before. -/
def repeated (ss : List Text) : List Text := repeatedAfter [] ss

/-! ## problems -/

/-- The problems of relations: first a repeated name, then an open end; `seen`
holds the names that came before. -/
def relationProblems (table : Text) (names seen : List Text) :
    List Relation → List TableProblem
  | [] => []
  | r :: rest =>
    (if seen.contains r.field then [TableProblem.duplicateRelation table r.field] else []) ++
    (if names.contains r.target then []
      else [TableProblem.danglingRelation table r.field r.target]) ++
    relationProblems table names (r.field :: seen) rest

/-- The problems inside one table; `names` are the names of all tables. -/
def Table.problems (names : List Text) (t : Table) : List TableProblem :=
  (repeated (t.fields.map Field.name)).map (.duplicateField t.name) ++
    relationProblems t.name names [] t.relations.toList

/-- The problems of a set of tables. -/
def problems (tables : List Table) : List TableProblem :=
  let names := tables.map Table.name
  (repeated names).map .duplicateTable ++ tables.flatMap (Table.problems names)

end GraphDoc
