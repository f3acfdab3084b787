import GraphDoc.Schema.Relation

/-!
# GraphDoc.Schema.Table

Tables: columns and relations under a name.

A relation may have the name of a column; it then shadows the column, and
`Table.plainFields` are the columns that no relation shadows.  Every question
whether a name is a relation goes through `Table.relation?`.
-/

namespace GraphDoc

structure Table where
  name : Text
  fields : List Field := []
  relations : Relations := {}
  deriving DecidableEq, Repr

namespace Table

/-- A table with a checked name. -/
def make (name : Value) (fields : List Field) (relations : Relations) : Except Error Table := do
  let name ← checkName "table" name
  return { name, fields, relations }

/-- All names of a table have passed the check. -/
def Checked (t : Table) : Prop :=
  Name.accepted t.name = true ∧ (∀ f ∈ t.fields, f.Checked) ∧ ∀ r ∈ t.relations.toList, r.Checked

instance (t : Table) : Decidable t.Checked :=
  inferInstanceAs (Decidable (Name.accepted t.name = true ∧ (∀ f ∈ t.fields, f.Checked) ∧
    ∀ r ∈ t.relations.toList, r.Checked))

/-! ## lookups -/

def field? (t : Table) (name : Text) : Option Field := t.fields.find? fun f => f.name == name

def relation? (t : Table) (name : Text) : Option Relation :=
  t.relations.toList.find? fun r => r.field == name

def isRelation (t : Table) (name : Text) : Bool := (t.relation? name).isSome

/-- The columns that no relation shadows. -/
def plainFields (t : Table) : List Field := t.fields.filter fun f => !t.isRelation f.name

/-- The names of the columns that no relation shadows. -/
def plainNames (t : Table) : List Text := t.plainFields.map Field.name

/-- The column that a caller names. -/
def fieldOf? (t : Table) (key : Key) : Option Field := key.name?.bind t.field?

/-- The relation that a caller names. -/
def relationOf? (t : Table) (key : Key) : Option Relation := key.name?.bind t.relation?

/-- A field that is found is one of the table, under its own name. -/
theorem mem_of_field? {t : Table} {name : Text} {f : Field} (h : t.field? name = some f) :
    f ∈ t.fields ∧ f.name = name :=
  ⟨List.mem_of_find?_eq_some h, by simpa using List.find?_some h⟩

/-- A relation that is found is one of the table, under its own name. -/
theorem mem_of_relation? {t : Table} {name : Text} {r : Relation}
    (h : t.relation? name = some r) : r ∈ t.relations.toList ∧ r.field = name :=
  ⟨List.mem_of_find?_eq_some h, by simpa using List.find?_some h⟩

/-- A key that finds a field is the name of it. -/
theorem mem_of_fieldOf? {t : Table} {key : Key} {f : Field} (h : t.fieldOf? key = some f) :
    f ∈ t.fields ∧ key = .name f.name := by
  obtain ⟨name, hkey, hf⟩ := Option.bind_eq_some_iff.1 h
  obtain ⟨hmem, hname⟩ := mem_of_field? hf
  cases key with
  | name t =>
      obtain rfl : t = name := by simpa [Key.name?] using hkey
      exact ⟨hmem, by rw [hname]⟩
  | stray v => simp [Key.name?] at hkey

/-- A key that finds a relation is the name of it. -/
theorem mem_of_relationOf? {t : Table} {key : Key} {r : Relation}
    (h : t.relationOf? key = some r) : r ∈ t.relations.toList ∧ key = .name r.field := by
  obtain ⟨name, hkey, hr⟩ := Option.bind_eq_some_iff.1 h
  obtain ⟨hmem, hname⟩ := mem_of_relation? hr
  cases key with
  | name t =>
      obtain rfl : t = name := by simpa [Key.name?] using hkey
      exact ⟨hmem, by rw [hname]⟩
  | stray v => simp [Key.name?] at hkey

/-- The plain fields are those that no relation shadows. -/
theorem mem_plainFields {t : Table} {f : Field} :
    f ∈ t.plainFields ↔ f ∈ t.fields ∧ t.isRelation f.name = false := by
  simp [plainFields]

end Table

/-! ## sets of tables -/

/-- The first table of a name. -/
def tableNamed? (tables : List Table) (name : Text) : Option Table :=
  tables.find? fun t => t.name == name

/-- The table at the far end of a relation. -/
def Relation.resolve (table : Table) (relation : Relation) (tables : List Table) :
    Except Error Table :=
  match tableNamed? tables relation.target with
  | some related => .ok related
  | none => .error (.unknownRelatedTable table.name relation.field relation.target)

/-- The table that a request names. -/
def tableNamed (tables : List Table) (given : Key) : Except Error Table :=
  match given.name?.bind (tableNamed? tables) with
  | some table => .ok table
  | none =>
    let names := tables.map fun t => (t.name, ())
    .error (.unknownTable given (Assoc.keys (Assoc.sorted (fun a b => a < b) names)))

/-- A relation leads to the table that has the name of its target. -/
theorem Relation.resolve_eq_ok {table related : Table} {r : Relation} {tables : List Table} :
    r.resolve table tables = .ok related ↔ tableNamed? tables r.target = some related := by
  unfold Relation.resolve
  cases tableNamed? tables r.target <;> simp

/-- A table that is found is one of the tables, under its own name. -/
theorem mem_of_tableNamed? {tables : List Table} {name : Text} {t : Table}
    (h : tableNamed? tables name = some t) : t ∈ tables ∧ t.name = name :=
  ⟨List.mem_of_find?_eq_some h, by simpa using List.find?_some h⟩

end GraphDoc
