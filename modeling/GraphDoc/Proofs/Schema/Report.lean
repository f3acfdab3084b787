import GraphDoc.Proofs.Schema.Consistency
import Mathlib.Data.List.Count
import Mathlib.Data.List.Infix

/-!
# GraphDoc.Proofs.Schema.Report

What is reported of a set of tables, problem by problem.

Each element of a list is looked at with those that stand before it (`occurrences`).  A
name is reported at each of its places but the first (`recurrences`), so one time less
than it stands there (`count_recurrences`); a relation is reported for its name and for
its far end, each on its own (`relationFaults`).  Nothing else is reported, and in this
order (`problems_reported`).
-/

namespace GraphDoc

variable {α β : Type}

/-! ## elements with those before them -/

/-- The elements of a list, each with those that stand before it. -/
def occurrences (xs : List α) : List (List α × α) := xs.inits.zip xs

/-- Behind the first element every other one has it among those before. -/
theorem occurrences_cons (x : α) (xs : List α) :
    occurrences (x :: xs) = ([], x) :: (occurrences xs).map fun o => (x :: o.1, o.2) := by
  simp [occurrences, List.zip_map_left, Prod.map]

/-- The occurrences in a list are its elements, in order. -/
theorem map_snd_occurrences (xs : List α) : (occurrences xs).map Prod.snd = xs := by
  induction xs with
  | nil => rfl
  | cons x xs ih => simp [occurrences_cons, Function.comp_def, ih]

/-- Occurrences are mapped with what stands before them. -/
theorem occurrences_map (f : α → β) (xs : List α) :
    occurrences (xs.map f) = (occurrences xs).map fun o => (o.1.map f, f o.2) := by
  induction xs with
  | nil => rfl
  | cons x xs ih => simp [occurrences_cons, Function.comp_def, ih]

/-! ## names -/

/-- The names of a list that stand behind the same name, once for each place. -/
def recurrences (names : List Text) : List Text :=
  (occurrences names).flatMap fun o => if o.2 ∈ o.1 then [o.2] else []

/-- A text is repeated where it occurs again, or was seen before. -/
theorem repeatedAfter_eq (seen names : List Text) :
    repeatedAfter seen names =
      (occurrences names).flatMap fun o => if o.2 ∈ o.1 ++ seen then [o.2] else [] := by
  induction names generalizing seen with
  | nil => rfl
  | cons s rest ih =>
      rw [occurrences_cons, List.flatMap_cons, List.flatMap_map]
      have hmem : ∀ (o : List Text × Text) (more : List Text), (∀ t, t ∈ more ↔ t = s ∨ t ∈ seen) →
          (o.2 ∈ o.1 ++ more ↔ o.2 ∈ s :: o.1 ++ seen) := by
        intro o more hmore
        simp [hmore]
        tauto
      by_cases hs : s ∈ seen
      · have hmore : ∀ t, t ∈ seen ↔ t = s ∨ t ∈ seen := by grind
        simp only [repeatedAfter, List.contains_iff_mem, hs, if_true, ih, hmem _ seen hmore]
        simp [hs]
      · simp only [repeatedAfter, List.contains_iff_mem, hs, if_false, ih,
          hmem _ (s :: seen) (fun _ => List.mem_cons)]
        simp [hs]

/-- What is told as repeated is what stands behind itself. -/
theorem repeated_eq (names : List Text) : repeated names = recurrences names := by
  simp [repeated, repeatedAfter_eq, recurrences]

/-- A name recurs as often as it stands in the list, but for its first place. -/
theorem count_recurrences (names : List Text) (name : Text) :
    (recurrences names).count name = names.count name - 1 := by
  have hseen : ∀ seen : List Text, (repeatedAfter seen names).count name =
      names.count name - if name ∈ seen then 0 else 1 := by
    induction names with
    | nil => simp [repeatedAfter]
    | cons s rest ih =>
        intro seen
        by_cases hname : s = name
        · subst hname
          by_cases hs : s ∈ seen <;> simp [repeatedAfter, hs, ih]
        · by_cases hs : s ∈ seen <;> simp [repeatedAfter, hs, ih, hname, Ne.symm hname]
  rw [← repeated_eq, repeated, hseen]
  simp

/-! ## relations -/

/-- What is wrong with a relation of a table behind others: it has the name of one of
them, or it leads out of the set. -/
def relationFaults (table : Text) (names earlier : List Text) (r : Relation) :
    List TableProblem :=
  (if r.field ∈ earlier then [.duplicateRelation table r.field] else []) ++
    if r.target ∈ names then [] else [.danglingRelation table r.field r.target]

/-- The problems of relations are the faults of each of them, seen behind those before
it. -/
theorem relationProblems_eq (table : Text) (names seen : List Text) (rs : List Relation) :
    relationProblems table names seen rs = (occurrences rs).flatMap fun o =>
      relationFaults table names (o.1.map Relation.field ++ seen) o.2 := by
  induction rs generalizing seen with
  | nil => rfl
  | cons r rest ih =>
      rw [relationProblems, ih, occurrences_cons, List.flatMap_cons, List.flatMap_map]
      congr 1
      · simp [relationFaults]
      · refine List.flatMap_congr fun o _ => ?_
        have hmem : ∀ name, name ∈ o.1.map Relation.field ++ r.field :: seen ↔
            name ∈ (r :: o.1).map Relation.field ++ seen := by grind
        simp only [relationFaults, hmem]

/-! ## how often each problem is reported -/

section

variable {table name target : Text} {names earlier : List Text} {r : Relation}

/-- No fault of a relation is a repeated field. -/
theorem duplicateField_notMem_relationFaults :
    TableProblem.duplicateField table name ∉ relationFaults table names earlier r := by
  simp [relationFaults]

/-- A relation is at fault once for its name, if one before it has that name. -/
theorem count_duplicateRelation :
    (relationFaults table names earlier r).count (.duplicateRelation table name) =
      (if r.field ∈ earlier then [r.field] else []).count name := by
  by_cases hagain : r.field ∈ earlier <;> by_cases hopen : r.target ∈ names <;>
    simp [relationFaults, hagain, hopen, List.count_cons]

/-- A relation is at fault once for its target, if no table has that name. -/
theorem count_danglingRelation :
    (relationFaults table names earlier r).count (.danglingRelation table name target) =
      [r].countP fun r => target ∉ names ∧ r.field = name ∧ r.target = target := by
  by_cases hagain : r.field ∈ earlier <;> by_cases hopen : r.target ∈ names <;>
    simp [relationFaults, hagain, hopen, List.count_cons, List.countP_cons] <;> grind

end

/-- How often each problem inside a table is reported. -/
structure Table.Reported (names : List Text) (t : Table) : Prop where
  field : ∀ name, (t.problems names).count (.duplicateField t.name name) =
    (t.fields.map Field.name).count name - 1
  relation : ∀ name, (t.problems names).count (.duplicateRelation t.name name) =
    (t.relations.toList.map Relation.field).count name - 1
  target : ∀ name target, (t.problems names).count (.danglingRelation t.name name target) =
    t.relations.toList.countP fun r => target ∉ names ∧ r.field = name ∧ r.target = target

/-- A table reports its repeated fields and then the faults of its relations, in order.
-/
theorem Table.problems_eq (names : List Text) (t : Table) :
    t.problems names = (recurrences (t.fields.map Field.name)).map (.duplicateField t.name) ++
      (occurrences t.relations.toList).flatMap fun o =>
        relationFaults t.name names (o.1.map Relation.field) o.2 := by
  simp only [Table.problems, repeated_eq, relationProblems_eq, List.append_nil]

/-- A name is reported each time it occurs again, and a relation each time its target is
not there. -/
theorem Table.reported (names : List Text) (t : Table) : t.Reported names where
  field name := by
    have hrelations : TableProblem.duplicateField t.name name ∉
        (occurrences t.relations.toList).flatMap fun o =>
          relationFaults t.name names (o.1.map Relation.field) o.2 := by
      simp [List.mem_flatMap, duplicateField_notMem_relationFaults]
    have hinjective : Function.Injective (TableProblem.duplicateField t.name) :=
      fun _ _ h => by injection h
    rw [t.problems_eq, List.count_append, List.count_eq_zero_of_not_mem hrelations,
      List.count_map_of_injective _ _ hinjective, count_recurrences, Nat.add_zero]
  relation name := by
    have hfields : TableProblem.duplicateRelation t.name name ∉
        (recurrences (t.fields.map Field.name)).map (.duplicateField t.name) := by
      simp
    rw [t.problems_eq, List.count_append, List.count_eq_zero_of_not_mem hfields,
      ← count_recurrences, recurrences, occurrences_map, List.flatMap_map, List.count_flatMap,
      List.count_flatMap, Nat.zero_add]
    congr 2
    funext o
    exact count_duplicateRelation
  target name target := by
    have hfields : TableProblem.danglingRelation t.name name target ∉
        (recurrences (t.fields.map Field.name)).map (.duplicateField t.name) := by
      simp
    rw [t.problems_eq, List.count_append, List.count_eq_zero_of_not_mem hfields, Nat.zero_add,
      List.count_flatMap]
    conv_rhs => rw [← map_snd_occurrences t.relations.toList, List.map_eq_flatMap,
      List.countP_flatMap]
    congr 2
    funext o
    exact count_danglingRelation

/-! ## the report -/

/-- **The report on a set of tables**: nothing is reported exactly of a consistent set.
Otherwise each place of a table's name but the first is reported, and then table by
table each place of a column's name but the first, and of each relation in turn whether
its name stood before and whether it leads out of the set.  So a name is reported one
time less than it stands there, and an open end each time. -/
theorem problems_reported (tables : List Table) :
    (problems tables = [] ↔ Consistent tables) ∧
    problems tables = (recurrences (tables.map Table.name)).map .duplicateTable ++
      (tables.flatMap fun t =>
        (recurrences (t.fields.map Field.name)).map (.duplicateField t.name) ++
        (occurrences t.relations.toList).flatMap fun o =>
          relationFaults t.name (tables.map Table.name) (o.1.map Relation.field) o.2) ∧
    (∀ name, (problems tables).count (.duplicateTable name) =
      (tables.map Table.name).count name - 1) ∧
    ∀ t : Table, t.Reported (tables.map Table.name) := by
  have hproblems : problems tables = (recurrences (tables.map Table.name)).map .duplicateTable ++
      tables.flatMap (Table.problems (tables.map Table.name)) := by
    rw [problems, repeated_eq]
  refine ⟨problems_eq_nil_iff, ?_, fun name => ?_, Table.reported _⟩
  · rw [hproblems]
    exact congrArg _ (List.flatMap_congr fun t _ => t.problems_eq _)
  · have hinside : TableProblem.duplicateTable name ∉
        tables.flatMap (Table.problems (tables.map Table.name)) := by
      simp [List.mem_flatMap, Table.problems_eq, relationFaults]
    have hinjective : Function.Injective TableProblem.duplicateTable :=
      fun _ _ h => by injection h
    rw [hproblems, List.count_append, List.count_eq_zero_of_not_mem hinside,
      List.count_map_of_injective _ _ hinjective, count_recurrences, Nat.add_zero]

end GraphDoc
