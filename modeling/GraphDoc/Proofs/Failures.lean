import GraphDoc.Document.Query
import GraphDoc.Proofs.Selection.Walk
import GraphDoc.Schema.Metadata

/-!
# GraphDoc.Proofs.Failures

Errors that a part of the library does not end with.

A part can only fail in a few ways: a value that is walked over with one misfit, a
name with the error that tells it.  So it avoids every set of `bad` errors that these
are not in, and which errors are bad is left to the one who asks.  A walk over a
selection avoids them as soon as nothing that it comes to has one of its own
(`Harmless`, `selectionNodes_avoids`).
-/

namespace GraphDoc

variable {bad : Error → Prop}

/-! ## names and values -/

/-- Checking a name ends with no other error than an invalid name. -/
theorem checkName_avoids {kind : Text} {given : Value} (h : ¬ bad (.invalidName kind given)) :
    Avoids bad (checkName kind given) := by
  unfold checkName
  split
  · split
    · exact avoids_ok _
    · exact avoids_error h
  · exact avoids_error h

/-- Looking for a member ends with no other error than its absence. -/
theorem requiredMember_avoids {key : Text} (h : ¬ bad (.misfit (.absent key))) (ms : Members) :
    Avoids bad (requiredMember ms key) := by
  unfold requiredMember
  split
  · exact avoids_ok _
  · exact avoids_error h

namespace Value

/-- Only a value without members fails to have them listed. -/
theorem members_avoids (h : ¬ bad (.misfit .noMembers)) (v : Value) : Avoids bad v.members := by
  cases v with
  | obj ms => exact avoids_ok ms
  | _ => exact avoids_error h

/-- Only a value that is no text fails to be read letter by letter. -/
theorem letters_avoids (h : ¬ bad (.misfit .noMembers)) (v : Value) : Avoids bad v.letters := by
  cases v with
  | str t => exact avoids_ok t
  | _ => exact avoids_error h

/-- Only a value without items fails to be walked over. -/
theorem walk_avoids (h : ¬ bad (.misfit .noItems)) (v : Value) : Avoids bad v.walk := by
  cases v with
  | arr items => exact avoids_ok items
  | str t => exact avoids_ok _
  | obj ms => exact avoids_ok _
  | _ => exact avoids_error h

theorem toKey_avoids (h : ¬ bad (.misfit .noItems)) (v : Value) : Avoids bad v.toKey := by
  unfold toKey
  split
  · exact avoids_ok _
  · exact avoids_error h

end Value

/-! ## the walk over a selection -/

section

variable {registry : Registry} {tables : List Table} {table : Table}

/-- A selection of nothing is the only one that is refused as empty. -/
theorem nonemptyNodes_avoids (h : ¬ bad (.selection (.empty table.name))) (nodes : List Node) :
    Avoids bad (nonemptyNodes table nodes) := by
  intro e he
  rw [(nonemptyNodes_eq_error.1 he).2]
  exact h

/-- Requesting a field ends with no other error than a type without parts. -/
theorem fieldNode_avoids {name : Text} {f : Field}
    (h : ¬ bad (.unsupportedType name f.name f.wireType)) :
    Avoids bad (fieldNode registry name f) := by
  intro e he
  rw [(fieldNode_eq_error.1 he).2.2]
  exact h

/-- A column is refused if it is not there, is asked for more than itself, or has a type
without parts. -/
theorem columnNode_avoids {key : Key} (habsent : ¬ bad (.unknownField table.name key))
    (hnested : ¬ bad (.notARelation table.name key.text))
    (htype : ∀ f ∈ table.fields, ¬ bad (.unsupportedType table.name f.name f.wireType))
    (s : Selection) : Avoids bad (columnNode registry table key s) := by
  unfold columnNode
  cases hf : table.fieldOf? key with
  | none => exact avoids_error habsent
  | some f =>
      cases s with
      | leaf => exact fieldNode_avoids (htype f (Table.mem_of_fieldOf? hf).1)
      | _ => exact avoids_error hnested

/-- A walk on a table with what is selected of it, as far as `Reached` tells, has no
`bad` error of its own, and goes on to where `Reached` leads. -/
structure Harmless (bad : Error → Prop) (tables : List Table)
    (Reached : Table → Option Spec → Prop) : Prop where
  empty : ∀ {table spec}, Reached table spec → ¬ bad (.selection (.empty table.name))
  unsupported : ∀ {table spec}, Reached table spec → ∀ f ∈ table.fields,
    ¬ bad (.unsupportedType table.name f.name f.wireType)
  unknown : ∀ {table entries}, Reached table (some entries) → ∀ e ∈ entries,
    ¬ bad (.unknownField table.name e.1)
  nested : ∀ {table entries}, Reached table (some entries) → ∀ e ∈ entries,
    ¬ bad (.notARelation table.name e.1.text)
  dangling : ∀ {table entries}, Reached table (some entries) → ∀ r ∈ table.relations.toList,
    Avoids bad (r.resolve table tables)
  next : ∀ {table related entries r} {e : Key × Selection}, Reached table (some entries) →
    e ∈ entries → table.relationOf? e.1 = some r → r.resolve table tables = .ok related →
      Reached related e.2.inner

/-- A walk without `bad` errors on the way avoids them, however deep it goes. -/
theorem selectionNodes_avoids {Reached : Table → Option Spec → Prop}
    (h : Harmless bad tables Reached) {spec : Option Spec} (hreached : Reached table spec) :
    Avoids bad (selectionNodes registry tables false table spec) := by
  induction spec using Spec.induction_on generalizing table with
  | absent =>
      rw [selectionNodes_none]
      refine (Avoids.mapM fun f hf => ?_).bind fun nodes _ =>
        nonemptyNodes_avoids (h.empty hreached) nodes
      exact fieldNode_avoids (h.unsupported hreached f (Table.mem_plainFields.1 hf).1)
  | given entries ih =>
      rw [selectionNodes_some]
      refine (Avoids.mapM fun e he => ?_).bind fun nodes _ =>
        nonemptyNodes_avoids (h.empty hreached) nodes
      cases hr : table.relationOf? e.1 with
      | none =>
          simp only [entryNode, hr]
          exact columnNode_avoids (h.unknown hreached e he) (h.nested hreached e he)
            (h.unsupported hreached) e.2
      | some r =>
          simp only [entryNode, hr]
          refine (h.dangling hreached r (Table.mem_of_relationOf? hr).1).bind fun related hfar => ?_
          exact (ih e he (h.next hreached he hr hfar)).bind fun nodes _ => avoids_ok _

end

/-! ## options and queries -/

namespace RowOptions

/-- Options are refused for a cursor beside an offset, or for what is no count. -/
theorem check_avoids (hcursor : ¬ bad (.options .offsetWithCursor))
    (hcount : ∀ (option : String) given, ¬ bad (.options (.notACount option given)))
    (o : RowOptions) : Avoids bad o.check := by
  unfold check
  split
  · exact avoids_error hcursor
  · split
    · exact avoids_error (hcount "limit" _)
    · split
      · exact avoids_error (hcount "offset" _)
      · exact avoids_ok ()

/-- The one entry that cannot be written is one whose field is no text. -/
theorem orderWords_avoids (h : ¬ bad (.misfit .noItems)) (o : RowOptions) :
    Avoids bad o.orderWords := by
  refine Avoids.mapM fun entry _ => ?_
  cases entry with
  | verbatim word => exact avoids_ok _
  | byField field direction =>
      refine Avoids.map ?_ Value.str
      cases field with
      | str name => exact (avoids_ok direction).map (Naming.orderWord name)
      | _ => exact avoids_error h

end RowOptions

section

variable {registry : Registry} {tables : List Table} {table : Table} {spec : Option Spec}

/-- A query ends with no other error than its options, its rows and its order. -/
theorem rowsQuery_avoids {o : RowOptions} (hcheck : Avoids bad o.check)
    (hnodes : Avoids bad (selectionNodes registry tables false table spec))
    (hwords : Avoids bad o.orderWords) :
    Avoids bad (rowsQuery registry tables table spec o) := by
  refine hcheck.bind fun _ _ => hnodes.bind fun rows _ => ?_
  exact (hwords.bind fun _ _ => avoids_ok _).bind fun bindings _ => avoids_ok _

/-- A find-one ends with no other error than its key and its row. -/
theorem rowQuery_avoids {keyField keyType : Value}
    (hfield : Avoids bad (checkName "field" keyField))
    (htype : Avoids bad (checkName "type" keyType))
    (hnodes : Avoids bad (selectionNodes registry tables false table spec)) (keyValue : Value) :
    Avoids bad (rowQuery registry tables table spec keyField keyType keyValue) :=
  hfield.bind fun _ _ => htype.bind fun _ _ => hnodes.bind fun _ _ => avoids_ok _

end

end GraphDoc
