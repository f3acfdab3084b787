import GraphDoc.Proofs.Options.Rows
import GraphDoc.Proofs.Selection.Walk

/-!
# GraphDoc.Proofs.Selection.Grammar

Which values are selections, and what is said of the others.

The grammar of selections (`Value.IsSelection`) is told without reading anything.
A value that is not in it has a first entry at fault, in the order in which a reader
comes to the entries (`Value.entriesAt`): one whose name does not pass the check, or
whose value asks for nothing (`Value.Entry.Fault`).  A value is read exactly if it is
in the grammar, and otherwise its first fault is the error (`selections_recognized`).
-/

namespace GraphDoc

namespace Value

/-! ## the grammar -/

mutual
/-- A selection: nothing, or an object whose names pass the check and whose values
ask for something. -/
inductive IsSelection : Value → Prop where
  | absent : IsSelection .null
  | entries {ms : Members} (names : ∀ m ∈ ms, Name.accepted m.1 = true)
      (values : ∀ m ∈ ms, IsAsked m.2) : IsSelection (.obj ms)

/-- What may stand under a name: a flag, or an object with a selection as its one
member `select`. -/
inductive IsAsked : Value → Prop where
  | flag (b : Bool) : IsAsked (.bool b)
  | select {inner : Value} (selection : IsSelection inner) : IsAsked (.obj [("select", inner)])
end

/-! ## entries in the order of the document -/

/-- An entry of a selection: its path, its name and its value. -/
structure Entry where
  path : Text
  name : Text
  value : Value

mutual
/-- The entries of a selection at `path`, each before those that are selected below
it. -/
def entriesAt (path : Text) : Value → List Entry
  | obj ms => memberEntries path ms
  | _ => []

/-- The entries that some members are, and those below each of them. -/
def memberEntries (path : Text) : List (Text × Value) → List Entry
  | [] => []
  | (name, v) :: rest =>
    ⟨below path name, name, v⟩ ::
      (selectedEntries (below path name) v ++ memberEntries path rest)

/-- The entries of the selection that stands under a name. -/
def selectedEntries (path : Text) : Value → List Entry
  | obj [(key, inner)] => if key = "select" then entriesAt path inner else []
  | _ => []
end

/-! ## faults -/

/-- What is wrong with an entry, apart from the entries below it.  The name counts
before the value. -/
inductive Entry.Fault : Entry → Error → Prop where
  | name {path name : Text} {v : Value} (refused : Name.accepted name = false) :
      Fault ⟨path, name, v⟩ (.invalidName "field" (.str name))
  | value {path name : Text} {v : Value} (accepted : Name.accepted name = true)
      (noFlag : ∀ b, v ≠ .bool b) (noSelect : ∀ inner, v ≠ .obj [("select", inner)]) :
      Fault ⟨path, name, v⟩ (.selection (.entry path v))
  | selection {path name : Text} {inner : Value} (accepted : Name.accepted name = true)
      (noRecord : ¬ inner.IsRecord) :
      Fault ⟨path, name, .obj [("select", inner)]⟩ (.selection (.noMapping path inner))

/-- The first entry at fault, with what is wrong with it. -/
def FirstFault (entries : List Entry) (e : Error) : Prop :=
  ∃ before entry behind, entries = before ++ entry :: behind ∧
    (∀ x ∈ before, ∀ e, ¬ x.Fault e) ∧ entry.Fault e

section

variable {path name : Text} {v inner : Value} {entry : Entry} {entries others : List Entry}
  {e : Error}

/-- An entry under a name that is refused is at fault for the name alone. -/
theorem Entry.fault_iff_of_refused (h : Name.accepted name = false) :
    Entry.Fault ⟨path, name, v⟩ e ↔ e = .invalidName "field" (.str name) := by
  constructor
  · intro hfault
    cases hfault with
    | name => rfl
    | value accepted => simp [h] at accepted
    | selection accepted => simp [h] at accepted
  · rintro rfl
    exact .name h

/-- An entry with a flag is never at fault under a good name. -/
theorem Entry.not_fault_flag (h : Name.accepted name = true) (b : Bool) :
    ¬ Entry.Fault ⟨path, name, .bool b⟩ e := by
  intro hfault
  cases hfault with
  | name refused => simp [h] at refused
  | value _ noFlag => exact noFlag b rfl

/-- An entry with a selection is at fault if the selection is no record. -/
theorem Entry.fault_select_iff (h : Name.accepted name = true) :
    Entry.Fault ⟨path, name, .obj [("select", inner)]⟩ e ↔
      ¬ inner.IsRecord ∧ e = .selection (.noMapping path inner) := by
  constructor
  · intro hfault
    cases hfault with
    | name refused => simp [h] at refused
    | value _ _ noSelect => exact absurd rfl (noSelect inner)
    | selection _ noRecord => exact ⟨noRecord, rfl⟩
  · rintro ⟨noRecord, rfl⟩
    exact .selection h noRecord

/-- An entry with any other value is at fault for it. -/
theorem Entry.fault_value_iff (h : Name.accepted name = true) (noFlag : ∀ b, v ≠ .bool b)
    (noSelect : ∀ inner, v ≠ .obj [("select", inner)]) :
    Entry.Fault ⟨path, name, v⟩ e ↔ e = .selection (.entry path v) := by
  constructor
  · intro hfault
    cases hfault with
    | name refused => simp [h] at refused
    | value => rfl
    | selection => exact absurd rfl (noSelect _)
  · rintro rfl
    exact .value h noFlag noSelect

/-- Among no entries none is at fault. -/
theorem not_firstFault_nil : ¬ FirstFault [] e := by
  rintro ⟨before, entry, behind, h, _⟩
  simp at h

/-- The first fault is that of the first entry, or the first behind an entry without
fault. -/
theorem firstFault_cons :
    FirstFault (entry :: entries) e ↔
      entry.Fault e ∨ (∀ e, ¬ entry.Fault e) ∧ FirstFault entries e := by
  constructor
  · rintro ⟨before, x, behind, hsplit, hbefore, hx⟩
    cases before with
    | nil =>
        obtain ⟨rfl, rfl⟩ := List.cons.inj hsplit
        exact .inl hx
    | cons y before =>
        obtain ⟨rfl, rfl⟩ := List.cons.inj hsplit
        rw [List.forall_mem_cons] at hbefore
        exact .inr ⟨hbefore.1, before, x, behind, rfl, hbefore.2, hx⟩
  · rintro (hentry | ⟨hentry, before, x, behind, rfl, hbefore, hx⟩)
    · exact ⟨[], entry, entries, rfl, fun _ h => absurd h List.not_mem_nil, hentry⟩
    · refine ⟨entry :: before, x, behind, rfl, ?_, hx⟩
      rw [List.forall_mem_cons]
      exact ⟨hentry, hbefore⟩

/-- The first fault is in the first part, or in the second if the first has none. -/
theorem firstFault_append :
    FirstFault (entries ++ others) e ↔
      FirstFault entries e ∨ (∀ x ∈ entries, ∀ e, ¬ x.Fault e) ∧ FirstFault others e := by
  induction entries with
  | nil => simp [not_firstFault_nil]
  | cons entry entries ih =>
      rw [List.cons_append, firstFault_cons, firstFault_cons, ih, List.forall_mem_cons]
      tauto

/-- Where nothing is at fault, no first entry is. -/
theorem exists_firstFault_iff :
    (∃ e, FirstFault entries e) ↔ ∃ x ∈ entries, ∃ e, x.Fault e := by
  induction entries with
  | nil => simp [not_firstFault_nil]
  | cons entry entries ih =>
      simp only [firstFault_cons, exists_or, exists_and_left, ih, List.exists_mem_cons_iff]
      by_cases hentry : ∃ e, entry.Fault e
      · simp [hentry]
      · simp only [hentry, false_or]
        exact and_iff_right (not_exists.1 hentry)

end

end Value

namespace Spec

open Value

variable {path name : Text} {v : Value} {e : Error}

/-! ## reading without a refusal -/

/-- A value that is neither a flag nor a selection asks for nothing. -/
theorem ofEntry_eq_error (noFlag : ∀ b, v ≠ .bool b)
    (noSelect : ∀ inner, v ≠ .obj [("select", inner)]) :
    ofEntry path v = .error (.selection (.entry path v)) := by
  unfold ofEntry
  split
  · exact absurd rfl (noFlag _)
  · next key inner =>
      by_cases hkey : key = "select"
      · exact absurd (by rw [hkey]) (noSelect inner)
      · rw [if_neg hkey]
  · rfl

/-- The value under `select` is read as a selection. -/
theorem ofEntry_select (inner : Value) :
    ofEntry path (.obj [("select", inner)]) = ofSelect path inner := by
  rw [ofEntry, if_pos rfl]

theorem selectedEntries_select (inner : Value) :
    selectedEntries path (.obj [("select", inner)]) = entriesAt path inner := by
  rw [selectedEntries, if_pos rfl]

/-- Nothing is selected below an entry without `select`. -/
theorem selectedEntries_eq_nil (noSelect : ∀ inner, v ≠ .obj [("select", inner)]) :
    selectedEntries path v = [] := by
  unfold selectedEntries
  split
  · next key inner =>
      by_cases hkey : key = "select"
      · exact absurd (by rw [hkey]) (noSelect inner)
      · rw [if_neg hkey]
  · rfl

/-- A value is a flag, holds a selection, or is neither. -/
theorem asked_cases (v : Value) :
    (∃ b, v = .bool b) ∨ (∃ inner, v = .obj [("select", inner)]) ∨
      (∀ b, v ≠ .bool b) ∧ ∀ inner, v ≠ .obj [("select", inner)] := by
  by_cases hflag : ∃ b, v = .bool b
  · exact .inl hflag
  · by_cases hselect : ∃ inner, v = .obj [("select", inner)]
    · exact .inr (.inl hselect)
    · exact .inr (.inr ⟨not_exists.1 hflag, not_exists.1 hselect⟩)

/-- A name that does not pass the check is the first thing that is said of members. -/
theorem ofMembers_cons_of_refused {rest : Members} (h : Name.accepted name = false) :
    ofMembers path ((name, v) :: rest) = .error (.invalidName "field" (.str name)) := by
  have hname : checkName "field" (.str name) = .error (.invalidName "field" (.str name)) := by
    rw [checkName, h]
    rfl
  rw [ofMembers, hname]
  rfl

/-- Under a good name the first member is read before the others. -/
theorem ofMembers_cons_of_accepted {rest : Members} (h : Name.accepted name = true) :
    ofMembers path ((name, v) :: rest) = (do
      let first ← ofEntry (below path name) v
      let others ← ofMembers path rest
      return first.toList.map (fun s => (Key.name name, s)) ++ others) := by
  have hname : checkName "field" (.str name) = .ok name := checkName_eq_ok_iff.2 ⟨rfl, h⟩
  have hbind : ∀ f : Text → Except Error Spec, (.ok name >>= f) = f name := fun _ => rfl
  rw [ofMembers, hname, hbind]
  refine bind_congr fun first => ?_
  cases first <;> rfl

/-- A selection that is no record is refused. -/
theorem ofSelect_eq_error (h : ¬ v.IsRecord) :
    ofSelect path v = .error (.selection (.noMapping path v)) := by
  unfold ofSelect
  split
  · exact absurd .absent h
  · exact absurd (.members _) h
  · rfl

/-- Every selection is a record. -/
theorem isRecord_of_isSelection (h : IsSelection v) : v.IsRecord := by
  cases h with
  | absent => exact .absent
  | entries => exact .members _

mutual
/-- Members are read if their names pass the check and their values ask for
something. -/
theorem exists_ofMembers_iff (path : Text) (ms : Members) :
    (∃ entries, ofMembers path ms = .ok entries) ↔
      (∀ m ∈ ms, Name.accepted m.1 = true) ∧ ∀ m ∈ ms, IsAsked m.2 := by
  match ms with
  | [] => simp [ofMembers]
  | (name, v) :: rest =>
      have hentry := exists_ofEntry_iff (below path name) v
      have hrest := exists_ofMembers_iff path rest
      rw [List.forall_mem_cons, List.forall_mem_cons, and_and_and_comm, ← hentry, ← hrest]
      by_cases haccepted : Name.accepted name = true
      · rw [ofMembers_cons_of_accepted haccepted]
        simp only [bind_eq_ok, pure_eq_ok, haccepted, true_and]
        constructor
        · rintro ⟨_, first, hfirst, others, hothers, _⟩
          exact ⟨⟨first, hfirst⟩, others, hothers⟩
        · rintro ⟨⟨first, hfirst⟩, others, hothers⟩
          exact ⟨_, first, hfirst, others, hothers, rfl⟩
      · rw [ofMembers_cons_of_refused (by simpa using haccepted)]
        simp [haccepted]
termination_by sizeOf ms

/-- What stands under a name is read if it asks for something. -/
theorem exists_ofEntry_iff (path : Text) (v : Value) :
    (∃ s, ofEntry path v = .ok s) ↔ IsAsked v := by
  rcases asked_cases v with ⟨b, hv⟩ | ⟨inner, hv⟩ | ⟨noFlag, noSelect⟩
  · subst hv
    exact ⟨fun _ => .flag b, fun _ => ⟨_, rfl⟩⟩
  · have hinner := exists_ofSelect_iff path inner
    rw [hv, ofEntry_select, hinner]
    exact ⟨.select, fun h => by cases h with | select h => exact h⟩
  · rw [ofEntry_eq_error noFlag noSelect]
    refine iff_of_false (by simp) fun h => ?_
    cases h with
    | flag b => exact noFlag b rfl
    | select => exact noSelect _ rfl
termination_by sizeOf v
decreasing_by subst hv; simp +arith

/-- A selection under a name is read if it is in the grammar. -/
theorem exists_ofSelect_iff (path : Text) (v : Value) :
    (∃ s, ofSelect path v = .ok s) ↔ IsSelection v := by
  by_cases hrecord : v.IsRecord
  · cases hrecord with
    | absent => exact ⟨fun _ => .absent, fun _ => ⟨_, rfl⟩⟩
    | members ms =>
        have hmembers := exists_ofMembers_iff path ms
        rw [ofSelect, exists_bind_pure_eq_ok, hmembers]
        constructor
        · rintro ⟨names, values⟩
          exact .entries names values
        · intro h
          cases h with
          | entries names values => exact ⟨names, values⟩
  · rw [ofSelect_eq_error hrecord]
    exact iff_of_false (by simp) fun h => hrecord (isRecord_of_isSelection h)
termination_by sizeOf v
end

/-! ## reading up to the first fault -/

/-- A computation that ends with the first fault of some entries, if there is one. -/
def EndsAtFirst (entries : List Entry) (x : Except Error α) : Prop :=
  ∀ e, x = .error e ↔ FirstFault entries e

/-- What ends at the first fault succeeds if there is none. -/
theorem EndsAtFirst.exists_ok_iff {entries : List Entry} {x : Except Error α}
    (h : EndsAtFirst entries x) : (∃ a, x = .ok a) ↔ ∀ y ∈ entries, ∀ e, ¬ y.Fault e := by
  have hfault : (∃ e, x = .error e) ↔ ∃ y ∈ entries, ∃ e, y.Fault e := by
    rw [← exists_firstFault_iff, exists_congr h]
  have hok : (∃ a, x = .ok a) ↔ ¬ ∃ e, x = .error e := by
    cases x <;> simp
  rw [hok, hfault]
  simp

/-- What is neither an object nor nothing has no entries to be at fault. -/
theorem not_firstFault_entriesAt (h : ¬ v.IsRecord) : ¬ FirstFault (entriesAt path v) e := by
  cases v with
  | obj ms => exact absurd (.members ms) h
  | _ => exact not_firstFault_nil

mutual
/-- Reading members ends at the first fault among their entries. -/
theorem endsAtFirst_ofMembers (path : Text) (ms : Members) :
    EndsAtFirst (memberEntries path ms) (ofMembers path ms) := by
  intro e
  match ms with
  | [] => simp [ofMembers, memberEntries, not_firstFault_nil]
  | (name, v) :: rest =>
      rw [memberEntries]
      by_cases haccepted : Name.accepted name = true
      · have hentry := endsAtFirst_ofEntry haccepted (below path name) v
        have hrest := endsAtFirst_ofMembers path rest
        rw [ofMembers_cons_of_accepted haccepted, ← List.cons_append, firstFault_append,
          ← hentry.exists_ok_iff, ← hentry e, ← hrest e]
        simp only [bind_eq_error, pure_ne_error, and_false, exists_false, or_false,
          exists_and_right]
      · have hrefused : Name.accepted name = false := by simpa using haccepted
        rw [ofMembers_cons_of_refused hrefused, firstFault_cons]
        simp only [Entry.fault_iff_of_refused hrefused]
        simp [eq_comm]
termination_by sizeOf ms

/-- Reading an entry ends at its own fault or at the first below it. -/
theorem endsAtFirst_ofEntry {name : Text} (h : Name.accepted name = true) (path : Text)
    (v : Value) :
    EndsAtFirst (⟨path, name, v⟩ :: selectedEntries path v) (ofEntry path v) := by
  intro e
  rw [firstFault_cons]
  rcases asked_cases v with ⟨b, hv⟩ | ⟨inner, hv⟩ | ⟨noFlag, noSelect⟩
  · subst hv
    simp [ofEntry, selectedEntries, not_firstFault_nil, Entry.not_fault_flag h]
  · have hinner := endsAtFirst_ofSelect path inner e
    rw [hv, ofEntry_select, selectedEntries_select, hinner]
    simp only [Entry.fault_select_iff h]
    by_cases hrecord : inner.IsRecord <;> simp [hrecord, not_firstFault_entriesAt]
  · rw [ofEntry_eq_error noFlag noSelect, selectedEntries_eq_nil noSelect,
      Entry.fault_value_iff h noFlag noSelect]
    simp [not_firstFault_nil, eq_comm]
termination_by sizeOf v

/-- Reading a selection ends at once if it is no record, and else at the first fault in
it. -/
theorem endsAtFirst_ofSelect (path : Text) (v : Value) (e : Error) :
    ofSelect path v = .error e ↔
      (¬ v.IsRecord ∧ e = .selection (.noMapping path v)) ∨ FirstFault (entriesAt path v) e := by
  by_cases hrecord : v.IsRecord
  · cases hrecord with
    | absent => simp [ofSelect, entriesAt, not_firstFault_nil, Value.IsRecord.absent]
    | members ms =>
        have hmembers := endsAtFirst_ofMembers path ms e
        rw [ofSelect, entriesAt, ← hmembers]
        simp only [bind_eq_error, pure_ne_error, and_false, exists_false, or_false]
        simp [Value.IsRecord.members]
  · rw [ofSelect_eq_error hrecord]
    simp [hrecord, not_firstFault_entriesAt, eq_comm]
termination_by sizeOf v
end

/-- A selection is read as one that stands under a name. -/
theorem ofValue_eq_map (raw : Value) :
    ofValue raw = (ofSelect [] raw).map fun s => s.bind Selection.inner := by
  cases raw with
  | obj ms =>
      rw [ofValue, ofSelect]
      cases ofMembers [] ms <;> rfl
  | _ => rfl

/-- **Selections are recognized**: a value is read exactly if it is in the grammar of
selections.  Otherwise, if it is an object or nothing, the first entry at fault in the
order of the document is the error: its name does not pass the check, or its value
asks for nothing.  Nothing else is ever said. -/
theorem selections_recognized (raw : Value) :
    ((∃ spec, ofValue raw = .ok spec) ↔ IsSelection raw) ∧
    ∀ e, ofValue raw = .error e ↔
      (¬ raw.IsRecord ∧ e = .selection (.noMapping [] raw)) ∨ FirstFault (entriesAt [] raw) e := by
  rw [ofValue_eq_map]
  refine ⟨?_, fun e => ?_⟩
  · rw [← exists_ofSelect_iff [] raw]
    cases ofSelect [] raw <;> simp [Except.map]
  · rw [← endsAtFirst_ofSelect [] raw e]
    cases ofSelect [] raw <;> simp [Except.map]

end Spec

end GraphDoc
