import GraphDoc.Proofs.Selection.Typing
import GraphDoc.Request

/-!
# GraphDoc.Proofs.Selection.RoundTrip

Selections read and written.

A value from which a selection can be read is, but for members that are `false`,
what the selection is written as, and its names have passed the check
(`Spec.ofValue_sound`).  A selection with checked names is read from what it is
written as (`Spec.ofValue_toValue`), and stays as it is when it is read once more
(`Spec.reread_eq_self`).  So the selection that an answer tells asks for the same
answer again.
-/

namespace GraphDoc

/-! ## values without refusals -/

mutual
/-- An object without the members that are `false`, at any depth; any other
value is left as it is. -/
def Value.withoutFalse : Value → Value
  | .obj ms => .obj (withoutFalseMembers ms)
  | v => v

/-- Members without those that are `false`, at any depth. -/
def Value.withoutFalseMembers : List (Text × Value) → List (Text × Value)
  | [] => []
  | (_, .bool false) :: rest => withoutFalseMembers rest
  | (key, v) :: rest => (key, v.withoutFalse) :: withoutFalseMembers rest
end

namespace Spec

/-! ## checked names -/

/-- The names in a selection are texts that have passed the check, at any
depth. -/
inductive Checked : Option Spec → Prop where
  | absent : Checked none
  | given {entries : Spec}
      (names : ∀ e ∈ entries, ∃ name, e.1 = .name name ∧ Name.accepted name = true)
      (behind : ∀ e ∈ entries, Checked e.2.inner) : Checked (some entries)

/-- A selection of nothing is checked. -/
theorem checked_nil : Checked (some []) :=
  .given (fun _ h => absurd h List.not_mem_nil) fun _ h => absurd h List.not_mem_nil

/-- A checked entry before a checked selection makes a checked selection. -/
theorem checked_cons {name : Text} {s : Selection} {entries : Spec}
    (hname : Name.accepted name = true) (hs : Checked s.inner) (h : Checked (some entries)) :
    Checked (some ((.name name, s) :: entries)) := by
  cases h with
  | given names behind =>
      refine .given ?_ ?_
      · rw [List.forall_mem_cons]
        exact ⟨⟨name, rfl, hname⟩, names⟩
      · rw [List.forall_mem_cons]
        exact ⟨hs, behind⟩

/-! ## reading, then writing -/

/-- A member that is not `false` stays. -/
theorem withoutFalseMembers_cons {key : Text} {v : Value} {rest : List (Text × Value)}
    (h : v ≠ .bool false) : Value.withoutFalseMembers ((key, v) :: rest) =
      (key, v.withoutFalse) :: Value.withoutFalseMembers rest := by
  cases v with
  | bool b =>
      cases b with
      | false => exact absurd rfl h
      | true => rfl
  | _ => rfl

/-- Only `false` leaves a name out. -/
theorem eq_false_of_ofEntry {path : Text} {v : Value} (h : ofEntry path v = .ok none) :
    v = .bool false := by
  unfold ofEntry at h
  split at h
  · rename_i b
    cases b with
    | false => rfl
    | true => cases h
  · split at h
    · unfold ofSelect at h
      split at h
      · cases h
      · rw [bind_eq_ok] at h
        obtain ⟨entries, _, h⟩ := h
        cases h
      · cases h
    · cases h
  · cases h

mutual
/-- What was read from members is written as these members, but for those that
are `false`. -/
theorem ofMembers_sound {path : Text} : ∀ (ms : List (Text × Value)) {entries : Spec},
    ofMembers path ms = .ok entries →
      toMembers entries = Value.withoutFalseMembers ms ∧ Checked (some entries)
  | [], entries, h => by
      cases h
      exact ⟨rfl, checked_nil⟩
  | (key, v) :: rest, entries, h => by
      simp only [ofMembers, bind_eq_ok] at h
      obtain ⟨name, hname, first, hfirst, others, hothers, h⟩ := h
      obtain ⟨hrest, hchecked⟩ := ofMembers_sound rest hothers
      obtain ⟨hkey, haccepted⟩ := checkName_eq_ok_iff.1 hname
      cases hkey
      cases first with
      | none =>
          rw [eq_false_of_ofEntry hfirst, ← pure_eq_ok.1 h]
          exact ⟨hrest, hchecked⟩
      | some s =>
          obtain ⟨hkept, hwritten, hinner⟩ := ofEntry_sound v hfirst
          rw [← pure_eq_ok.1 h, toMembers, withoutFalseMembers_cons hkept, hwritten, hrest]
          exact ⟨rfl, checked_cons haccepted hinner hchecked⟩

/-- The same for what stands under one name. -/
theorem ofEntry_sound {path : Text} : ∀ (v : Value) {s : Selection},
    ofEntry path v = .ok (some s) →
      v ≠ .bool false ∧ entryValue s = v.withoutFalse ∧ Checked s.inner
  | .bool b, s, h => by
      cases b with
      | false => cases h
      | true =>
          cases h
          exact ⟨by simp, rfl, .absent⟩
  | .obj [(key, inner)], s, h => by
      rw [ofEntry] at h
      split at h
      · next hkey =>
          subst hkey
          obtain ⟨hwritten, hinner⟩ := ofSelect_sound inner h
          exact ⟨by simp, hwritten, hinner⟩
      · cases h
  | .obj [], s, h => by cases h
  | .obj (_ :: _ :: _), s, h => by cases h
  | .null, s, h => by cases h
  | .missing, s, h => by cases h
  | .int _, s, h => by cases h
  | .float _, s, h => by cases h
  | .str _, s, h => by cases h
  | .arr _, s, h => by cases h

/-- The same for the selection of a relation. -/
theorem ofSelect_sound {path : Text} : ∀ (v : Value) {s : Selection},
    ofSelect path v = .ok (some s) →
      entryValue s = (Value.obj [("select", v)]).withoutFalse ∧ Checked s.inner
  | .null, s, h => by
      cases h
      exact ⟨rfl, .absent⟩
  | .obj ms, s, h => by
      rw [ofSelect, bind_eq_ok] at h
      obtain ⟨entries, hentries, h⟩ := h
      cases h
      obtain ⟨hwritten, hchecked⟩ := ofMembers_sound ms hentries
      rw [entryValue, hwritten]
      exact ⟨rfl, hchecked⟩
  | .bool _, s, h => by cases h
  | .missing, s, h => by cases h
  | .int _, s, h => by cases h
  | .float _, s, h => by cases h
  | .str _, s, h => by cases h
  | .arr _, s, h => by cases h
end

/-- A selection that was read is written as the value without its `false`, and is
checked. -/
theorem ofValue_sound {raw : Value} {spec : Option Spec} (h : ofValue raw = .ok spec) :
    toValue spec = raw.withoutFalse ∧ Checked spec := by
  cases raw with
  | null =>
      cases h
      exact ⟨rfl, .absent⟩
  | obj ms =>
      rw [ofValue, bind_eq_ok] at h
      obtain ⟨entries, hentries, h⟩ := h
      cases h
      obtain ⟨hwritten, hchecked⟩ := ofMembers_sound ms hentries
      rw [toValue, hwritten]
      exact ⟨rfl, hchecked⟩
  | _ => cases h

/-! ## writing, then reading -/

/-- Entries are read from what they are written as if this holds of each of
them. -/
theorem ofMembers_toMembers_of_each {path : Text} {entries : Spec}
    (h : ∀ e ∈ entries, ∃ name, e.1 = .name name ∧ Name.accepted name = true ∧
      ofEntry (below path name) (entryValue e.2) = .ok (some e.2)) :
    ofMembers path (toMembers entries) = .ok entries := by
  induction entries with
  | nil => rfl
  | cons e rest ih =>
      obtain ⟨key, s⟩ := e
      rw [List.forall_mem_cons] at h
      obtain ⟨⟨name, hkey, hname, hentry⟩, hrest⟩ := h
      have hkey : key = .name name := hkey
      subst hkey
      have hcheck : checkName "field" (.str name) = .ok name :=
        checkName_eq_ok_iff.2 ⟨rfl, hname⟩
      have htext : (Key.name name).text = name := rfl
      rw [toMembers, htext, ofMembers, hcheck, hentry, ih hrest]
      rfl

/-- An entry is read from the value that is written for it, if its selection is. -/
theorem ofEntry_entryValue {path : Text} {s : Selection}
    (h : ∀ entries, s.inner = some entries → ofMembers path (toMembers entries) = .ok entries) :
    ofEntry path (entryValue s) = .ok (some s) := by
  cases s with
  | leaf => rfl
  | whole => rfl
  | nested entries =>
      rw [entryValue, ofEntry, if_pos rfl, ofSelect, h entries rfl]
      rfl

/-- Checked entries are read from what they are written as, at any depth. -/
theorem ofMembers_toMembers (spec : Option Spec) (h : Checked spec) (path : Text) :
    ∀ entries, spec = some entries → ofMembers path (toMembers entries) = .ok entries := by
  induction spec using Spec.induction_on generalizing path with
  | absent =>
      intro entries he
      cases he
  | given given ih =>
      intro entries he
      cases he
      cases h with
      | given names behind =>
          refine ofMembers_toMembers_of_each fun e he => ?_
          obtain ⟨name, hkey, hname⟩ := names e he
          exact ⟨name, hkey, hname, ofEntry_entryValue (ih e he (behind e he) _)⟩

/-- A checked selection is read from the value that is written for it. -/
theorem ofValue_toValue {spec : Option Spec} (h : Checked spec) :
    ofValue (toValue spec) = .ok spec := by
  cases spec with
  | none => rfl
  | some entries =>
      rw [toValue, ofValue, ofMembers_toMembers (some entries) h [] entries rfl]
      rfl

/-! ## reading once more -/

/-- Parts that were read before are taken as they are. -/
theorem ofDrafts_read {entries : Spec}
    (h : ∀ e ∈ entries, ∃ name, e.1 = .name name ∧ Name.accepted name = true) :
    ofDrafts (entries.map fun e => (e.1, .read e.2)) = .ok entries := by
  induction entries with
  | nil => rfl
  | cons e rest ih =>
      obtain ⟨key, s⟩ := e
      rw [List.forall_mem_cons] at h
      obtain ⟨⟨name, hkey, hname⟩, hrest⟩ := h
      have hkey : key = .name name := hkey
      subst hkey
      have hcheck : checkName "field" (Key.name name).value = .ok name :=
        checkName_eq_ok_iff.2 ⟨rfl, hname⟩
      rw [List.map_cons, ofDrafts, hcheck, ih hrest]
      rfl

/-- Reading a checked selection again changes nothing. -/
theorem reread_eq_self {spec : Option Spec} (h : Checked spec) : reread spec = .ok spec := by
  cases h with
  | absent => rfl
  | given names _ =>
      rw [reread, ofDrafts_read names]
      rfl

end Spec

/-! ## requests -/

/-- Whatever a request asks for, its selection is read before its document is
made, and does not count after that. -/
theorem Request.document_select (r : Request) (select : Value) (tables : List Table)
    (table : Table) (spec : Option Spec) (operation : Operation) :
    ({ r with select := select } : Request).document tables table spec operation =
      r.document tables table spec operation := by
  cases operation <;> rfl

/-- A request with the selection that its answer tells has the same answer. -/
theorem Request.run_echo {r : Request} {operation : Operation} {tables : List Table} {a : Answer}
    (h : r.run operation tables = .ok a) :
    ({ r with select := Spec.toValue a.select } : Request).run operation tables = .ok a := by
  simp only [Request.run, bind_eq_ok, pure_eq_ok, Request.document_select] at h ⊢
  obtain ⟨table, htable, spec, hspec, document, hdocument, digest, hdigest, ha⟩ := h
  have hselect : a.select = spec := by rw [← ha]
  have hread : Spec.ofValue (Spec.toValue a.select) = .ok spec := by
    rw [hselect]
    exact Spec.ofValue_toValue (Spec.ofValue_sound hspec).2
  exact ⟨table, htable, spec, hread, document, hdocument, digest, hdigest, ha⟩

/-- **Round trip of selections**: a value that is read as a selection is what the
selection is written as, without the members that are `false`, and what it is
written as is read as the same selection.  So is what any selection with checked
names is written as, and reading such a selection again changes nothing.  A
request with the selection that its answer tells has the same answer. -/
theorem selection_round_trip :
    (∀ raw spec, Spec.ofValue raw = .ok spec →
      Spec.toValue spec = raw.withoutFalse ∧ Spec.ofValue (Spec.toValue spec) = .ok spec ∧
        Spec.reread spec = .ok spec) ∧
    (∀ spec, Spec.Checked spec →
      Spec.ofValue (Spec.toValue spec) = .ok spec ∧ Spec.reread spec = .ok spec) ∧
    ∀ (r : Request) operation tables a, r.runNamed operation tables = .ok a →
      ({ r with select := Spec.toValue a.select } : Request).runNamed operation tables =
        .ok a := by
  refine ⟨fun raw spec h => ?_, fun spec h => ?_, fun r operation tables a h => ?_⟩
  · obtain ⟨hwritten, hchecked⟩ := Spec.ofValue_sound h
    exact ⟨hwritten, Spec.ofValue_toValue hchecked, Spec.reread_eq_self hchecked⟩
  · exact ⟨Spec.ofValue_toValue h, Spec.reread_eq_self h⟩
  · simp only [Request.runNamed, bind_eq_ok] at h ⊢
    obtain ⟨o, ho, loaded, hloaded, hrun⟩ := h
    exact ⟨o, ho, loaded, hloaded, Request.run_echo hrun⟩

/-- An order with its customer and the orders of the customer; two names are
refused. -/
def Circle.asked : Value := .obj [
  ("id", .bool true), ("leadTime", .bool false),
  ("customer", .obj [("select", .obj [
    ("orders", .obj [("select", .null)]), ("id", .bool false)])])]

/-- What is left of it. -/
def Circle.askedSpec : Spec := [
  (.name "id", .leaf), (.name "customer", .nested [(.name "orders", .whole)])]

/-- An order is asked for, and again with the selection that the answer tells. -/
theorem selection_round_trip_circle :
    Spec.ofValue Circle.asked = .ok (some Circle.askedSpec) ∧
      Spec.toValue (some Circle.askedSpec) = Circle.asked.withoutFalse ∧
      Spec.Checked (some Circle.askedSpec) ∧
      Spec.reread (some Circle.askedSpec) = .ok (some Circle.askedSpec) ∧
      ∃ a, ({ table := .name "Order", select := Circle.asked } : Request).runNamed "query"
          (.ok Circle.tables) = .ok a ∧
        ({ table := .name "Order", select := Spec.toValue a.select } : Request).runNamed "query"
          (.ok Circle.tables) = .ok a := by
  obtain ⟨hread, hchecked, hecho⟩ := selection_round_trip
  have hasked : Spec.ofValue Circle.asked = .ok (some Circle.askedSpec) := rfl
  have hnames : Spec.Checked (some Circle.askedSpec) := (Spec.ofValue_sound hasked).2
  have hanswered : (({ table := .name "Order", select := Circle.asked } : Request).runNamed
      "query" (.ok Circle.tables)).isOk = true := by decide +kernel
  cases hrun : ({ table := .name "Order", select := Circle.asked } : Request).runNamed "query"
      (.ok Circle.tables) with
  | error e => rw [hrun] at hanswered; cases hanswered
  | ok a =>
    exact ⟨hasked, (hread _ _ hasked).1, hnames, (hchecked _ hnames).2, a, rfl,
      hecho _ _ _ _ hrun⟩

end GraphDoc
