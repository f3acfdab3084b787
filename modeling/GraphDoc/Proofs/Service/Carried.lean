import GraphDoc.Proofs.Options.Rows
import GraphDoc.Proofs.Text.Encodable
import GraphDoc.Proofs.Value.Members
import GraphDoc.Service

/-!
# GraphDoc.Proofs.Service.Carried

What an answer can carry, and requests that hold nothing else.

`Service.carried` goes over all parts of a value; so what is taken out of a
value that can be carried can be carried too: a member, an item that is walked
over, a text in a sentence.

A request that a body makes is in shape (`Request.InShape`); whether an answer
can tell all of it is another question (`Request.Carried`).
-/

namespace GraphDoc

open Text Service

/-! ## parts of a value -/

theorem carriedItems_iff {vs : List Value} :
    carriedItems vs = true ↔ ∀ v ∈ vs, carried v = true := by
  induction vs with
  | nil => simp [carriedItems]
  | cons v rest ih => rw [carriedItems, Bool.and_eq_true, ih, List.forall_mem_cons]

theorem carriedMembers_iff {ms : Members} :
    carriedMembers ms = true ↔ ∀ m ∈ ms, m.1.isEncodable = true ∧ carried m.2 = true := by
  induction ms with
  | nil => simp [carriedMembers]
  | cons m rest ih =>
      obtain ⟨k, v⟩ := m
      rw [carriedMembers, Bool.and_eq_true, Bool.and_eq_true, ih, List.forall_mem_cons]

@[simp] theorem carried_str (t : Text) : carried (.str t) = t.isEncodable := by rw [carried]

@[simp] theorem carried_arr (vs : List Value) : carried (.arr vs) = carriedItems vs := by
  rw [carried]

@[simp] theorem carried_obj (ms : Members) : carried (.obj ms) = carriedMembers ms := by
  rw [carried]

namespace Value

variable {v : Value}

/-- A value that can be carried has bytes inside a sentence. -/
theorem isEncodable_text (h : carried v = true) : v.text.isEncodable = true := by
  cases v with
  | str t => rwa [carried_str] at h
  | _ => exact isEncodable_literal _

/-- So does each item that it is walked over by. -/
theorem carried_walk (h : carried v = true) {items : List Value} (hw : v.walk = .ok items) :
    ∀ item ∈ items, carried item = true := by
  intro item hitem
  cases v with
  | arr vs =>
      cases hw
      rw [carried_arr, carriedItems_iff] at h
      exact h item hitem
  | str t =>
      cases hw
      obtain ⟨c, hc, he⟩ := List.mem_map.1 hitem
      rw [carried_str, isEncodable_iff] at h
      rw [← he, carried_str, isEncodable_cons, h c hc]
      rfl
  | obj ms =>
      cases hw
      obtain ⟨m, hm, he⟩ := List.mem_map.1 hitem
      rw [carried_obj, carriedMembers_iff] at h
      rw [← he, carried_str]
      exact (h m hm).1
  | _ => cases hw

/-- What stands for a value that is not given can be carried if both can. -/
theorem carried_orElse (h : carried v = true) {fallback : Value} (hf : carried fallback = true) :
    carried (v.orElse fallback) = true := by
  unfold orElse
  split
  · exact h
  · exact hf

theorem isEncodable_letters (h : carried v = true) {t : Text} (hl : v.letters = .ok t) :
    t.isEncodable = true := by
  cases v with
  | str u =>
      cases hl
      rwa [carried_str] at h
  | _ => cases hl

theorem carried_of_lookup {ms : Members} (h : carriedMembers ms = true) {key : Text}
    (hl : ms.lookup key = some v) : carried v = true := by
  rw [carriedMembers_iff] at h
  exact (h (key, v) (Assoc.mem_of_lookup hl)).2

/-- A member of what can be carried can be carried. -/
theorem carried_of_member? (h : carried v = true) {key : Text} {w : Value}
    (hm : v.member? key = some w) : carried w = true := by
  cases v with
  | obj ms =>
      rw [carried_obj] at h
      exact carried_of_lookup h hm
  | _ => cases hm

/-- An option can be carried, and so can one that is absent. -/
theorem carried_option (h : carried v = true) (name : Text) : carried (v.option name) = true := by
  unfold option
  cases hm : v.member? name with
  | none => rfl
  | some w => exact carried_of_member? h hm

/-- The order among options that can be carried can be carried. -/
theorem carried_order (h : carried v = true) : carried v.order = true := by
  refine carried_orElse ?_ rfl
  unfold spelt
  cases hf : v.member? "orderBy" with
  | some w => exact carried_of_member? h hf
  | none =>
      rw [Option.none_or]
      exact carried_option h "order_by"

end Value

/-! ## requests -/

namespace Request

/-- A request as a body makes it: the table is a text, and what it holds besides
the row is objects or nothing. -/
structure InShape (r : Request) : Prop where
  table : ∃ name, r.table = .name name
  select : r.select.IsRecord
  options : r.options.IsRecord
  values : r.values.IsRecord
  patch : r.patch.IsRecord

/-- An answer can tell what a request holds: each text has bytes, and each
number is finite. -/
structure Carried (r : Request) : Prop where
  table : r.table.text.isEncodable = true
  options : carried r.options = true
  values : carried r.values = true
  rowId : carried r.rowId = true
  patch : carried r.patch = true

end Request

end GraphDoc
