import GraphDoc.Proofs.Document.Shape
import GraphDoc.Proofs.Selection.Typing
import GraphDoc.Request

/-!
# GraphDoc.Proofs.Document.Independence

The text of a document does not depend on the values of a caller.

Two requests for the same operation on the same table, with the same selection,
have the same text and the same operation name (`SameText`), whatever the
filters, cursors, orders, keys, rows and patches in them.  Of the options of a
query only their presence counts.
-/

namespace GraphDoc

/-- Two computations that, where both succeed, give the same text under the
same operation name. -/
def SameText (x y : Except Error BoundDocument) : Prop :=
  ∀ c d, x = .ok c → y = .ok d → c.text = d.text ∧ c.operationName = d.operationName

/-- The text and the operation name are those of the document, apart from the
values of its variables. -/
theorem sameText_of_document_eq {x y : Except Error BoundDocument}
    (h : ∀ c d, x = .ok c → y = .ok d → c.document = d.document) : SameText x y := by
  intro c d hc hd
  have hdoc := h c d hc hd
  exact ⟨congrArg Document.text hdoc, congrArg Document.name hdoc⟩

/-! ## queries -/

section

variable {registry : Registry} {tables : List Table} {table : Table}

/-- The text of a query depends on which options are there, not on their values. -/
theorem rowsQuery_sameText {spec : Option Spec} {o o' : RowOptions}
    (h : o.presence = o'.presence) :
    SameText (rowsQuery registry tables table spec o)
      (rowsQuery registry tables table spec o') := by
  refine sameText_of_document_eq fun c d hc hd => ?_
  obtain ⟨_, rows, _, hrows, _, hc⟩ := rowsQuery_eq_ok.1 hc
  obtain ⟨_, rows', _, hrows', _, hd⟩ := rowsQuery_eq_ok.1 hd
  obtain rfl : rows = rows' := ok_unique hrows hrows'
  rw [hc, hd, h]

/-- The text of a count depends on whether there is a filter. -/
theorem countQuery_sameText {o o' : RowOptions} (h : o.filter.truthy = o'.filter.truthy) :
    SameText (countQuery table o) (countQuery table o') := by
  refine sameText_of_document_eq fun c d hc hd => ?_
  rw [(countQuery_eq_ok.1 hc).2, (countQuery_eq_ok.1 hd).2, h]

/-- The text of a find-one is the same whatever its key is and whatever value it has. -/
theorem rowQuery_sameText {spec : Option Spec} {keyField keyType keyValue keyValue' : Value} :
    SameText (rowQuery registry tables table spec keyField keyType keyValue)
      (rowQuery registry tables table spec keyField keyType keyValue') := by
  refine sameText_of_document_eq fun c d hc hd => ?_
  obtain ⟨field, type, nodes, hfield, htype, hnodes, hc⟩ := rowQuery_eq_ok.1 hc
  obtain ⟨field', type', nodes', hfield', htype', hnodes', hd⟩ := rowQuery_eq_ok.1 hd
  obtain rfl : field = field' := ok_unique hfield hfield'
  obtain rfl : type = type' := ok_unique htype htype'
  obtain rfl : nodes = nodes' := ok_unique hnodes hnodes'
  rw [hc, hd]

/-! ## mutations -/

/-- The text of a creation is the same for all values. -/
theorem createMutation_sameText {selection : Option Spec} {values values' : Value} :
    SameText (createMutation registry tables table selection values)
      (createMutation registry tables table selection values') := by
  refine sameText_of_document_eq fun c d hc hd => ?_
  obtain ⟨payload, _, hpayload, _, hc⟩ := createMutation_eq_ok.1 hc
  obtain ⟨payload', _, hpayload', _, hd⟩ := createMutation_eq_ok.1 hd
  obtain rfl : payload = payload' := ok_unique hpayload hpayload'
  rw [hc, hd]

/-- The text of an update is the same for all keys and patches. -/
theorem updateMutation_sameText {selection : Option Spec} {rowId patch rowId' patch' : Value} :
    SameText (updateMutation registry tables table selection rowId patch)
      (updateMutation registry tables table selection rowId' patch') := by
  refine sameText_of_document_eq fun c d hc hd => ?_
  obtain ⟨_, payload, _, hpayload, _, hc⟩ := updateMutation_eq_ok.1 hc
  obtain ⟨_, payload', _, hpayload', _, hd⟩ := updateMutation_eq_ok.1 hd
  obtain rfl : payload = payload' := ok_unique hpayload hpayload'
  rw [hc, hd]

/-- A deletion answers with nothing of the row, so neither the selection of the
request nor the other tables count. -/
theorem delete_document_eq_ok {r : Request} {spec : Option Spec} {c : BoundDocument}
    (h : r.document tables table spec .delete = .ok c) : c = deleteMutation table r.rowId := by
  simp only [Request.document, bind_eq_ok, pure_eq_ok] at h
  obtain ⟨_, _, hc⟩ := h
  exact hc.symm

/-- The text of a deletion looks at nothing but the table. -/
theorem delete_sameText {tables' : List Table} {r r' : Request} {spec spec' : Option Spec} :
    SameText (r.document tables table spec .delete) (r'.document tables' table spec' .delete) := by
  refine sameText_of_document_eq fun c d hc hd => ?_
  rw [delete_document_eq_ok hc, delete_document_eq_ok hd]
  rfl

end

/-! ## no value reaches the text -/

/-- **Independence of values**: the text of a query is settled by which options
are there, and every other text by the table, the selection and the checked
names alone. -/
theorem texts_independent_of_values (registry : Registry) (tables : List Table) (table : Table)
    (spec : Option Spec) :
    (∀ o o' : RowOptions, o.presence = o'.presence →
      SameText (rowsQuery registry tables table spec o)
        (rowsQuery registry tables table spec o')) ∧
    (∀ o o' : RowOptions, o.filter.truthy = o'.filter.truthy →
      SameText (countQuery table o) (countQuery table o')) ∧
    (∀ keyField keyType keyValue keyValue' : Value,
      SameText (rowQuery registry tables table spec keyField keyType keyValue)
        (rowQuery registry tables table spec keyField keyType keyValue')) ∧
    (∀ values values' : Value,
      SameText (createMutation registry tables table spec values)
        (createMutation registry tables table spec values')) ∧
    (∀ rowId patch rowId' patch' : Value,
      SameText (updateMutation registry tables table spec rowId patch)
        (updateMutation registry tables table spec rowId' patch')) ∧
    (∀ rowId rowId' : Value,
      SameText (.ok (deleteMutation table rowId)) (.ok (deleteMutation table rowId'))) ∧
    ∀ (r r' : Request) (tables' : List Table) (spec' : Option Spec),
      SameText (r.document tables table spec .delete)
        (r'.document tables' table spec' .delete) := by
  refine ⟨fun o o' h => rowsQuery_sameText h, fun o o' h => countQuery_sameText h,
    fun _ _ _ _ => rowQuery_sameText, fun _ _ => createMutation_sameText,
    fun _ _ _ _ => updateMutation_sameText, fun rowId rowId' => ?_,
    fun _ _ _ _ => delete_sameText⟩
  refine sameText_of_document_eq fun c d hc hd => ?_
  rw [← Except.ok.inj hc, ← Except.ok.inj hd]
  rfl

/-- A short page of orders. -/
def Circle.shortPage : RowOptions where
  limit := .int 1
  filter := .obj [("id", .str "\x7d evil \x7b")]

/-- A long page of other orders. -/
def Circle.longPage : RowOptions where
  limit := .int 50
  filter := .obj [("customer", .null)]

/-- Two pages of different orders have two bags of values and one text. -/
theorem texts_independent_of_values_pages :
    Circle.shortPage.presence = Circle.longPage.presence ∧ ∃ c d : BoundDocument,
      rowsQuery .standard Circle.tables Circle.order (some Circle.spec) Circle.shortPage = .ok c ∧
      rowsQuery .standard Circle.tables Circle.order (some Circle.spec) Circle.longPage = .ok d ∧
      c.values = ([("first", .int 1), ("filter", Circle.shortPage.filter)] : Members) ∧
      d.values = ([("first", .int 50), ("filter", Circle.longPage.filter)] : Members) ∧
      c.text = d.text ∧ c.operationName = d.operationName := by
  have hpages := (texts_independent_of_values .standard Circle.tables Circle.order
    (some Circle.spec)).1 Circle.shortPage Circle.longPage rfl
  exact ⟨rfl, _, _, rfl, rfl, rfl, rfl, hpages _ _ rfl rfl⟩

end GraphDoc
