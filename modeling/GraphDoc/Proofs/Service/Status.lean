import GraphDoc.Proofs.Schema.Loading
import GraphDoc.Proofs.Service.Layers

/-!
# GraphDoc.Proofs.Service.Status

The status of the response to a request for a document.

* A body that was read makes a request in shape (`inShape_of_readText`), and one
  that nests little makes a request that does (`shallow_of_spells`).
* A request that is posted to the path of an operation comes to the operation
  (`respond_post`), and what the operation comes to decides the status
  (`documentResponse_eq`); a refusal has the status 400 (`failure_of_rejection`).
* `status_of_post` puts this together: the status is 200 or 400 unless the
  order of a query breaks the work off, and then it is 500.
-/

namespace GraphDoc.Service

/-! ## bodies -/

/-- A member without fault as an object is one, or is not there. -/
theorem isRecord_of_objectFaults {ms : Members} {key : Text} (h : objectFaults ms key = []) :
    (Value.ofOption (ms.lookup key)).IsRecord := by
  unfold objectFaults at h
  cases hv : Value.ofOption (ms.lookup key) with
  | null => exact .absent
  | obj ms' => exact .members ms'
  | _ => simp [hv] at h

/-- A body that was read makes a request in shape. -/
theorem inShape_of_readBody {v : Value} {b : RequestBody} (h : readBody v = .ok b) :
    b.request.InShape := by
  unfold readBody at h
  split at h
  · next ms hfaults =>
    simp only [bodyFaults, List.append_eq_nil_iff] at hfaults
    obtain ⟨⟨⟨⟨⟨_, hselect⟩, hoptions⟩, _⟩, hvalues⟩, hpatch⟩ := hfaults
    cases h
    exact ⟨⟨_, rfl⟩, isRecord_of_objectFaults hselect, isRecord_of_objectFaults hoptions,
      isRecord_of_objectFaults hvalues, isRecord_of_objectFaults hpatch⟩
  · cases h

/-- A body that was read is a request in shape. -/
theorem inShape_of_readText {text : Option Text} {b : RequestBody} (h : readText text = .ok b) :
    b.request.InShape := by
  unfold readText at h
  split at h
  · exact inShape_of_readBody h
  · split at h
    · exact inShape_of_readBody h
    · cases h
    · cases h

/-- A text that opens an object and the name of a member spells itself. -/
theorem spelled?_open (rest : Text) :
    Json.spelled? (.char '{' :: .char '"' :: rest) = some (.char '{' :: .char '"' :: rest) := by
  have hbrace : String.utf8EncodeChar '{' = [0x7b] := rfl
  have hquote : String.utf8EncodeChar '"' = [0x22] := rfl
  have hbytes : (Text.shown (.char '{' :: .char '"' :: rest)).toUTF8.toList =
      0x7b :: 0x22 :: (rest.map fun c => c.char?.getD '\uFFFD').flatMap String.utf8EncodeChar := by
    rw [Text.shown, toList_toUTF8]
    simp [CodePoint.char?, hbrace, hquote]
  -- Neither of the first two bytes is zero, so each byte is a unit.
  have hunits : ∀ bytes, Json.Units.ofBytes (0x7b :: 0x22 :: bytes) = .single := by
    intro bytes
    unfold Json.Units.ofBytes
    split <;> simp_all
  simp only [Json.spelled?, hbytes, hunits]
  rfl

/-- The text of a body spells a value. -/
def Spells (body : Option Text) (v : Value) : Prop :=
  ∃ text, body = some text ∧ (Json.spelled? text).map Json.parse = some (.ok v)

theorem spells_open {rest : Text} {v : Value}
    (h : Json.parse (.char '{' :: .char '"' :: rest) = .ok v) :
    Spells (some (.char '{' :: .char '"' :: rest)) v :=
  ⟨_, rfl, by rw [spelled?_open, Option.map_some, h]⟩

/-- What is read from a body is read from the value that it spells. -/
theorem Spells.readText_eq {body : Option Text} {v : Value} (h : Spells body v) :
    readText body = readBody v := by
  obtain ⟨text, rfl, hspelled⟩ := h
  simp only [readText, hspelled]

/-- The parts of a request nest one layer less than the body that makes it. -/
theorem shallow_of_readBody {v : Value} {b : RequestBody} (h : readBody v = .ok b)
    (hlayers : layers v ≤ 255) : b.request.Shallow := by
  have hpart : ∀ name, layers (v.option name) ≤ 254 := Value.layers_option hlayers
  unfold readBody at h
  split at h
  · cases h
    exact ⟨hpart "options", hpart "values", hpart "patch", hpart "id"⟩
  · cases h

/-- A body of few layers asks for a shallow request. -/
theorem shallow_of_spells {body : Option Text} {v : Value} {b : RequestBody}
    (hv : Spells body v) (h : readText body = .ok b) (hlayers : layers v ≤ 255) :
    b.request.Shallow := by
  rw [hv.readText_eq] at h
  exact shallow_of_readBody h hlayers

/-! ## routes -/

/-- The path of an operation. -/
def documentPath : Operation → Text
  | .query => "/query"
  | .findOne => "/find-one"
  | .count => "/count"
  | .create => "/mutation/create"
  | .update => "/mutation/update"
  | .delete => "/mutation/delete"

/-- A body that was read and posted to the path of an operation comes to the
operation. -/
theorem respond_post {files : Files} {r : HttpRequest} {operation : Operation} {b : RequestBody}
    (hmethod : r.method = "POST") (hpath : r.target.path = documentPath operation)
    (hbody : readText r.body = .ok b) :
    respond files r = documentResponse files operation b := by
  have hroute : findRoute? (documentPath operation) = some (match operation with
      | .query => .document .query
      | .findOne => .document .findOne
      | .count => .document .count
      | .create => .mutation "create"
      | .update => .mutation "update"
      | .delete => .mutation "delete") := by
    cases operation <;> rfl
  unfold respond
  rw [hpath, hroute]
  cases operation <;> simp only [Route.method, hmethod, routeResponse, hbody] <;> rfl

/-! ## outcomes -/

/-- Where tables are loaded the answer is that to the request. -/
theorem documentResponse_eq {files : Files} {operation : Operation} {b : RequestBody}
    {tables : List Table} (htables : loadTables files b.metadata = .ok tables) :
    documentResponse files operation b =
      match b.request.run operation tables with
      | .ok a => telling 200 (documentBody a)
      | .error e => failure b.metadata e := by
  simp only [documentResponse, htables]
  rfl

/-- A rejection is answered with its message. -/
theorem failure_of_rejection {e : Error} (h : e.isRejection = true) (metadata : Option Text) :
    failure metadata e = reason 400 e.message := by
  cases e with
  | file fault path => cases h
  | _ =>
      simp only [failure]
      exact if_pos h

/-- A body that is told nests little, whatever it tells. -/
theorem layers_of_telling {status told : Nat} {v body : Value}
    (h : telling status v = ⟨told, some body⟩) : layers body ≤ maxLayers := by
  unfold telling at h
  split at h
  · next hcarried =>
    cases h
    simpa using (Bool.and_eq_true_iff.1 hcarried).2
  · cases h

theorem layers_of_documentResponse {files : Files} {operation : Operation} {b : RequestBody}
    {told : Nat} {body : Value} (h : documentResponse files operation b = ⟨told, some body⟩) :
    layers body ≤ maxLayers := by
  unfold documentResponse at h
  split at h
  · exact layers_of_telling h
  · unfold failure at h
    split at h
    · exact layers_of_telling h
    · cases h
    · split at h
      · exact layers_of_telling h
      · cases h

/-- A reason with bytes can be told. -/
theorem reason_eq {message : Text} (h : message.isEncodable = true) (status : Nat) :
    reason status message = ⟨status, some (.obj [("detail", .str message)])⟩ :=
  telling_eq (by simp [carriedMembers, h]) (by simp [memberLayers, maxLayers]) status

/-- **Statuses**: a request for a document whose body and tables could be read
breaks the work off exactly where its order does.  It is answered with 500 then,
and otherwise, if the body has 255 layers at most and an answer can tell all that
the request holds, with 200 or 400. -/
theorem status_of_post (files : Files) (r : HttpRequest) (operation : Operation)
    {b : RequestBody} {tables : List Table} (hmethod : r.method = "POST")
    (hpath : r.target.path = documentPath operation) (hbody : readText r.body = .ok b)
    (htables : loadTables files b.metadata = .ok tables) :
    ((∃ e, b.request.run operation tables = .error e ∧ e.isRejection = false) ↔
      b.request.Misordered tables operation) ∧
    (b.request.Misordered tables operation → (respond files r).status = 500) ∧
    ∀ v, Spells r.body v → layers v ≤ 255 → b.request.Carried →
      ¬ b.request.Misordered tables operation →
        (respond files r).status = 200 ∨ (respond files r).status = 400 := by
  have hshape := inShape_of_readText hbody
  have hts := (loadTables_sound htables).1
  have hbreaks := Request.run_breaksOff_iff hshape hts operation
  rw [respond_post hmethod hpath hbody, documentResponse_eq htables]
  refine ⟨hbreaks, fun hmisordered => ?_, fun v hspells hlayers hcarried hordered => ?_⟩
  · obtain ⟨e, hrun, hrejection⟩ := hbreaks.2 hmisordered
    have htold : ¬ e.Untold False := Request.run_told hshape False.elim hts operation e hrun
    obtain ⟨fault, he⟩ := Error.exists_misfit htold hrejection
    rw [hrun, he]
    rfl
  · cases hrun : b.request.run operation tables with
    | ok a =>
        left
        have hshallow := shallow_of_spells hspells hbody hlayers
        simp only [Request.telling_document hshape hcarried hshallow hts hrun]
    | error e =>
        right
        have hrejection : e.isRejection = true := by
          by_cases he : e.isRejection = true
          · exact he
          · exact absurd (hbreaks.1 ⟨e, hrun, eq_false_of_ne_true he⟩) hordered
        have htold : ¬ e.Untold True := Request.run_told hshape (fun _ => hcarried) hts operation
          e hrun
        have hmessage := Error.isEncodable_message hrejection trivial htold
        simp only [failure_of_rejection hrejection, reason_eq hmessage]

/-! ## a shop -/

/-- A metadata file of one table of products. -/
def Shop.files : Files := fun _ =>
  .ok "[\x7b\"name\": \"Product\", \"fields\": [\x7b\"name\": \"id\"\x7d]\x7d]"

def Shop.product : Table :=
  { name := "Product", fields := [{ name := "id", wireType := "String" }] }

/-- A body that asks for the products by their `id` in the direction 5. -/
def Shop.body : Text :=
  "\x7b\"table\": \"Product\", \"options\": \x7b\"orderBy\": " ++
    "[\x7b\"field\": \"id\", \"direction\": 5\x7d]\x7d\x7d"

/-- The value that it spells. -/
def Shop.spelled : Value :=
  .obj [("table", .str "Product"), ("options", .obj [
    ("orderBy", .arr [.obj [("field", .str "id"), ("direction", .int 5)]])])]

/-- What is read from it. -/
def Shop.read : RequestBody where
  request := {
    table := .name "Product"
    options := .obj [("orderBy", .arr [.obj [("field", .str "id"), ("direction", .int 5)]])] }
  metadata := none

/-- The body posted to a path. -/
def Shop.post (path : Text) : HttpRequest := ⟨"POST", ⟨path, []⟩, some Shop.body⟩

theorem Shop.loadTables_files : loadTables Shop.files none = .ok [Shop.product] := by
  simp only [loadTables]
  rfl

theorem Shop.spells_body : Spells (some Shop.body) Shop.spelled :=
  spells_open (by rfl)

theorem Shop.readText_body : readText (some Shop.body) = .ok Shop.read := by
  rw [Shop.spells_body.readText_eq]
  rfl

/-- Posted to `/query` the body breaks the work off; posted to `/find-one`, where
no order is looked at, it does not. -/
theorem status_of_post_shop :
    (readText (Shop.post "/query").body = .ok Shop.read ∧
      loadTables Shop.files Shop.read.metadata = .ok [Shop.product] ∧
      Shop.read.request.Misordered [Shop.product] .query ∧
      (respond Shop.files (Shop.post "/query")).status = 500) ∧
    (Spells (Shop.post "/find-one").body Shop.spelled ∧ layers Shop.spelled ≤ 255 ∧
      Shop.read.request.Carried ∧ ¬ Shop.read.request.Misordered [Shop.product] .findOne ∧
      ((respond Shop.files (Shop.post "/find-one")).status = 200 ∨
        (respond Shop.files (Shop.post "/find-one")).status = 400)) := by
  obtain ⟨hquery, hbroken, _⟩ := status_of_post Shop.files (Shop.post "/query") .query rfl rfl
    Shop.readText_body Shop.loadTables_files
  obtain ⟨_, _, hanswered⟩ := status_of_post Shop.files (Shop.post "/find-one") .findOne rfl rfl
    Shop.readText_body Shop.loadTables_files
  have hmisordered : Shop.read.request.Misordered [Shop.product] .query :=
    hquery.1 ⟨.misfit .noMembers, rfl, rfl⟩
  have hordered : ¬ Shop.read.request.Misordered [Shop.product] .findOne := by
    intro h
    cases h with
    | unread reads => simp at reads
  have hcarried : Shop.read.request.Carried := ⟨rfl, rfl, rfl, rfl, rfl⟩
  have hlayers : layers Shop.spelled ≤ 255 := by decide
  exact ⟨⟨Shop.readText_body, Shop.loadTables_files, hmisordered, hbroken hmisordered⟩,
    Shop.spells_body, hlayers, hcarried, hordered,
    hanswered Shop.spelled Shop.spells_body hlayers hcarried hordered⟩

/-- Not every request for a document whose body and tables could be read is
answered with 200 or 400, even if it nests little and an answer can tell all that
it holds. -/
theorem not_all_answered :
    ¬ ∀ (files : Files) (r : HttpRequest) (operation : Operation) (b : RequestBody)
      (tables : List Table) (v : Value), r.method = "POST" →
        r.target.path = documentPath operation → readText r.body = .ok b →
        loadTables files b.metadata = .ok tables → Spells r.body v → layers v ≤ 255 →
        b.request.Carried →
          (respond files r).status = 200 ∨ (respond files r).status = 400 := by
  intro h
  have hstatus : (respond Shop.files (Shop.post "/query")).status = 500 := by
    have hresponse : respond Shop.files (Shop.post "/query") =
        documentResponse Shop.files .query Shop.read := respond_post rfl rfl Shop.readText_body
    have htables : loadTables Shop.files Shop.read.metadata = .ok [Shop.product] :=
      Shop.loadTables_files
    rw [hresponse, documentResponse_eq htables]
    rfl
  have hcarried : Shop.read.request.Carried := ⟨rfl, rfl, rfl, rfl, rfl⟩
  have hanswered := h Shop.files (Shop.post "/query") .query Shop.read [Shop.product] Shop.spelled
    rfl rfl Shop.readText_body Shop.loadTables_files Shop.spells_body (by decide) hcarried
  rw [hstatus] at hanswered
  simp at hanswered

end GraphDoc.Service
