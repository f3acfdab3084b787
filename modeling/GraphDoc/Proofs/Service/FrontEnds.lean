import GraphDoc.Proofs.CommandLine.Line
import GraphDoc.Proofs.Service.Metadata

/-!
# GraphDoc.Proofs.Service.FrontEnds

The command line and the service compile the same documents.

Both put a request together in their own way and report in their own way how it
ends.  `Line.Says` compares what they are given, `Agree` what they report.

* A line that says what a body says makes the request of the body
  (`Says.arguments_eq`).
* The ends of one request are `Alike` (`alike_of_request`), and ends that are
  alike agree (`Alike.agree`).
-/

namespace GraphDoc

open CommandLine Service

/-! ## the same request -/

namespace CommandLine

/-- A flag is given what a body has: nothing, or a text that is read as the
object. -/
def Line.GivesObject (l : Line) (f : Flag) (v : Value) : Prop :=
  (l.given f = none ∧ v = .null) ∨
    ∃ text ms, l.given f = some text ∧ Json.parse text = .ok (.obj ms) ∧ v = .obj ms

/-- A line asks for an operation and says what a body says. -/
structure Line.Says (l : Line) (operation : Operation) (table : Text) (b : RequestBody) : Prop where
  values : l.values = [(operation.text : Text), table]
  table : b.request.table = .name table
  select : l.GivesObject .select b.request.select
  options : l.GivesObject .options b.request.options
  inputs : l.GivesObject .values b.request.values
  rowId : b.request.rowId = Value.ofOption ((l.given .id).map .str)
  patch : l.GivesObject .patch b.request.patch
  metadata : b.metadata = l.given .metadata

/-- No text that is taken as it stands is the separator, but for a table that has
a separator of its own. -/
structure Line.Unmistaken (l : Line) (table : Text) : Prop where
  table : table = separatorMark → l.led = true
  rowId : l.given .id ≠ some separatorMark
  metadata : l.given .metadata ≠ some separatorMark

/-- The texts that are taken as they stand have bytes. -/
structure Line.Encodable (l : Line) (table : Text) : Prop where
  table : table.isEncodable = true
  rowId : ∀ row, l.given .id = some row → row.isEncodable = true
  metadata : ∀ path, l.given .metadata = some path → path.isEncodable = true

variable {l : Line}

/-- An object that is given as JSON is read as it is. -/
theorem Line.GivesObject.eq {f : Flag} {v w : Value} (h : l.GivesObject f v)
    (hf : f.takesJson = true) (hread : l.Reads f w) : w = v := by
  unfold Line.Reads at hread
  rcases h with ⟨hgiven, rfl⟩ | ⟨text, ms, hgiven, hparse, rfl⟩
  · rw [hgiven] at hread
    exact hread
  · have hmark : text ≠ separatorMark := by
      intro hmark
      have herror : Json.parse separatorMark = .error ⟨⟨.expectingValue, 0⟩, 1, 1⟩ := rfl
      rw [hmark, herror] at hparse
      cases hparse
    simp only [hgiven, Flag.read_of_takesJson hf hmark, Parse.readJson, hparse,
      Except.ok.injEq] at hread
    exact hread.symm

/-- The row and the metadata file are taken as they stand. -/
theorem Line.Reads.eq_text {f : Flag} (hf : f = .id ∨ f = .metadata) {v : Value}
    (hread : l.Reads f v) (hmark : l.given f ≠ some separatorMark) :
    v = Value.ofOption ((l.given f).map .str) := by
  unfold Line.Reads at hread
  cases hgiven : l.given f with
  | none =>
      rw [hgiven] at hread
      exact hread
  | some text =>
      have htext : text ≠ separatorMark := fun htext => hmark (htext ▸ hgiven)
      rw [hgiven] at hread
      rcases hf with rfl | rfl
      all_goals
        simp only [Flag.read, htext, if_false, Except.ok.injEq] at hread
        exact hread.symm

theorem ofOption_str_injective {s t : Option Text}
    (h : Value.ofOption (s.map .str) = Value.ofOption (t.map .str)) : s = t := by
  cases s <;> cases t <;> cases h <;> rfl

/-- A line that is accepted makes the request of the body that says the same. -/
theorem Line.Says.arguments_eq {operation : Operation} {table : Text} {b : RequestBody}
    {a : Arguments} (h : l.Says operation table b) (hplain : l.Unmistaken table)
    (haccepted : readArguments l.arguments = .ok a) :
    a.operation = operation ∧ a.request = b.request ∧ a.metadata = b.metadata := by
  have hread := Line.readsAs_of_accepted haccepted h.values hplain.table
  have hselect := h.select.eq rfl hread.select
  have hoptions := h.options.eq rfl hread.options
  have hvalues := h.inputs.eq rfl hread.values
  have hpatch := h.patch.eq rfl hread.patch
  have hrow : a.rowId = b.request.rowId := by
    rw [h.rowId]
    exact hread.rowId.eq_text (.inl rfl) hplain.rowId
  refine ⟨hread.operation, ?_, ?_⟩
  · simp only [Arguments.request, hread.table, ← h.table, hselect, hoptions, hvalues, hrow, hpatch]
  · rw [h.metadata]
    exact ofOption_str_injective (hread.metadata.eq_text (.inr rfl) hplain.metadata)

end CommandLine

/-! ## the same report -/

namespace Service

/-- The response to a request whose metadata file is missing. -/
def missingFile (path : Text) : HttpResponse :=
  ⟨404, some (.obj [("detail", .str ("metadata not found: " ++ path))])⟩

/-- The end of a run and the response that reports the same; `path` is the path of
the metadata file. -/
inductive Alike (path : Text) : Outcome → HttpResponse → Prop where
  | answered (a : Answer) :
    Alike path (.answered a.document.text a.document.values) ⟨200, some (documentBody a)⟩
  | refused (message : Text) :
    Alike path (.refused message) ⟨400, some (.obj [("detail", .str message)])⟩
  | missing : Alike path (.refused (Error.file .missing path).message) (missingFile path)
  | broken (e : Error) : Alike path (.broken e) brokenOff

section

variable {path : Text} {o : Outcome} {response : HttpResponse}

/-- The body of a response that tells a document. -/
def documentMembers (name text : Text) (values : Members) (digest : Text) : Value :=
  .obj [("operation_name", .str name), ("document", .str text), ("variables", .obj values),
    ("digest", .str digest)]

/-- The end of a run and a response agree.  The line prints a document and its
variables exactly if the response tells them; it prints a reason exactly if the
response is a refusal for that reason, or tells that the metadata file is
missing; and it is broken off exactly if the request is. -/
structure Agree (path : Text) (o : Outcome) (response : HttpResponse) : Prop where
  answered : ∀ text values, o = .answered text values ↔
    ∃ name digest, response = ⟨200, some (documentMembers name text values digest)⟩
  refused : ∀ message, o = .refused message ↔
    response = ⟨400, some (.obj [("detail", .str message)])⟩ ∨
      (response = missingFile path ∧ message = (Error.file .missing path).message)
  broken : (∃ e, o = .broken e) ↔ response = brokenOff
  code : (o.code = 0 ↔ response.status = 200) ∧
    (o.code = 2 ↔ response.status = 400 ∨ response.status = 404) ∧
    (o.code = 1 ↔ response.status = 500)

/-- Outcomes that are alike agree. -/
theorem Alike.agree (h : Alike path o response) : Agree path o response where
  answered text values := by
    cases h with
    | answered a =>
        constructor
        · intro h
          cases h
          exact ⟨_, _, rfl⟩
        · rintro ⟨name, digest, h⟩
          cases h
          rfl
    | _ => exact iff_of_false (fun h => by cases h) fun ⟨_, _, h⟩ => by cases h
  refused message := by
    cases h with
    | refused text =>
        constructor
        · intro h
          cases h
          exact .inl rfl
        · rintro (h | ⟨h, _⟩)
          · cases h
            rfl
          · cases h
    | missing =>
        constructor
        · intro h
          cases h
          exact .inr ⟨rfl, rfl⟩
        · rintro (h | ⟨_, rfl⟩)
          · cases h
          · rfl
    | _ =>
        refine iff_of_false (fun h => by cases h) ?_
        rintro (h | ⟨h, _⟩) <;> cases h
  broken := by
    cases h with
    | broken e => exact iff_of_true ⟨e, rfl⟩ rfl
    | _ => exact iff_of_false (fun ⟨_, h⟩ => by cases h) fun h => by cases h
  code := by cases h <;> simp [Outcome.code, missingFile, brokenOff]

/-! ## one request, two reports -/

/-- What keeps the tables of a request from being loaded: the path, the text of
the file, or the file. -/
theorem loadTables_error_cases {files : Files} {requested : Option Text} {e : Error}
    (h : loadTables files requested = .error e) :
    (∃ gap, e = .unencodable gap) ∨ e = .nullInPath ∨ (∃ text, tablesOfText text = .error e) ∨
      ∃ fault, files (metadataPath requested) = .error fault ∧
        e = .file fault (metadataPath requested) := by
  unfold loadTables pathProblem? at h
  dsimp only at h
  split at h
  · next problem hproblem =>
    cases h
    split at hproblem
    · next gap _ =>
      cases hproblem
      exact .inl ⟨gap, rfl⟩
    · split at hproblem
      · cases hproblem
        exact .inr (.inl rfl)
      · cases hproblem
  · split at h
    · next text _ => exact .inr (.inr (.inl ⟨text, h⟩))
    · next fault hfile =>
      cases h
      exact .inr (.inr (.inr ⟨fault, hfile, rfl⟩))

/-- It is reported by a message with bytes, if it is reported at all. -/
theorem isEncodable_message_of_loadTables {files : Files} {requested : Option Text} {e : Error}
    (h : loadTables files requested = .error e) (hr : e.isRejection = true) :
    e.message.isEncodable = true := by
  rcases loadTables_error_cases h with ⟨gap, rfl⟩ | rfl | ⟨text, htext⟩ | ⟨fault, _, rfl⟩
  · simp [Error.message]
  · rfl
  · exact isEncodable_message_of_tablesOfText htext hr
  · cases hr

/-- A file that cannot be read is the one that was asked for. -/
theorem file_of_loadTables {files : Files} {requested : Option Text} {fault : FileFault}
    {path : Text} (h : loadTables files requested = .error (.file fault path)) :
    path = metadataPath requested ∧ files path = .error fault := by
  rcases loadTables_error_cases h with ⟨gap, he⟩ | he | ⟨text, htext⟩ | ⟨fault', hfile, he⟩
  · cases he
  · cases he
  · rcases tablesOfText_error_cases htext with ⟨_, he⟩ | ⟨_, he⟩ | he <;> cases he
  · cases he
    exact ⟨rfl, hfile⟩

/-- An error is reported alike if its message can be told and it is no file that
cannot be read but a missing one. -/
theorem alike_of_error {requested : Option Text} {e : Error}
    (hmessage : e.isRejection = true → e.message.isEncodable = true)
    (hfile : ∀ fault path, e = .file fault path → fault = .missing ∧ path = metadataPath requested)
    (hpath : (metadataPath requested).isEncodable = true) :
    Alike (metadataPath requested) (if e.isRefusal then .refused e.message else .broken e)
      (failure requested e) := by
  -- The missing file is the one refusal that the two word differently.
  by_cases hf : ∃ fault path, e = .file fault path
  · obtain ⟨fault, path, rfl⟩ := hf
    obtain ⟨rfl, rfl⟩ := hfile fault path rfl
    have hresponse : failure requested (.file .missing (metadataPath requested)) =
        missingFile (metadataPath requested) := reason_eq (by simpa using hpath) 404
    rw [hresponse]
    exact .missing
  · have hkind : e.isRejection = e.isRefusal := by
      cases e with
      | file fault path => exact absurd ⟨fault, path, rfl⟩ hf
      | _ => rfl
    cases hr : e.isRefusal with
    | true =>
        rw [if_pos rfl, failure_of_rejection (hkind.trans hr),
          reason_eq (hmessage (hkind.trans hr))]
        exact .refused e.message
    | false =>
        have hresponse : failure requested e = brokenOff := by
          cases e with
          | file fault path => exact absurd ⟨fault, path, rfl⟩ hf
          | _ =>
              simp only [failure]
              exact if_neg (by rw [hr]; exact Bool.false_ne_true)
        rw [if_neg (by simp), hresponse]
        exact .broken e

/-- A request that both front ends make is reported alike. -/
theorem alike_of_request {files : Files} {operation : Operation} {b : RequestBody} {a : Arguments}
    (hshape : b.request.InShape) (hcarried : b.request.Carried)
    (hshallow : b.request.Shallow)
    (hpath : (metadataPath b.metadata).isEncodable = true)
    (hfile : files (metadataPath b.metadata) ≠ .error .directory)
    (ha : a.operation = operation ∧ a.request = b.request ∧ a.metadata = b.metadata) :
    Alike (metadataPath b.metadata) (a.run files) (documentResponse files operation b) := by
  obtain ⟨rfl, hrequest, hmetadata⟩ := ha
  unfold Arguments.run
  rw [hrequest, hmetadata]
  cases htables : loadTables files b.metadata with
  | error e =>
      rw [documentResponse_of_error htables]
      refine alike_of_error (isEncodable_message_of_loadTables htables)
        (fun fault path he => ?_) hpath
      rw [he] at htables
      obtain ⟨rfl, hfault⟩ := file_of_loadTables htables
      cases fault with
      | missing => exact ⟨rfl, rfl⟩
      | directory => exact absurd hfault hfile
  | ok tables =>
      have hts := (loadTables_sound htables).1
      rw [documentResponse_eq htables]
      have hrun : (do b.request.run a.operation (← (.ok tables : Except Error (List Table)))) =
          b.request.run a.operation tables := rfl
      rw [hrun]
      cases hanswer : b.request.run a.operation tables with
      | ok answer =>
          simp only [Request.telling_document hshape hcarried hshallow hts hanswer]
          exact .answered answer
      | error e =>
          have htold : ¬ e.Untold True :=
            Request.run_told hshape (fun _ => hcarried) hts a.operation e hanswer
          refine alike_of_error (fun hr => Error.isEncodable_message hr trivial htold)
            (fun fault path he => ?_) hpath
          obtain ⟨misfit, hmisfit⟩ := Error.exists_misfit htold (by rw [he]; rfl)
          rw [hmisfit] at he
          cases he

end

/-! ## the front ends -/

/-- A line that is accepted and a request over HTTP, for the same document; what
they tell in JSON can be carried, and the metadata file can be read if it is
there. -/
structure Compared (files : Files) (post : HttpRequest) (operation : Operation) (table : Text)
    (b : RequestBody) (l : Line) : Prop where
  method : post.method = "POST"
  route : post.target.path = documentPath operation
  body : readText post.body = .ok b
  same : l.Says operation table b
  accepted : ∃ a, readArguments l.arguments = .ok a
  file : files (metadataPath b.metadata) ≠ .error .directory
  select : carried b.request.select = true
  options : carried b.request.options = true
  values : carried b.request.values = true
  patch : carried b.request.patch = true

variable {files : Files} {post : HttpRequest} {operation : Operation} {table : Text}
  {b : RequestBody} {l : Line}

/-- What is compared can be carried if the line can be encoded. -/
theorem Compared.carried_request (h : Compared files post operation table b l)
    (hcarried : l.Encodable table) : b.request.Carried where
  table := by
    rw [h.same.table]
    exact hcarried.table
  options := h.options
  values := h.values
  patch := h.patch
  rowId := by
    rw [h.same.rowId]
    cases hgiven : l.given .id with
    | none => rfl
    | some row => exact (carried_str row).trans (hcarried.rowId row hgiven)

theorem Compared.isEncodable_path (h : Compared files post operation table b l)
    (hcarried : l.Encodable table) : (metadataPath b.metadata).isEncodable = true := by
  have hdefault : defaultMetadataPath.isEncodable = true := Text.isEncodable_ofString _
  rw [h.same.metadata]
  unfold metadataPath
  split
  · next path hgiven =>
    split
    · exact hdefault
    · exact hcarried.metadata path hgiven
  · exact hdefault

/-- **Two front ends**: a line and a request over HTTP for the same document agree,
unless a text that the line takes as it stands is the separator or has no bytes, or
what can get into the variables nests too deep. -/
theorem agree_of_compared (h : Compared files post operation table b l)
    (hplain : l.Unmistaken table) (hcarried : l.Encodable table)
    (hshallow : b.request.Shallow) :
    Agree (metadataPath b.metadata) (CommandLine.run files l.arguments) (respond files post) := by
  obtain ⟨a, ha⟩ := h.accepted
  have hrun : CommandLine.run files l.arguments = a.run files := by
    simp only [CommandLine.run, ha]
  rw [hrun, respond_post h.method h.route h.body]
  exact (alike_of_request (inShape_of_readText h.body) (h.carried_request hcarried)
    hshallow (h.isEncodable_path hcarried) h.file (h.same.arguments_eq hplain ha)).agree

/-! ## deleting a product -/

/-- A line that asks to delete a product. -/
def Shop.deletion (row : Text) : Line where
  pieces := [.value "delete", .value "Product", .flag .id row]
  unmarked := by
    intro text h
    simp only [List.mem_cons, Piece.value.injEq, reduceCtorEq, List.not_mem_nil, or_false] at h
    rcases h with rfl | rfl <;> decide

/-- What a body that asks for the same is read as. -/
def Shop.deletionBody (row : Text) : RequestBody where
  request := { table := .name "Product", rowId := .str row }
  metadata := none

theorem Shop.shallow_deletionBody (row : Text) : (Shop.deletionBody row).request.Shallow := by
  constructor <;> simp [Shop.deletionBody, layers]

/-- Rows as they are spelled in JSON: a plain one, the separator, and a surrogate on
its own. -/
inductive Shop.Spelled : Text → Text → Prop where
  | five : Shop.Spelled "5" "5"
  | mark : Shop.Spelled separatorMark separatorMark
  | half : Shop.Spelled "\\ud800" [.surrogate 0]

/-- The text of a body. -/
def Shop.deletionText (spelled : Text) : Text :=
  "\x7b\"table\": \"Product\", \"id\": \"" ++ spelled ++ "\"\x7d"

def Shop.deletionPost (spelled : Text) : HttpRequest :=
  ⟨"POST", ⟨"/mutation/delete", []⟩, some (Shop.deletionText spelled)⟩

theorem Shop.Spelled.readText {spelled row : Text} (h : Shop.Spelled spelled row) :
    readText (some (Shop.deletionText spelled)) = .ok (Shop.deletionBody row) := by
  have hspells : Spells (some (Shop.deletionText spelled))
      (.obj [("table", .str "Product"), ("id", .str row)]) := by
    cases h <;> exact spells_open (by rfl)
  rw [hspells.readText_eq]
  rfl

theorem Shop.Spelled.compared {spelled row : Text} (h : Shop.Spelled spelled row) :
    Compared Shop.files (Shop.deletionPost spelled) .delete "Product" (Shop.deletionBody row)
      (Shop.deletion row) where
  method := rfl
  route := rfl
  body := h.readText
  same := ⟨rfl, rfl, .inl ⟨rfl, rfl⟩, .inl ⟨rfl, rfl⟩, .inl ⟨rfl, rfl⟩, rfl, .inl ⟨rfl, rfl⟩, rfl⟩
  accepted := by cases h <;> exact ⟨_, rfl⟩
  file := fun h => by cases h
  select := rfl
  options := rfl
  values := rfl
  patch := rfl

/-- The response is that to the request for the document. -/
theorem Shop.Spelled.respond_eq {spelled row : Text} (h : Shop.Spelled spelled row) :
    respond Shop.files (Shop.deletionPost spelled) =
      match (Shop.deletionBody row).request.run .delete [Shop.product] with
      | .ok a => telling 200 (documentBody a)
      | .error e => failure none e := by
  rw [respond_post h.compared.method h.compared.route h.readText]
  exact documentResponse_eq Shop.loadTables_files

/-- The line prints the row that it is read with. -/
theorem Shop.run_deletion (row : Text) {v : Value} (hv : v = .arr [] ∨ v = .str [.surrogate 0])
    (hread : readArguments (Shop.deletion row).arguments =
      .ok { operation := .delete, table := .name "Product", rowId := v }) :
    ∃ text, CommandLine.run Shop.files (Shop.deletion row).arguments =
      .answered text [("input", .obj [("id", v)])] := by
  simp only [CommandLine.run, hread, Arguments.run, Shop.loadTables_files]
  rcases hv with rfl | rfl <;> exact ⟨_, rfl⟩

/-- The line `delete Product --id=5` and a request that says the same. -/
theorem agree_of_compared_deletion :
    Agree defaultMetadataPath (CommandLine.run Shop.files (Shop.deletion "5").arguments)
      (respond Shop.files (Shop.deletionPost "5")) :=
  agree_of_compared Shop.Spelled.five.compared
    ⟨fun h => absurd h (by decide), by decide, by decide⟩
    ⟨rfl, fun row h => by cases h; rfl, fun path h => by cases h⟩ (Shop.shallow_deletionBody _)

/-! ## creating a product -/

/-- Lists one in the other, around an empty one. -/
def Shop.nest : Nat → Value
  | 0 => .arr []
  | n + 1 => .arr [Shop.nest n]

/-- Each bracket adds a layer. -/
theorem Shop.layers_nest (n : Nat) : layers (Shop.nest n) = n + 1 := by
  induction n with
  | zero => simp [Shop.nest, itemLayers]
  | succ n ih => simp [Shop.nest, itemLayers, ih]

/-- The values of a product whose `id` is 254 lists one in the other: 255 layers. -/
def Shop.deep : Members := [("id", Shop.nest 253)]

def Shop.deepText : Text :=
  let opened : Text := List.replicate 254 '['
  let closed : Text := List.replicate 254 ']'
  "\x7b\"id\": " ++ opened ++ closed ++ "\x7d"

/-- A line that asks to create the product. -/
def Shop.creation : Line where
  pieces := [.value "create", .value "Product", .flag .values Shop.deepText]
  unmarked := by
    intro text h
    simp only [List.mem_cons, Piece.value.injEq, reduceCtorEq, List.not_mem_nil, or_false] at h
    rcases h with rfl | rfl <;> decide

/-- The text of a body that asks for the same, for given values. -/
def Shop.creationText (values : Text) : Text :=
  "\x7b\"table\": \"Product\", \"values\": " ++ values ++ "\x7d"

def Shop.creationPost : HttpRequest :=
  ⟨"POST", ⟨"/mutation/create", []⟩, some (Shop.creationText Shop.deepText)⟩

/-- What the body is read as. -/
def Shop.creationBody : RequestBody where
  request := { table := .name "Product", values := .obj Shop.deep }
  metadata := none

set_option maxRecDepth 20000 in
theorem Shop.parse_deepText : Json.parse Shop.deepText = .ok (.obj Shop.deep) := by rfl

set_option maxRecDepth 20000 in
theorem Shop.parse_creationText : Json.parse (Shop.creationText Shop.deepText) =
    .ok (.obj [("table", .str "Product"), ("values", .obj Shop.deep)]) := by rfl

theorem Shop.readText_creationText :
    readText (some (Shop.creationText Shop.deepText)) = .ok Shop.creationBody := by
  have hspells : ∀ {values v}, Json.parse (Shop.creationText values) = .ok v →
      Spells (some (Shop.creationText values)) v := spells_open
  rw [(hspells Shop.parse_creationText).readText_eq]
  rfl

set_option maxRecDepth 20000 in
theorem Shop.readArguments_creation :
    readArguments Shop.creation.arguments =
      .ok { operation := .create, table := .name "Product", values := .obj Shop.deep } := by rfl

/-- The creation is asked for in both ways. -/
theorem Shop.creation_compared :
    Compared Shop.files Shop.creationPost .create "Product" Shop.creationBody Shop.creation where
  method := rfl
  route := rfl
  body := Shop.readText_creationText
  same := ⟨rfl, rfl, .inl ⟨rfl, rfl⟩, .inl ⟨rfl, rfl⟩,
    .inr ⟨Shop.deepText, Shop.deep, rfl, Shop.parse_deepText, rfl⟩, rfl, .inl ⟨rfl, rfl⟩, rfl⟩
  accepted := ⟨_, Shop.readArguments_creation⟩
  file := fun h => by cases h
  select := rfl
  options := rfl
  values := by decide +kernel
  patch := rfl

/-- The command line answers with the values as they are, however deep. -/
theorem Shop.run_creation : ∃ text, CommandLine.run Shop.files Shop.creation.arguments =
    .answered text [("input", .obj [("product", .obj Shop.deep)])] := by
  simp only [CommandLine.run, Shop.readArguments_creation, Arguments.run, Shop.loadTables_files]
  exact ⟨_, rfl⟩

/-- No proviso can be left out: the line loses the row `--`, no response tells a row
that is a surrogate on its own, and none tells values of 255 layers. -/
theorem not_agree_of_compared :
    (¬ ∀ (files : Files) (post : HttpRequest) (operation : Operation) (table : Text)
      (b : RequestBody) (l : Line), Compared files post operation table b l →
        l.Encodable table → b.request.Shallow → Agree (metadataPath b.metadata)
          (CommandLine.run files l.arguments) (respond files post)) ∧
    (¬ ∀ (files : Files) (post : HttpRequest) (operation : Operation) (table : Text)
      (b : RequestBody) (l : Line), Compared files post operation table b l →
        l.Unmistaken table → b.request.Shallow → Agree (metadataPath b.metadata)
          (CommandLine.run files l.arguments) (respond files post)) ∧
    (¬ ∀ (files : Files) (post : HttpRequest) (operation : Operation) (table : Text)
      (b : RequestBody) (l : Line), Compared files post operation table b l →
        l.Unmistaken table → l.Encodable table → Agree (metadataPath b.metadata)
          (CommandLine.run files l.arguments) (respond files post)) := by
  refine ⟨?_, ?_, ?_⟩
  · intro h
    have hagree := h _ _ _ _ _ _ Shop.Spelled.mark.compared
      ⟨rfl, fun row h => by cases h; rfl, fun path h => by cases h⟩ (Shop.shallow_deletionBody _)
    obtain ⟨text, hrun⟩ := Shop.run_deletion separatorMark (.inl rfl) rfl
    have hresponse : ∃ name text digest, respond Shop.files (Shop.deletionPost separatorMark) =
        ⟨200, some (documentMembers name text [("input", .obj [("id", .str separatorMark)])]
          digest)⟩ := by
      rw [Shop.Spelled.mark.respond_eq]
      exact ⟨_, _, _, rfl⟩
    obtain ⟨_, _, hanswered⟩ := (hagree.answered text _).1 hrun
    obtain ⟨_, _, _, hresponse⟩ := hresponse
    rw [hresponse] at hanswered
    cases hanswered
  · intro h
    have hagree := h _ _ _ _ _ _ Shop.Spelled.half.compared
      ⟨fun h => absurd h (by decide), by decide, by decide⟩ (Shop.shallow_deletionBody _)
    obtain ⟨text, hrun⟩ := Shop.run_deletion [.surrogate 0] (.inr rfl) rfl
    have hresponse : respond Shop.files (Shop.deletionPost "\\ud800") = brokenOff := by
      rw [Shop.Spelled.half.respond_eq]
      rfl
    obtain ⟨_, _, hanswered⟩ := (hagree.answered text _).1 hrun
    rw [hresponse] at hanswered
    cases hanswered
  · intro h
    have hagree := h _ _ _ _ _ _ Shop.creation_compared
      ⟨fun h => absurd h (by decide), by decide, by decide⟩
      ⟨rfl, (fun row h => by cases h), fun path h => by cases h⟩
    obtain ⟨text, hrun⟩ := Shop.run_creation
    obtain ⟨name, digest, htold⟩ := (hagree.answered text _).1 hrun
    have hroute : Shop.creationPost.target.path = documentPath .create := rfl
    rw [respond_post rfl hroute Shop.readText_creationText] at htold
    have hlayers := layers_of_documentResponse htold
    simp only [documentMembers, layers_obj, layers_str, memberLayers, Shop.deep, maxLayers,
      Shop.layers_nest] at hlayers
    omega

end Service

end GraphDoc
