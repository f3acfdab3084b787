import GraphDoc.Json.Printer
import GraphDoc.Json.Units
import GraphDoc.Request
import GraphDoc.Service.Target

/-!
# GraphDoc.Service

Documents over HTTP.

`POST` to `/query`, `/find-one`, `/count` and `/mutation/ACTION` answers with a
document, `GET` of `/tables` with the names of the tables.  `respond` is one
request to one response.

A refused request is answered with 400 and the reason, a missing metadata file
with 404, a body of the wrong shape with 422, and what breaks the work off
with 500.  So is every answer that JSON in UTF-8 cannot carry: one that tells a
number that is not finite or a surrogate on its own; and every document with
variables that nest too deep to be written out.  An answer with 422 tells the
parts of the body that are not in shape.
-/

namespace GraphDoc.Service

/-! ## requests and responses -/

structure HttpRequest where
  method : Text
  target : Target
  body : Option Text := none

/-- A response; 422 and 500 have no body that is told. -/
structure HttpResponse where
  status : Nat
  body : Option Value

/-- The response to work that was broken off. -/
def brokenOff : HttpResponse := ⟨500, none⟩

/-- A number that JSON can carry: one that is finite. -/
def finiteNumber : Binary64 → Bool
  | .finite _ _ _ => true
  | _ => false

mutual
/-- Whether JSON in UTF-8 can carry the numbers and texts of a value, however
deep they lie in it. -/
def carried : Value → Bool
  | .float x => finiteNumber x
  | .str t => t.isEncodable
  | .arr items => carriedItems items
  | .obj ms => carriedMembers ms
  | _ => true

def carriedItems : List Value → Bool
  | [] => true
  | v :: rest => carried v && carriedItems rest

def carriedMembers : List (Text × Value) → Bool
  | [] => true
  | (k, v) :: rest => k.isEncodable && carried v && carriedMembers rest
end

mutual
/-- How many layers a value has: a list or an object is one more than the
deepest of its parts, and anything else is one. -/
def layers : Value → Nat
  | .arr items => itemLayers items + 1
  | .obj ms => memberLayers ms + 1
  | _ => 1

def itemLayers : List Value → Nat
  | [] => 0
  | v :: rest => max (layers v) (itemLayers rest)

def memberLayers : List (Text × Value) → Nat
  | [] => 0
  | (_, v) :: rest => max (layers v) (memberLayers rest)
end

/-- The layers of a value that is written out.  Each variable of a document may
have 255 of them: the variables are one more, and the body around them another. -/
def maxLayers : Nat := 257

/-- The response that carries a value. -/
def telling (status : Nat) (body : Value) : HttpResponse :=
  if carried body && layers body ≤ maxLayers then ⟨status, some body⟩ else brokenOff

/-- A response that tells a reason. -/
def reason (status : Nat) (text : Text) : HttpResponse :=
  telling status (.obj [("detail", .str text)])

/-- The response to a body some parts of which are not in shape. -/
def misshapen (faults : List Value) : HttpResponse :=
  if carriedItems faults then ⟨422, none⟩ else brokenOff

/-! ## routes -/

/-- What a path stands for. -/
inductive Route where
  | document (operation : Operation)
  | mutation (action : Text)
  | tables
  deriving DecidableEq, Repr

def Route.method : Route → Text
  | tables => "GET"
  | _ => "POST"

/-- The action of a mutation path. -/
def actionOf? (path : Text) : Option Text :=
  let stem : Text := "/mutation/"
  if stem.isPrefixOf path then
    let action := path.drop stem.length
    if action.isEmpty || action.contains '/' then none else some action
  else none

/-- The route of a path; a line feed at its end is not looked at where the
path is fixed. -/
def routeOf? (path : Text) : Option Route :=
  let fixed := Name.withoutFinalBreak path
  if fixed = "/query" then some (.document .query)
  else if fixed = "/find-one" then some (.document .findOne)
  else if fixed = "/count" then some (.document .count)
  else if fixed = "/tables" then some .tables
  else (actionOf? path).map .mutation

/-- A path without the slashes at its end, or with one slash more. -/
def otherSlash (path : Text) : Text :=
  if path.getLast? = some (.char '/') then (path.reverse.dropWhile (· == .char '/')).reverse
  else path ++ "/"

/-- The route of a path, or of the path that it is redirected to. -/
def findRoute? (path : Text) : Option Route :=
  match routeOf? path with
  | some route => some route
  | none => if path = "/" then none else routeOf? (otherSlash path)

/-! ## bodies -/

/-- The body of a request for a document. -/
structure RequestBody where
  request : Request
  metadata : Option Text

/-- The table of a body if it is no text; for a body without a table the body as
a whole. -/
def tableFaults (ms : Members) : List Value :=
  match ms.lookup ("table" : Text) with
  | some (.str _) => []
  | some v => [v]
  | none => [.obj ms]

/-- A member if it is neither a text nor nothing. -/
def textFaults (ms : Members) (key : Text) : List Value :=
  match Value.ofOption (ms.lookup key) with
  | .null => []
  | .str _ => []
  | v => [v]

/-- A member if it is neither an object nor nothing. -/
def objectFaults (ms : Members) (key : Text) : List Value :=
  match Value.ofOption (ms.lookup key) with
  | .null => []
  | .obj _ => []
  | v => [v]

/-- The parts of a body that are not in shape. -/
def bodyFaults : Value → List Value
  | .obj ms =>
    tableFaults ms ++ objectFaults ms "select" ++ objectFaults ms "options" ++
      textFaults ms "metadata_path" ++ objectFaults ms "values" ++ objectFaults ms "patch"
  | v => [v]

/-- The text of a member, if it is one. -/
def textMember? (ms : Members) (key : Text) : Option Text :=
  match ms.lookup key with
  | some (.str t) => some t
  | _ => none

/-- The request that the members of a body make.  Members that are not known
are not looked at. -/
def bodyOfMembers (ms : Members) : RequestBody :=
  let value (key : Text) := Value.ofOption (ms.lookup key)
  let request : Request := {
    table := .name ((textMember? ms "table").getD [])
    select := value "select"
    options := value "options"
    values := value "values"
    rowId := value "id"
    patch := value "patch" }
  ⟨request, textMember? ms "metadata_path"⟩

def readBody (body : Value) : Except HttpResponse RequestBody :=
  match body, bodyFaults body with
  | .obj ms, [] => .ok (bodyOfMembers ms)
  | _, faults => .error (misshapen faults)

/-- The response to a body that cannot be read. -/
def unreadable : HttpResponse := reason 400 "There was an error parsing the body"

/-- Reads the text of a body; an absent one counts as nothing. -/
def readText (body : Option Text) : Except HttpResponse RequestBody :=
  match body with
  | none => readBody .null
  | some text =>
    match (Json.spelled? text).map Json.parse with
    | some (.ok v) => readBody v
    | some (.error fault) =>
      .error (if fault.fault.problem.isGrammatical then ⟨422, none⟩ else unreadable)
    | none => .error unreadable

/-! ## answers -/

def documentBody (a : Answer) : Value :=
  .obj [("operation_name", .str a.document.operationName), ("document", .str a.document.text),
    ("variables", .obj a.document.values), ("digest", .str a.digest)]

/-- The response to a cause that keeps a document from being written. -/
def failure (metadata : Option Text) (e : Error) : HttpResponse :=
  match e with
  | .file .missing _ => reason 404 ("metadata not found: " ++ metadataPath metadata)
  | .file .directory _ => brokenOff
  | e => if e.isRefusal then reason 400 e.message else brokenOff

def documentResponse (files : Files) (operation : Operation) (b : RequestBody) : HttpResponse :=
  match (do b.request.run operation (← loadTables files b.metadata)) with
  | .ok answer => telling 200 (documentBody answer)
  | .error e => failure b.metadata e

/-- The operation of a mutation's action. -/
def actionOperation? (action : Text) : Option Operation :=
  match Operation.ofText? action with
  | some .create => some .create
  | some .update => some .update
  | some .delete => some .delete
  | _ => none

def isFileCause : Error → Bool
  | .json _ => true
  | .nullInPath => true
  | .unencodable _ => true
  | _ => false

/-- The response that tells the names of the tables; of a field that is given
twice the last value counts.  What may be wrong with the text or the path of a
metadata file is not provided for here. -/
def tablesResponse (files : Files) (query : List (Text × Text)) : HttpResponse :=
  let requested := query.reverse.lookup ("metadata_path" : Text)
  match loadTables files requested with
  | .ok tables => telling 200 (.obj [("tables", .ofTexts (tables.map Table.name))])
  | .error e => if isFileCause e then brokenOff else failure requested e

def routeResponse (files : Files) (r : HttpRequest) (route : Route) : HttpResponse :=
  match route with
  | .tables => tablesResponse files r.target.query
  | .document operation =>
    match readText r.body with
    | .ok b => documentResponse files operation b
    | .error response => response
  | .mutation action =>
    match readText r.body, actionOperation? action with
    | .error response, _ => response
    | .ok b, some operation => documentResponse files operation b
    | .ok _, none => reason 404 ("unknown mutation '" ++ action ++ "'")

def respond (files : Files) (r : HttpRequest) : HttpResponse :=
  match findRoute? r.target.path with
  | none => reason 404 "Not Found"
  | some route =>
    if r.method = route.method then routeResponse files r route
    else reason 405 "Method Not Allowed"

end GraphDoc.Service
