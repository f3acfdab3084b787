import GraphDoc.Naming.Wire
import GraphDoc.Value.Shape

/-!
# GraphDoc.Options.Rows

The options of a query: paging, filter and order.

`RowOptions.ofValue` reads them from an object, in either spelling of each
option.  `RowOptions.check` refuses what a backend would refuse.
-/

namespace GraphDoc

/-! ## orders -/

/-- One entry of an order: the backend's own word for it, or a field and a
direction. -/
inductive OrderEntry where
  | verbatim (word : Text)
  | byField (field : Value) (direction : Text)
  deriving Repr

/-- Whether a word is a direction, in any case of letters. -/
def isDirection (word : Text) : Bool := (["asc", "desc"] : List Text).contains (Text.lower word)

/-- Reads an entry of an order; the direction is ascending unless told. -/
def OrderEntry.ofValue (given : Value) : Except Error OrderEntry :=
  match given with
  | .str word => .ok (.verbatim word)
  | .obj ms =>
    match ms.lookup ("field" : Text) with
    | some field => do
      let direction ← ((ms.lookup ("direction" : Text)).getD (.str "asc")).letters
      if isDirection direction then return .byField field direction
      else throw (.options (.orderDirection direction field))
    | none => .error (.options (.orderEntry given))
  | _ => .error (.options (.orderEntry given))

/-- The value that orders by a field in a direction; both must be texts. -/
def orderWordOf (field direction : Value) : Except Error Text :=
  match field with
  | .str name => direction.letters.map (Naming.orderWord name)
  | _ => .error (.misfit .noItems)

/-- The value that the backend takes for an entry. -/
def OrderEntry.value : OrderEntry → Except Error Value
  | verbatim word => .ok (.str word)
  | byField field direction => (orderWordOf field (.str direction)).map .str

/-! ## options -/

/-- The options of a query; an absent one is `null`. -/
structure RowOptions where
  limit : Value := .null
  offset : Value := .null
  after : Value := .null
  before : Value := .null
  filter : Value := .null
  order : List OrderEntry := []
  pageInfo : Bool := false
  deriving Repr

/-- The entries of an association other than an option in its two
spellings. -/
def withoutOption (spelling other : Text) (entries : List (Key × Value)) : List (Key × Value) :=
  Assoc.drop (Assoc.drop entries (Key.name spelling)) (Key.name other)

/-- The value of an option: under its first spelling if that is there, else
under its second. -/
def spelled (spelling other : Text) (entries : List (Key × Value)) : Option Value :=
  match entries.lookup (Key.name spelling) with
  | some v => some v
  | none => entries.lookup (Key.name other)

namespace RowOptions

def byCursor (o : RowOptions) : Bool := !o.after.isNull || !o.before.isNull

/-- Whether a value is a count, if it is there at all. -/
def isCount : Value → Bool
  | .null => true
  | .int n => 0 ≤ n
  | _ => false

/-- Refuses options that cannot go together and pages that are no counts. -/
def check (o : RowOptions) : Except Error Unit :=
  if !o.offset.isNull && o.byCursor then .error (.options .offsetWithCursor)
  else if !isCount o.limit then .error (.options (.notACount "limit" o.limit))
  else if !isCount o.offset then .error (.options (.notACount "offset" o.offset))
  else .ok ()

/-- The values that the backend takes for the order. -/
def orderWords (o : RowOptions) : Except Error (List Value) := o.order.mapM OrderEntry.value

/-- The names of the options, each in its two spellings. -/
def spellings : List (Text × Text) := [
  ("limit", "first"), ("orderBy", "order_by"), ("includePageInfo", "include_page_info"),
  ("offset", "offset"), ("after", "after"), ("before", "before"), ("where", "where")]

/-- Reads the options of an association. -/
def ofEntries (entries : List (Key × Value)) : Except Error RowOptions := do
  let value (name : Text) := Value.ofOption (entries.lookup (Key.name name))
  let limit := value "limit"
  let first := value "first"
  if !limit.isNull && !first.isNull && !limit.equals first then
    throw (.options (.limitAndFirst limit first))
  let given := Value.ofOption (spelled "orderBy" "order_by" entries)
  let info := Value.ofOption (spelled "includePageInfo" "include_page_info" entries)
  let order ← (← (given.orElse (.arr [])).walk).mapM OrderEntry.ofValue
  let unknown := spellings.foldl (fun rest s => withoutOption s.1 s.2 rest) entries
  if !unknown.isEmpty then
    throw (.options (.unknownQueryOptions (← sortedKeys unknown)))
  return {
    limit := if limit.isNull then first else limit
    offset := value "offset"
    after := value "after"
    before := value "before"
    filter := value "where"
    order
    pageInfo := info.truthy }

/-- Reads the options of a query; nothing given means no options. -/
def ofValue (raw : Value) : Except Error RowOptions :=
  if raw.truthy then do ofEntries (← raw.bag) else .ok {}

end RowOptions

end GraphDoc
