import GraphDoc.Json.Token

/-!
# GraphDoc.Json.Parser

Values from JSON text.

The parser keeps the containers that are open, innermost first, and what it is
waiting for; each token closes a value, opens a container or is a fault.  Of a
member that is written twice the last value counts, at the first place.  Where
the text departs from the grammar the fault is reported with its line and
column; two more faults are integers of too many digits and containers that lie
too deep.
-/

namespace GraphDoc.Json

/-! ## faults -/

/-- The sentence that names a problem. -/
def Problem.text : Problem → Text
  | .expectingValue => "Expecting value"
  | .expectingName => "Expecting property name enclosed in double quotes"
  | .expectingColon => "Expecting ':' delimiter"
  | .expectingComma => "Expecting ',' delimiter"
  | .unterminatedText => "Unterminated string starting at"
  | .controlCharacter => "Invalid control character at"
  | .unknownEscape => "Invalid \\escape"
  | .codeEscape => "Invalid \\uXXXX escape"
  | .trailingData => "Extra data"
  | .byteOrderMark => "Unexpected UTF-8 BOM (decode using utf-8-sig)"
  | .overlongInteger digits =>
    "Exceeds the limit (" ++ Text.ofNat maxIntegerDigits ++
      " digits) for integer string conversion: value has " ++ Text.ofNat digits ++
      " digits; use sys.set_int_max_str_digits() to increase the limit"
  | .deepNesting => "containers lie too deep"

/-- Whether a problem is a departure from the grammar, told with its place. -/
def Problem.isGrammatical : Problem → Bool
  | .overlongInteger _ => false
  | .deepNesting => false
  | _ => true

/-- A fault with its line and column, both counted from one. -/
structure Error where
  fault : Fault
  line : Nat
  column : Nat
  deriving DecidableEq, Repr

/-- Finds the line and the column of a fault. -/
def Error.locate (t : Text) (fault : Fault) : Error :=
  let before := t.take fault.offset
  ⟨fault, before.count (.char '\n') + 1,
    (before.reverse.takeWhile (· ≠ .char '\n')).length + 1⟩

def Error.message (e : Error) : Text :=
  e.fault.problem.text ++
    if e.fault.problem.isGrammatical then
      ": line " ++ Text.ofNat e.line ++ " column " ++ Text.ofNat e.column ++ " (char " ++
        Text.ofNat e.fault.offset ++ ")"
    else ""

/-! ## the parser -/

/-- The most containers that may be open at a time. -/
def maxNesting : Nat := 985

/-- A container that is still open: the items or members so far, the items
last one first. -/
inductive Frame where
  | items (done : List Value)
  | members (done : Members)
  | entry (done : Members) (key : Text)

/-- What may come next. -/
inductive Expecting where
  | value
  | firstItem
  | firstName
  | name
  | colon
  | separator
  | finish (result : Value)

/-- What is open and what may come next. -/
structure State where
  frames : List Frame
  expecting : Expecting

/-- A value is complete and goes into the innermost container. -/
def State.complete (v : Value) : List Frame → State
  | .items done :: frames => ⟨.items (v :: done) :: frames, .separator⟩
  | .entry done key :: frames => ⟨.members (Assoc.put done key v) :: frames, .separator⟩
  | .members done :: frames => ⟨.members done :: frames, .separator⟩
  | [] => ⟨[], .finish v⟩

/-- A container opens at a place. -/
def State.open (frames : List Frame) (frame : Frame) (expecting : Expecting) (offset : Nat) :
    Except Fault State :=
  if maxNesting ≤ frames.length then .error ⟨.deepNesting, offset⟩
  else .ok ⟨frame :: frames, expecting⟩

def State.value (frames : List Frame) (first : Bool) (t : Located) : Except Fault State :=
  match t.token with
  | .text s => .ok (State.complete (.str s) frames)
  | .scalar v => .ok (State.complete v frames)
  | .openObject => State.open frames (.members []) .firstName t.offset
  | .openArray => State.open frames (.items []) .firstItem t.offset
  | .broken fault => .error fault
  | .overlong digits => .error ⟨.overlongInteger digits, t.offset⟩
  | .closeArray =>
    match first, frames with
    | true, .items _ :: frames => .ok (State.complete (.arr []) frames)
    | _, _ => .error ⟨.expectingValue, t.offset⟩
  | _ => .error ⟨.expectingValue, t.offset⟩

/-- One token where the name of a member is due. -/
def State.name (frames : List Frame) (first : Bool) (t : Located) : Except Fault State :=
  match t.token, frames with
  | .text s, .members done :: frames => .ok ⟨.entry done s :: frames, .colon⟩
  | .broken fault, _ => .error fault
  | .closeObject, .members _ :: frames =>
    if first then .ok (State.complete (.obj []) frames) else .error ⟨.expectingName, t.offset⟩
  | _, _ => .error ⟨.expectingName, t.offset⟩

def State.separator (frames : List Frame) (t : Located) : Except Fault State :=
  match t.token, frames with
  | .comma, .items _ :: _ => .ok ⟨frames, .value⟩
  | .comma, .members _ :: _ => .ok ⟨frames, .name⟩
  | .closeArray, .items done :: frames => .ok (State.complete (.arr done.reverse) frames)
  | .closeObject, .members done :: frames => .ok (State.complete (.obj done) frames)
  | _, _ => .error ⟨.expectingComma, t.offset⟩

/-- One token. -/
def State.step (st : State) (t : Located) : Except Fault State :=
  match st.expecting with
  | .value => State.value st.frames false t
  | .firstItem => State.value st.frames true t
  | .firstName => State.name st.frames true t
  | .name => State.name st.frames false t
  | .colon =>
    match t.token with
    | .colon => .ok ⟨st.frames, .value⟩
    | _ => .error ⟨.expectingColon, t.offset⟩
  | .separator => State.separator st.frames t
  | .finish _ => .error ⟨.trailingData, t.offset⟩

/-- Runs the parser over the tokens. -/
def State.run (st : State) : List Located → Except Fault Value
  | [] => .error ⟨.expectingValue, 0⟩
  | t :: rest =>
    match st.expecting, t.token with
    | .finish v, .finish => .ok v
    | _, _ =>
      match st.step t with
      | .ok st' => st'.run rest
      | .error fault => .error fault

/-- Reads the one value of a JSON text. -/
def parsePoints (t : Text) : Except Fault Value :=
  if t.head? = some (.char '\uFEFF') then .error ⟨.byteOrderMark, 0⟩
  else State.run ⟨[], .value⟩ (tokens 0 0 t)

/-- Reads the one value of a JSON text; a fault comes with its place. -/
def parse (t : Text) : Except Error Value :=
  match parsePoints t with
  | .ok v => .ok v
  | .error fault => .error (.locate t fault)

end GraphDoc.Json
