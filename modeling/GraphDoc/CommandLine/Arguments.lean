import GraphDoc.Request
import GraphDoc.Text.Digit

/-!
# GraphDoc.CommandLine.Arguments

The arguments of the command line: an operation, a table, and flags with one
value each.

First every argument is told apart by its look (`Word.ofText`): a flag may be
shortened as long as only one flag starts that way, may carry its value behind
an equals sign, and what looks like a negative number is a value.  Behind `--`
everything is a value.  Then `Parse.run` goes over the words from left to
right; the first fault or the first request for help decides.

The text `--` is never a value by itself: a flag that carries it, and a table
that is named by it alone, get the empty list.
-/

namespace GraphDoc.CommandLine

/-! ## flags -/

inductive Flag where
  | help
  | select
  | options
  | metadata
  | values
  | id
  | patch
  deriving DecidableEq, Repr

/-- The long spelling of a flag. -/
def Flag.text : Flag → String
  | help => "--help"
  | select => "--select"
  | options => "--options"
  | metadata => "--metadata"
  | values => "--values"
  | id => "--id"
  | patch => "--patch"

def Flag.all : List Flag := [.help, .select, .options, .metadata, .values, .id, .patch]

def Flag.ofText? (t : Text) : Option Flag := Flag.all.find? fun f => f.text == t

/-! ## words -/

/-- The mark behind which everything is a value. -/
def separatorMark : Text := "--"

/-- An argument by its look.  `helps` is the short help flag, with what is
written in one with it. -/
inductive Word where
  | value (text : Text)
  | separator
  | flag (flag : Flag) (attached : Option Text)
  | helps (more : Text)
  | unknownFlag

def splitEquals (t : Text) : Text × Option Text :=
  match t.dropWhile (· ≠ .char '=') with
  | [] => (t, none)
  | _ :: behind => (t.takeWhile (· ≠ .char '='), some behind)

def allDigits (t : Text) : Bool := t.all Text.isDecimalDigit

/-- Whether text behind a minus sign looks like a number. -/
def looksNumeric (t : Text) : Bool :=
  let body := Name.withoutFinalBreak t
  let digits (ds : Text) := !ds.isEmpty && allDigits ds
  digits body ||
    match body.dropWhile (· ≠ .char '.') with
    | [] => false
    | _ :: fraction => allDigits (body.takeWhile (· ≠ .char '.')) && digits fraction

/-- An argument that is no flag but starts with a minus sign: a value if it
looks like a number or holds a blank. -/
def unknownWord (arg : Text) : Word :=
  if looksNumeric arg.tail || arg.contains ' ' then .value arg else .unknownFlag

/-- An argument that starts with two minus signs; `none` where several flags
start that way. -/
def longWord (arg : Text) : Option Word :=
  let parts := splitEquals arg
  match Flag.ofText? parts.1 with
  | some f => some (.flag f parts.2)
  | none =>
    match Flag.all.filter fun f => parts.1.isPrefixOf f.text with
    | [] => some (unknownWord arg)
    | [f] => some (.flag f parts.2)
    | _ => none

/-- An argument by its look; `none` where several flags start that way. -/
def Word.ofText (arg : Text) : Option Word :=
  match arg with
  | .char '-' :: .char '-' :: _ => longWord arg
  | .char '-' :: .char 'h' :: more => some (.helps more)
  | .char '-' :: _ :: _ => some (unknownWord arg)
  | _ => some (.value arg)

def wordsOf : List Text → Option (List Word)
  | [] => some []
  | arg :: rest =>
    if arg = separatorMark then some (.separator :: rest.map .value)
    else do
      let word ← Word.ofText arg
      let others ← wordsOf rest
      return word :: others

/-! ## the parse -/

/-- What a command line asks for. -/
structure Arguments where
  operation : Operation
  table : Key
  select : Value := .null
  options : Value := .null
  metadata : Option Text := none
  values : Value := .null
  rowId : Value := .null
  patch : Value := .null

/-- The end of a command line that is not run: help, wrong usage, or a value
that breaks the work off. -/
inductive Stop where
  | help
  | usage
  | broken (error : Error)

/-- What was read so far.  `led` and `trailed` say that the word before was a
separator that leads the next value, or a value that a separator may trail;
`extra` says that something was left over. -/
structure Parse where
  operation : Option Operation := none
  table : Option Key := none
  select : Value := .null
  options : Value := .null
  metadata : Option Text := none
  values : Value := .null
  rowId : Value := .null
  patch : Value := .null
  led : Bool := false
  trailed : Bool := false
  extra : Bool := false

namespace Parse

/-- Reads a value that is written in JSON. -/
def readJson (text : Text) : Except Stop Value :=
  match Json.parse text with
  | .ok v => .ok v
  | .error fault =>
    if (Error.json fault).isRefusal then .error .usage else .error (.broken (.json fault))

/-- Gives a flag its value. -/
def setFlag (p : Parse) (flag : Flag) (text : Text) : Except Stop Parse :=
  match flag with
  | .help => .error .usage
  | .select => do return { p with select := ← readJson text }
  | .options => do return { p with options := ← readJson text }
  | .metadata => .ok { p with metadata := some text }
  | .values => do return { p with values := ← readJson text }
  | .id => .ok { p with rowId := .str text }
  | .patch => do return { p with patch := ← readJson text }

/-- Gives a flag the empty list; an empty list names no metadata file. -/
def clearFlag (p : Parse) (flag : Flag) : Except Stop Parse :=
  match flag with
  | .help => .error .usage
  | .select => .ok { p with select := .arr [] }
  | .options => .ok { p with options := .arr [] }
  | .metadata => .ok { p with metadata := none }
  | .values => .ok { p with values := .arr [] }
  | .id => .ok { p with rowId := .arr [] }
  | .patch => .ok { p with patch := .arr [] }

/-- Takes a flag that carries its value. -/
def setAttached (p : Parse) (flag : Flag) (text : Text) : Except Stop Parse :=
  if text = separatorMark then p.clearFlag flag else p.setFlag flag text

/-- What the short help flag comes to: help, if nothing is written in one with
it but itself again, with or without an equals sign. -/
def helpStop (more : Text) : Stop :=
  let repeats (t : Text) := t.all (· == .char 'h')
  match more with
  | .char '=' :: again => if !again.isEmpty && repeats again then .help else .usage
  | more => if repeats more then .help else .usage

/-- Takes a value that belongs to no flag.  The text `--` is such a value only
with a separator of its own before it; without one the table stays without a
name. -/
def setValue (p : Parse) (text : Text) : Except Stop Parse :=
  let p' := { p with led := false, trailed := true }
  match p.operation, p.table with
  | none, _ =>
    match Operation.ofText? text with
    | some o => .ok { p' with operation := some o }
    | none => .error .usage
  | some _, none =>
    let table := if text = separatorMark && !p.led then Key.stray (.arr []) else .name text
    .ok { p' with table := some table }
  | some _, some _ => .ok { p with extra := true }

/-- Takes a separator: it trails the value before it or leads the next one, or
is left over. -/
def setSeparator (p : Parse) : Parse :=
  if p.trailed then { p with trailed := false }
  else if p.table.isNone then { p with led := true }
  else { p with extra := true }

/-- Goes over the words. -/
def run (p : Parse) : List Word → Except Stop Parse
  | [] => .ok p
  | .value text :: rest => do (← p.setValue text).run rest
  | .separator :: rest => p.setSeparator.run rest
  | .unknownFlag :: rest => run { p with extra := true, trailed := false } rest
  | .flag flag (some text) :: rest => do
    let p ← p.setAttached flag text
    run { p with trailed := false } rest
  | .helps more :: _ => .error (helpStop more)
  | .flag .help none :: _ => .error .help
  | .flag flag none :: .value text :: rest => do
    let p ← p.setFlag flag text
    run { p with trailed := false } rest
  | .flag _ none :: _ => .error .usage

/-- What the command line asks for, if nothing is missing or left over. -/
def finish (p : Parse) : Except Stop Arguments :=
  match p.extra, p.operation, p.table with
  | false, some operation, some table => .ok {
      operation, table, select := p.select, options := p.options, metadata := p.metadata
      values := p.values, rowId := p.rowId, patch := p.patch }
  | _, _, _ => .error .usage

end Parse

def readArguments (args : List Text) : Except Stop Arguments :=
  match wordsOf args with
  | none => .error .usage
  | some words => do
    let p ← Parse.run {} words
    p.finish

end GraphDoc.CommandLine
