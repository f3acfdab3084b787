import GraphDoc.Value.Basic

/-!
# GraphDoc.Json.Token

The tokens of a JSON text, each with the place where it starts.

Reading never fails here: a text literal that breaks off or holds something it
must not becomes a `broken` token, an integer of too many digits becomes an
`overlong` one, any other code point that starts no token becomes `junk`, and
what they mean is decided by the parser, which knows what it was waiting for.
The last token is always `finish`.
-/

namespace GraphDoc.Json

/-- What can be wrong with a JSON text. -/
inductive Problem where
  | expectingValue
  | expectingName
  | expectingColon
  | expectingComma
  | unterminatedText
  | controlCharacter
  | unknownEscape
  | codeEscape
  | trailingData
  | byteOrderMark
  | overlongInteger (digits : Nat)
  | deepNesting
  deriving DecidableEq, Repr

/-- A problem and the number of code points before it. -/
structure Fault where
  problem : Problem
  offset : Nat
  deriving DecidableEq, Repr

inductive Token where
  | openObject
  | closeObject
  | openArray
  | closeArray
  | colon
  | comma
  | text (t : Text)
  | scalar (v : Value)
  | broken (fault : Fault)
  | overlong (digits : Nat)
  | junk
  | finish

/-- A token and the number of code points before it. -/
structure Located where
  token : Token
  offset : Nat

/-! ## text literals -/

def hexDigit? : CodePoint → Option Nat
  | .char c =>
    if '0' ≤ c ∧ c ≤ '9' then some (c.toNat - '0'.toNat)
    else if 'a' ≤ c ∧ c ≤ 'f' then some (c.toNat - 'a'.toNat + 10)
    else if 'A' ≤ c ∧ c ≤ 'F' then some (c.toNat - 'A'.toNat + 10)
    else none
  | .surrogate _ => none

def hex4? (a b c d : CodePoint) : Option Nat := do
  let a ← hexDigit? a
  let b ← hexDigit? b
  let c ← hexDigit? c
  let d ← hexDigit? d
  return ((a * 16 + b) * 16 + c) * 16 + d

/-- The first half of a pair of code units. -/
def isHighSurrogate (code : Nat) : Bool := 0xD800 ≤ code && code < 0xDC00

/-- The second half of a pair of code units. -/
def isLowSurrogate (code : Nat) : Bool := 0xDC00 ≤ code && code < 0xE000

/-- The character of a pair of code units. -/
def pairChar (high low : Nat) : Char :=
  Char.ofNat (0x10000 + (high - 0xD800) * 0x400 + (low - 0xDC00))

/-- The character that a letter stands for after a backslash. -/
def escapeChar? (c : CodePoint) : Option Char :=
  match c with
  | .char '"' => some '"'
  | .char '\\' => some '\\'
  | .char '/' => some '/'
  | .char 'b' => some '\x08'
  | .char 'f' => some '\x0c'
  | .char 'n' => some '\n'
  | .char 'r' => some '\r'
  | .char 't' => some '\t'
  | _ => none

/-- What stands at a place inside a text literal. -/
inductive Element where
  | close
  | point (c : CodePoint) (size : Nat)
  | fault (fault : Fault)

/-- The element of four hexadecimal digits at `here + 2`, behind a backslash
and a `u`.  A first half of a pair takes the second half along if that follows
and is not the end of the text; a half without the other stands for itself. -/
def unitElement (here : Nat) (a b c d : CodePoint) (rest : Text) : Element :=
  if rest.isEmpty then .fault ⟨.codeEscape, here + 1⟩
  else
    match hex4? a b c d, rest with
    | none, _ => .fault ⟨.codeEscape, here + 1⟩
    | some high, .char '\\' :: .char 'u' :: a' :: b' :: c' :: d' :: _ :: _ =>
      if isHighSurrogate high then
        match hex4? a' b' c' d' with
        | none => .fault ⟨.codeEscape, here + 7⟩
        | some low =>
          if isLowSurrogate low then .point (pairChar high low) 12
          else .point (.ofCode high) 6
      else .point (.ofCode high) 6
    | some code, _ => .point (.ofCode code) 6

/-- The element that starts with `c`; the literal itself starts at `start`. -/
def elementAt (start here : Nat) (c : CodePoint) (rest : Text) : Element :=
  match c, rest with
  | .char '"', _ => .close
  | .char '\\', .char 'u' :: a :: b :: c :: d :: rest => unitElement here a b c d rest
  | .char '\\', .char 'u' :: _ => .fault ⟨.codeEscape, here + 1⟩
  | .char '\\', e :: _ =>
    match escapeChar? e with
    | some c => .point c 2
    | none => .fault ⟨.unknownEscape, here⟩
  | .char '\\', [] => .fault ⟨.unterminatedText, start⟩
  | c, _ => if c.code < 32 then .fault ⟨.controlCharacter, here⟩ else .point c 1

/-- Reads a text literal after its opening quote, which stands at `start`.
`here` is the offset of the next code point, `skip` code points of which belong
to the element before, and `read` holds the text so far, last code point first.
Answers the text and the offset behind the closing quote. -/
def readText (start skip here : Nat) (read : Text) : Text → Except Fault (Text × Nat)
  | [] => .error ⟨.unterminatedText, start⟩
  | c :: rest =>
    match skip with
    | skip + 1 => readText start skip (here + 1) read rest
    | 0 =>
      match elementAt start here c rest with
      | .close => .ok (read.reverse, here + 1)
      | .point c size => readText start (size - 1) (here + 1) (c :: read) rest
      | .fault fault => .error fault

/-! ## numbers and words -/

/-- The most digits that an integer may have. -/
def maxIntegerDigits : Nat := 4300

def digitsValue (ds : List Char) : Nat :=
  ds.foldl (fun n d => n * 10 + (d.toNat - '0'.toNat)) 0

def leadingDigits : Text → List Char
  | .char c :: rest => if c.isDigit then c :: leadingDigits rest else []
  | _ => []

/-- The digits of an integer at the front: a zero alone or a run that starts
with another digit. -/
def integerDigits : Text → List Char
  | .char '0' :: _ => ['0']
  | t => leadingDigits t

/-- The digits of a fraction at the front, behind its point. -/
def fractionDigits : Text → List Char
  | .char '.' :: t => leadingDigits t
  | _ => []

/-- An exponent at the front: its value and its length, zero and zero where
there is none. -/
def exponentPart : Text → Int × Nat
  | e :: t =>
    if e = 'e' ∨ e = 'E' then
      let signed := match t with
        | .char '-' :: rest => (true, 1, rest)
        | .char '+' :: rest => (false, 1, rest)
        | rest => (false, 0, rest)
      let digits := leadingDigits signed.2.2
      if digits.isEmpty then (0, 0)
      else
        let size : Int := digitsValue digits
        (if signed.1 then -size else size, 1 + signed.2.1 + digits.length)
    else (0, 0)
  | [] => (0, 0)

def integerToken (negative : Bool) (digits : List Char) : Token :=
  if maxIntegerDigits < digits.length then .overlong digits.length
  else
    let n : Int := digitsValue digits
    .scalar (.int (if negative then -n else n))

/-- Reads a number without its sign: an integer, or a binary64 number as soon
as there is a fraction or an exponent.  Answers the token and its length. -/
def readMagnitude? (negative : Bool) (t : Text) : Option (Token × Nat) :=
  let whole := integerDigits t
  if whole.isEmpty then none
  else
    let behind := t.drop whole.length
    let fraction := fractionDigits behind
    let fractionSize := if fraction.isEmpty then 0 else fraction.length + 1
    let exponent := exponentPart (behind.drop fractionSize)
    let size := whole.length + fractionSize + exponent.2
    if fractionSize = 0 ∧ exponent.2 = 0 then some (integerToken negative whole, size)
    else
      let digits := digitsValue (whole ++ fraction)
      some (.scalar (.float (.ofDecimal negative digits (exponent.1 - fraction.length))), size)

/-- The words that are values. -/
def words : List (Text × Value) := [
  ("null", .null), ("true", .bool true), ("false", .bool false), ("NaN", .float .nan),
  ("Infinity", .float (.infinite false)), ("-Infinity", .float (.infinite true))]

/-- Reads a word or a number at the front. -/
def readScalar? (t : Text) : Option (Token × Nat) :=
  match words.find? (·.1.isPrefixOf t) with
  | some (word, v) => some (.scalar v, word.length)
  | none =>
    match t with
    | .char '-' :: rest => (readMagnitude? true rest).map fun r => (r.1, r.2 + 1)
    | _ => readMagnitude? false t

/-! ## tokens -/

def isBlank (c : CodePoint) : Bool := c = ' ' || c = '\t' || c = '\n' || c = '\r'

/-- The token that starts with `c`, and its length. -/
def tokenAt (here : Nat) (c : CodePoint) (rest : Text) : Token × Nat :=
  match c with
  | .char '\x7b' => (.openObject, 1)
  | .char '\x7d' => (.closeObject, 1)
  | .char '[' => (.openArray, 1)
  | .char ']' => (.closeArray, 1)
  | .char ':' => (.colon, 1)
  | .char ',' => (.comma, 1)
  | .char '"' =>
    match readText here 0 (here + 1) [] rest with
    | .ok (t, stop) => (.text t, stop - here)
    | .error fault => (.broken fault, 1)
  | c => (readScalar? (c :: rest)).getD (.junk, 1)

/-- The tokens of a text.  `skip` code points at the front belong to the token
before. -/
def tokens (skip here : Nat) : Text → List Located
  | [] => [⟨.finish, here⟩]
  | c :: rest =>
    match skip with
    | skip + 1 => tokens skip (here + 1) rest
    | 0 =>
      if isBlank c then tokens 0 (here + 1) rest
      else
        let t := tokenAt here c rest
        ⟨t.1, here⟩ :: tokens (t.2 - 1) (here + 1) rest

end GraphDoc.Json
