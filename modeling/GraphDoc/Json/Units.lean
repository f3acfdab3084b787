import GraphDoc.Json.Token
import GraphDoc.Text.Encoding

/-!
# GraphDoc.Json.Units

The text of a JSON text that comes as bytes.

A JSON text starts with ASCII characters, so the zero bytes among its first four
tell how it is written: in UTF-8, which has none, or in units of two or four
bytes, the byte that counts most in front or at the end.  `Units.ofBytes` reads
that off, and `spelled?` gives the text.
-/

namespace GraphDoc.Json

/-! ## units -/

/-- How the bytes of a text make up its units. -/
inductive Units where
  | single
  | pairs (highFirst : Bool)
  | quads (highFirst : Bool)
  deriving DecidableEq, Repr

/-- The units of a JSON text. -/
def Units.ofBytes : List UInt8 → Units
  | [0, _] => .pairs true
  | [_, 0] => .pairs false
  | 0 :: b :: _ :: _ :: _ => if b = 0 then .quads true else .pairs true
  | _ :: 0 :: c :: d :: _ => if c = 0 && d = 0 then .quads false else .pairs false
  | _ => .single

/-- The number that bytes make, the one that counts most in front. -/
def bytesNumber (bytes : List UInt8) : Nat := bytes.foldl (fun n b => 256 * n + b.toNat) 0

/-- The number of one unit. -/
def unitNumber (highFirst : Bool) (bytes : List UInt8) : Nat :=
  bytesNumber (if highFirst then bytes else bytes.reverse)

/-- The numbers of units of two bytes, if no byte is left over. -/
def pairNumbers? (highFirst : Bool) : List UInt8 → Option (List Nat)
  | [] => some []
  | a :: b :: rest => (pairNumbers? highFirst rest).map (unitNumber highFirst [a, b] :: ·)
  | [_] => none

/-- The numbers of units of four bytes, if no byte is left over. -/
def quadNumbers? (highFirst : Bool) : List UInt8 → Option (List Nat)
  | [] => some []
  | a :: b :: c :: d :: rest =>
    (quadNumbers? highFirst rest).map (unitNumber highFirst [a, b, c, d] :: ·)
  | _ => none

/-! ## text -/

/-- The text of units of two bytes; the two halves of a pair make one
character, and a half without the other stands for itself. -/
def joined : List Nat → Text
  | high :: low :: rest =>
    if isHighSurrogate high && isLowSurrogate low then .char (pairChar high low) :: joined rest
    else .ofCode high :: joined (low :: rest)
  | [code] => [.ofCode code]
  | [] => []

/-- The text of numbers each of which is a code point. -/
def points? (codes : List Nat) : Option Text :=
  if codes.all (· < 0x110000) then some (codes.map .ofCode) else none

/-- Text without a byte order mark at its start. -/
def withoutMark (t : Text) : Text :=
  if t.head? = some (.char '\uFEFF') then t.tail else t

/-- The JSON text that the UTF-8 bytes of `t` spell; there is none if bytes are
left over or a unit is no code point. -/
def spelled? (t : Text) : Option Text :=
  let bytes := t.shown.toUTF8.toList
  match Units.ofBytes bytes with
  | .single => some (withoutMark t)
  | .pairs highFirst => (pairNumbers? highFirst bytes).map joined
  | .quads highFirst => (quadNumbers? highFirst bytes).bind points?

end GraphDoc.Json
