import GraphDoc.Text.Encoding

/-!
# GraphDoc.Service.Target

The target of an HTTP request: a path, and behind a question mark the fields of
a query.  What follows a number sign belongs to neither.

A percent sign with two hexadecimal digits stands for a byte.  Bytes are read
as UTF-8; where they are none, the replacement character stands for the longest
start of a character, or for the one byte that starts none.
-/

namespace GraphDoc.Service

/-! ## bytes behind percent signs -/

def hexValue? (b : UInt8) : Option UInt8 :=
  if 0x30 ≤ b && b ≤ 0x39 then some (b - 0x30)
  else if 0x41 ≤ b && b ≤ 0x46 then some (b - 0x37)
  else if 0x61 ≤ b && b ≤ 0x66 then some (b - 0x57)
  else none

/-- Bytes with every percent sign and its two digits as the byte that they
stand for. -/
def percentDecoded : List UInt8 → List UInt8
  | 0x25 :: high :: low :: rest =>
    match hexValue? high, hexValue? low with
    | some h, some l => (16 * h + l) :: percentDecoded rest
    | _, _ => 0x25 :: percentDecoded (high :: low :: rest)
  | b :: rest => b :: percentDecoded rest
  | [] => []

/-! ## UTF-8 -/

/-- A character that is not complete: its bits so far, how many bytes are still
to come, and the bounds of the next one. -/
structure Pending where
  bits : Nat
  missing : Nat
  least : UInt8 := 0x80
  most : UInt8 := 0xBF

/-- What the first byte of a character says: a whole character, the start of
one, or nothing. -/
def lead (b : UInt8) : Except CodePoint (Option Pending) :=
  if b < 0x80 then .error (.ofCode b.toNat)
  else if b < 0xC2 then .ok none
  else if b < 0xE0 then .ok (some { bits := b.toNat - 0xC0, missing := 1 })
  else if b = 0xE0 then .ok (some { bits := 0, missing := 2, least := 0xA0 })
  else if b = 0xED then .ok (some { bits := 13, missing := 2, most := 0x9F })
  else if b < 0xF0 then .ok (some { bits := b.toNat - 0xE0, missing := 2 })
  else if b = 0xF0 then .ok (some { bits := 0, missing := 3, least := 0x90 })
  else if b < 0xF4 then .ok (some { bits := b.toNat - 0xF0, missing := 3 })
  else if b = 0xF4 then .ok (some { bits := 4, missing := 3, most := 0x8F })
  else .ok none

def replacement : CodePoint := '\uFFFD'

/-- What a byte comes to that starts afresh: text that is complete, and a
character that is not. -/
def start (b : UInt8) : Text × Option Pending :=
  match lead b with
  | .error c => ([c], none)
  | .ok (some p) => ([], some p)
  | .ok none => ([replacement], none)

/-- What a byte comes to behind the start of a character. -/
def Pending.next (p : Pending) (b : UInt8) : Text × Option Pending :=
  if p.least ≤ b && b ≤ p.most then
    let bits := 64 * p.bits + (b.toNat - 0x80)
    if p.missing ≤ 1 then ([.ofCode bits], none) else ([], some { bits, missing := p.missing - 1 })
  else
    let again := start b
    (replacement :: again.1, again.2)

/-- The text of bytes, behind the start of a character if there is one. -/
def decodeFrom (pending : Option Pending) : List UInt8 → Text
  | [] => if pending.isSome then [replacement] else []
  | b :: rest =>
    let r := match pending with
      | some p => p.next b
      | none => start b
    r.1 ++ decodeFrom r.2 rest

/-- The text of bytes. -/
def decoded (bytes : List UInt8) : Text := decodeFrom none bytes

/-- Text with the bytes behind percent signs put in their place. -/
def unescaped (t : Text) : Text := decoded (percentDecoded t.shown.toUTF8.toList)

/-! ## targets -/

/-- Text before and behind the first separator; nothing behind where there is
none. -/
def splitFirst (separator : Char) (t : Text) : Text × Text :=
  (t.takeWhile (· ≠ .char separator), (t.dropWhile (· ≠ .char separator)).tail)

/-- A field of a query: its name and its value. -/
def queryField (t : Text) : Text × Text :=
  let plain (t : Text) := unescaped (t.map fun c : CodePoint => if c = '+' then ' ' else c)
  let parts := splitFirst '=' t
  (plain parts.1, plain parts.2)

/-- A path and the fields of a query. -/
structure Target where
  path : Text
  query : List (Text × Text)

def Target.ofText (t : Text) : Target :=
  let parts := splitFirst '?' (splitFirst '#' t).1
  ⟨unescaped parts.1,
    ((parts.2.parts '&').filter fun field => !field.isEmpty).map queryField⟩

end GraphDoc.Service
