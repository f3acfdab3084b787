import GraphDoc.Text.Quoted

/-!
# GraphDoc.Text.Encoding

Text as UTF-8 bytes.

A surrogate on its own has no UTF-8 bytes.  `Text.utf8` gives the bytes of a
text that is free of them, and else the first `Gap`, where some stand.

The name of a file may be any bytes.  A byte beyond ASCII that is no part of a
character then stands in the text as one of the surrogates from `0xDC80` to
`0xDCFF`, so that these do no harm in a path.
-/

namespace GraphDoc

namespace CodePoint

def isSurrogate (c : CodePoint) : Bool := c.char?.isNone

/-- Whether a code point stands for a byte beyond ASCII. -/
def isByte (c : CodePoint) : Bool := 0xDC80 ≤ c.code && c.code ≤ 0xDCFF

end CodePoint

namespace Text

/-- Whether a text has UTF-8 bytes. -/
def isEncodable (t : Text) : Bool := !t.any CodePoint.isSurrogate

/-- Surrogates in a row: how many code points stand before them, the first of
them, and their number. -/
structure Gap where
  start : Nat
  first : CodePoint
  size : Nat
  deriving DecidableEq, Repr

/-- The first surrogates of a text that starts at `here`, other than those that
are tolerated. -/
def gap? (tolerated : CodePoint → Bool) (here : Nat) : Text → Option Gap
  | [] => none
  | c :: rest =>
    if c.isSurrogate && !tolerated c then
      some ⟨here, c, (rest.takeWhile CodePoint.isSurrogate).length + 1⟩
    else gap? tolerated (here + 1) rest

/-- The UTF-8 bytes of a text, or the first gap. -/
def utf8 (t : Text) : Except Gap (List UInt8) :=
  match t.gap? (fun _ => false) 0 with
  | some gap => .error gap
  | none => .ok t.shown.toUTF8.toList

/-- The message that a gap gives rise to. -/
def Gap.message (g : Gap) : Text :=
  let place :=
    if g.size = 1 then " '" ++ codeEscape g.first ++ "' in position " ++ ofNat g.start
    else "s in position " ++ ofNat g.start ++ "-" ++ ofNat (g.start + g.size - 1)
  "'utf-8' codec can't encode character" ++ place ++ ": surrogates not allowed"

end Text

end GraphDoc
