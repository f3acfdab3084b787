import GraphDoc.Text.Basic
import GraphDoc.Text.PrintableTable

/-!
# GraphDoc.Text.Quoted

Text as a quoted literal, the way messages show a value that was given.

Single quotes enclose the literal, double quotes where the text holds a single
quote and no double one.  A backslash and the enclosing quote are escaped by a
backslash; line feed, carriage return and tab have letters; every other
code point that does not print is written by its number in two, four or eight
hexadecimal digits.
-/

namespace GraphDoc.Text

/-- Whether a code point shows as itself. -/
def printable (c : CodePoint) : Bool :=
  let code := c.code
  if code < 127 then 32 ≤ code
  else !(unprintableRanges.any fun r => r.1 ≤ code && code ≤ r.2)

/-- `n` in hexadecimal digits, at least `width` of them. -/
def hexadecimal (width n : Nat) : Text :=
  let digits := Nat.toDigits 16 n
  ofChars (List.replicate (width - digits.length) '0' ++ digits)

/-- A code point by its number. -/
def codeEscape (c : CodePoint) : Text :=
  let code := c.code
  if code < 0x100 then "\\x" ++ hexadecimal 2 code
  else if code < 0x10000 then "\\u" ++ hexadecimal 4 code
  else "\\U" ++ hexadecimal 8 code

/-- One code point of a literal enclosed in `quote`. -/
def quotedPoint (quote c : CodePoint) : Text :=
  if c = quote ∨ c = '\\' then ['\\', c]
  else if c = '\n' then "\\n"
  else if c = '\r' then "\\r"
  else if c = '\t' then "\\t"
  else if printable c then [c]
  else codeEscape c

/-- The quote that encloses a literal. -/
def quoteFor (t : Text) : CodePoint :=
  if t.contains '\'' && !t.contains '"' then '"' else '\''

def quoted (t : Text) : Text :=
  let q := quoteFor t
  q :: t.flatMap (quotedPoint q) ++ [q]

end GraphDoc.Text
