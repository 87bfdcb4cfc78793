import Vetting.Text.Printable

/-!
# Quoted texts

Two written forms of a text. `Text.quoted` stands in messages: it picks the quote that needs no
escape and escapes what is not printable. `Text.jsonString` is a JSON string that keeps every
code point it may keep.
-/

namespace Vetting.Text

/-- An escape such as `\x0a`, `\u200b` or `\U000e0001`, as short as the code point allows. -/
def numericEscape (c : CodePoint) : Text :=
  if c < 0x100 then "\\x" ++ hex 2 c
  else if c < 0x10000 then "\\u" ++ hex 4 c
  else "\\U" ++ hex 8 c

def quotedPoint (quote : CodePoint) (c : CodePoint) : Text :=
  if c = quote || c = 92 then ⟨[92, c]⟩
  else if c = 9 then "\\t"
  else if c = 10 then "\\n"
  else if c = 13 then "\\r"
  else if CodePoint.isPrintable c then singleton c
  else numericEscape c

/-- Single quotes, unless the text holds a single quote and no double quote. -/
def quoted (t : Text) : Text :=
  let quote := if t.points.contains 39 && !t.points.contains 34 then 34 else 39
  singleton quote ++ concat (t.points.map (quotedPoint quote)) ++ singleton quote

def jsonPoint (c : CodePoint) : Text :=
  if c = 34 then "\\\""
  else if c = 92 then "\\\\"
  else if c = 10 then "\\n"
  else if c = 13 then "\\r"
  else if c = 9 then "\\t"
  else if c = 12 then "\\f"
  else if c = 8 then "\\b"
  else if c < 32 then "\\u" ++ hex 4 c
  else singleton c

/-- A JSON string; only quotes, backslashes and control characters below the space are escaped. -/
def jsonString (t : Text) : Text :=
  singleton 34 ++ concat (t.points.map jsonPoint) ++ singleton 34

end Vetting.Text
