/-
Quoted strings of JSON documents. Quotation marks, backslashes and the
characters below U+0020 are escaped, everything else stands for itself.
-/
import SchemaAtlas.Text.Hex

namespace SchemaAtlas

namespace Json

/-- What is written for one character of a string. -/
def escape (c : Char) : Text :=
  if c = '"' then ['\\', '"']
  else if c = '\\' then ['\\', '\\']
  else if c = '\x08' then ['\\', 'b']
  else if c = '\t' then ['\\', 't']
  else if c = '\n' then ['\\', 'n']
  else if c = '\x0c' then ['\\', 'f']
  else if c = '\r' then ['\\', 'r']
  else if c.toNat < 0x20 then
    ['\\', 'u', '0', '0', Text.hexDigit (c.toNat / 16), Text.hexDigit (c.toNat % 16)]
  else [c]

/-- A string between quotation marks. -/
def quote (t : Text) : Text :=
  '"' :: t.flatMap escape ++ ['"']

end Json

end SchemaAtlas
