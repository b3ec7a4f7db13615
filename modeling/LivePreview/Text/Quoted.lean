/-!
Quoted text in the form of a JSON string: a quotation mark, a backslash and the control characters
below U+0020 are escaped, everything else stands for itself.
-/

namespace LivePreview.Text

/-- The digit of a value below sixteen, in lower case. -/
def hexDigit (n : Nat) : Char := if n < 10 then Char.ofNat (48 + n) else Char.ofNat (87 + n)

/-- How one character is written between quotation marks. -/
def escape (c : Char) : List Char :=
  if c = '"' then ['\\', '"']
  else if c = '\\' then ['\\', '\\']
  else if c = '\x08' then ['\\', 'b']
  else if c = '\x0c' then ['\\', 'f']
  else if c = '\n' then ['\\', 'n']
  else if c = '\r' then ['\\', 'r']
  else if c = '\t' then ['\\', 't']
  else if c.toNat < 0x20 then
    ['\\', 'u', '0', '0', hexDigit (c.toNat / 16), hexDigit (c.toNat % 16)]
  else [c]

/-- The quoted form of a text. -/
def quote (text : List Char) : List Char := '"' :: text.flatMap escape ++ ['"']

/-- The quoted form of a string. -/
def quoted (s : String) : String := String.ofList (quote s.toList)

end LivePreview.Text
