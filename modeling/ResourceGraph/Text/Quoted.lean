import ResourceGraph.Text.Printable

/-!
# Quoted text in messages

Text quoted in a message stands between double quotes. Quotes, backslashes and the common controls
are escaped by a letter, and other characters that cannot be shown by their code point in braces.
-/

set_option autoImplicit false

namespace ResourceGraph.Text

/-- A character as it stands in quoted text. -/
def quotedChar (c : Char) : List Char :=
  if c = '\x00' then ['\\', '0']
  else if c = '\t' then ['\\', 't']
  else if c = '\r' then ['\\', 'r']
  else if c = '\n' then ['\\', 'n']
  else if c = '"' then ['\\', '"']
  else if c = '\\' then ['\\', '\\']
  else if isPrintable c then [c]
  else '\\' :: 'u' :: '\x7b' :: Nat.toDigits 16 c.toNat ++ ['\x7d']

/-- A text between quotes. -/
def quoted (cs : List Char) : List Char := '"' :: cs.flatMap quotedChar ++ ['"']

end ResourceGraph.Text
