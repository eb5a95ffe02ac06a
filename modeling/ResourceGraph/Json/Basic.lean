/-!
# JSON text

JSON values with ordered members, and their compact and indented written forms. Numbers are held as
the text to write. In strings a quote, a backslash and the control characters below U+0020 are
escaped, the common ones by a letter and the others by four hexadecimal digits; all else stands as
it is.
-/

set_option autoImplicit false

namespace ResourceGraph

/-- A JSON value. -/
inductive Json where
  | null
  | bool (b : Bool)
  | number (text : String)
  | string (s : String)
  | array (items : List Json)
  | object (members : List (String × Json))

namespace Json

/-- A hexadecimal digit in lower case. -/
def hexDigit (n : Nat) : Char := Nat.digitChar (n % 16)

/-- One character of a string literal. -/
def escapeChar (c : Char) : List Char :=
  if c = '"' then ['\\', '"']
  else if c = '\\' then ['\\', '\\']
  else if c = '\n' then ['\\', 'n']
  else if c = '\r' then ['\\', 'r']
  else if c = '\t' then ['\\', 't']
  else if c = '\x08' then ['\\', 'b']
  else if c = '\x0c' then ['\\', 'f']
  else if c.toNat < 0x20 then
    ['\\', 'u', '0', '0', hexDigit (c.toNat / 16), hexDigit c.toNat]
  else [c]

/-- A string literal. -/
def quote (s : String) : String :=
  String.ofList ('"' :: s.toList.flatMap escapeChar ++ ['"'])

/-- The literal of a truth value. -/
def boolText (b : Bool) : String := if b then "true" else "false"

mutual

/-- The written form without any white space. -/
def compact : Json → String
  | null => "null"
  | bool b => boolText b
  | number text => text
  | string s => quote s
  | array items => "[" ++ compactItems items ++ "]"
  | object members => "\x7b" ++ compactMembers members ++ "\x7d"

/-- The elements of an array, with commas between them. -/
def compactItems : List Json → String
  | [] => ""
  | [item] => compact item
  | item :: rest => compact item ++ "," ++ compactItems rest

/-- The members of an object, with commas between them. -/
def compactMembers : List (String × Json) → String
  | [] => ""
  | [(key, value)] => quote key ++ ":" ++ compact value
  | (key, value) :: rest => quote key ++ ":" ++ compact value ++ "," ++ compactMembers rest

end

/-- A line break and the indentation of a depth, two columns each. -/
def breakAt (depth : Nat) : String :=
  String.ofList ('\n' :: List.replicate (2 * depth) ' ')

mutual

/-- The written form with one element or member a line, for a value at a depth. -/
def indentedAt (depth : Nat) : Json → String
  | null => "null"
  | bool b => boolText b
  | number text => text
  | string s => quote s
  | array [] => "[]"
  | array items => "[" ++ indentedItems (depth + 1) items ++ breakAt depth ++ "]"
  | object [] => "\x7b\x7d"
  | object members => "\x7b" ++ indentedMembers (depth + 1) members ++ breakAt depth ++ "\x7d"

/-- The elements of an array, each on a line of its own. -/
def indentedItems (depth : Nat) : List Json → String
  | [] => ""
  | [item] => breakAt depth ++ indentedAt depth item
  | item :: rest => breakAt depth ++ indentedAt depth item ++ "," ++ indentedItems depth rest

/-- The members of an object, each on a line of its own. -/
def indentedMembers (depth : Nat) : List (String × Json) → String
  | [] => ""
  | [(key, value)] => breakAt depth ++ quote key ++ ": " ++ indentedAt depth value
  | (key, value) :: rest =>
    breakAt depth ++ quote key ++ ": " ++ indentedAt depth value ++ "," ++
      indentedMembers depth rest

end

/-- The written form with one element or member a line. -/
def indented (j : Json) : String := indentedAt 0 j

end Json

end ResourceGraph
