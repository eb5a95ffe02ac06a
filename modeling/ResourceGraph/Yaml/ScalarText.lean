import ResourceGraph.Yaml.Cursor
import ResourceGraph.Yaml.Scalar
import ResourceGraph.Text.Width
import ResourceGraph.Yaml.Token.Basic

/-!
# Writing scalars

A text is written plain where it reads back as the same text, and otherwise between single quotes,
between double quotes, or, if it holds line feeds, as a literal. Which styles a text admits is read
off its characters: the first one, blanks and breaks at its ends and beside each other, and those
that can only be escaped.
-/

set_option autoImplicit false

namespace ResourceGraph.Yaml

namespace ScalarText

/-! ## What a text admits -/

/-- Whether a character stands for itself in every style. -/
def isShown (c : Char) : Bool :=
  let n := c.toNat
  n == 0xA || (0x20 ≤ n && n ≤ 0x7E) || (0xA0 ≤ n && n ≤ 0xFFFD && n != 0xFEFF) || 0x10000 ≤ n

/-- Whether two characters that pass two tests stand beside each other. -/
def hasPair (p q : Char → Bool) : List Char → Bool
  | a :: b :: rest => (p a && q b) || hasPair p q (b :: rest)
  | _ => false

/-- Whether a text begins with a character or a mark that would not begin a plain scalar. -/
def beginsMarked : List Char → Bool
  | '-' :: '-' :: '-' :: _ => true
  | '.' :: '.' :: '.' :: _ => true
  | c :: rest =>
    ['#', ',', '[', ']', '\x7b', '\x7d', '&', '*', '!', '|', '>', '\'', '"', '%', '@',
        '\x60'].contains c || (['?', ':', '-'].contains c && startsSeparated rest)
  | [] => false

/-- Whether a text holds a colon before a blank or its end, or a `#` after a blank. -/
def holdsMark : List Char → Bool
  | [] => false
  | a :: rest =>
    (a == ':' && startsSeparated rest) || (isSeparation a && rest.head? == some '#') ||
      holdsMark rest

/-- Whether a text may be written plain. -/
def admitsPlain (cs : List Char) : Bool :=
  !cs.any isBreak && cs.all isShown && cs.head? != some ' ' && cs.getLast? != some ' ' &&
    !beginsMarked cs && !holdsMark cs

/-- Whether a text may be written between single quotes. -/
def admitsSingleQuoted (cs : List Char) : Bool :=
  cs.all isShown && !hasPair isBreak (· == ' ') cs && !hasPair (· == ' ') isBreak cs

/-- Whether a text may be written as a literal. -/
def admitsLiteral (cs : List Char) : Bool :=
  !cs.isEmpty && cs.all isShown && cs.getLast? != some ' ' && !hasPair (· == ' ') isBreak cs

/-- Whether a text would read back as the text it is if it were written plain. -/
def readsAsText (cs : List Char) : Bool := Scalar.ofPlain cs == .text && !Scalar.hasLeadingZeros cs

/-- The style in which a text is written; keys on one line are never literals. -/
def styleOf (cs : List Char) : ScalarStyle :=
  if cs.contains '\n' then (if admitsLiteral cs then .literal else .doubleQuoted)
  else if readsAsText cs && admitsPlain cs then .plain
  else if admitsSingleQuoted cs then .singleQuoted
  else .doubleQuoted

/-! ## The styles -/

/-- The spaces up to a column. -/
def spaces (n : Nat) : List Char := List.replicate n ' '

/-- The text between single quotes, with the quotes doubled; after a line break the text goes on at
a column, given whether a break was just written. -/
def singleQuotedBody (column : Nat) : Bool → List Char → List Char
  | broken, [] => if broken then spaces column else []
  | broken, c :: cs =>
    if c == ' ' then c :: singleQuotedBody column broken cs
    else if isBreak c then c :: singleQuotedBody column true cs
    else
      (if broken then spaces column else []) ++ (if c == '\'' then ['\'', '\''] else [c]) ++
        singleQuotedBody column false cs

/-- A hexadecimal digit in upper case. -/
def hexDigit (n : Nat) : Char :=
  let d := n % 16
  if d < 10 then Char.ofNat ('0'.toNat + d) else Char.ofNat ('A'.toNat + (d - 10))

/-- The last `n` hexadecimal digits of a number. -/
def hexDigits : Nat → Nat → List Char
  | 0, _ => []
  | n + 1, value => hexDigits n (value / 16) ++ [hexDigit value]

/-- The letter of an escape. -/
def escapeLetter? (c : Char) : Option Char :=
  match c.toNat with
  | 0x00 => some '0'
  | 0x07 => some 'a'
  | 0x08 => some 'b'
  | 0x09 => some 't'
  | 0x0A => some 'n'
  | 0x0B => some 'v'
  | 0x0C => some 'f'
  | 0x0D => some 'r'
  | 0x1B => some 'e'
  | 0x22 => some '"'
  | 0x5C => some '\\'
  | 0x85 => some 'N'
  | 0xA0 => some '_'
  | 0x2028 => some 'L'
  | 0x2029 => some 'P'
  | _ => none

/-- An escape. -/
def escape (c : Char) : List Char :=
  match escapeLetter? c with
  | some letter => ['\\', letter]
  | none =>
    if c.toNat ≤ 0xFF then '\\' :: 'x' :: hexDigits 2 c.toNat
    else if c.toNat ≤ 0xFFFF then '\\' :: 'u' :: hexDigits 4 c.toNat
    else '\\' :: 'U' :: hexDigits 8 c.toNat

/-- A character between double quotes. -/
def doubleQuotedChar (c : Char) : List Char :=
  if !isShown c || isBreak c || c == '"' || c == '\\' then escape c else [c]

/-- The lines of a literal, indented to a column where a line has text. -/
def literalBody (column : Nat) : Bool → List Char → List Char
  | _, [] => []
  | atStart, c :: cs =>
    if isBreak c then c :: literalBody column true cs
    else (if atStart then spaces column else []) ++ c :: literalBody column false cs

/-- The chomping indicator of a literal, from the text in reverse: none for one line break at the
end. -/
def chomping : List Char → List Char
  | [] => ['-']
  | [c] => if isBreak c then ['+'] else ['-']
  | c :: b :: _ => if !isBreak c then ['-'] else if isBreak b then ['+'] else []

/-- The header of a literal; the indentation is stated if the text begins with a blank or a break.
-/
def literalHeader (cs : List Char) : List Char :=
  '|' :: (if cs.head?.any fun c => c == ' ' || isBreak c then ['2'] else []) ++ chomping cs.reverse

/-- A text in a style; further lines go on at a column. -/
def written (column : Nat) (style : ScalarStyle) (cs : List Char) : List Char :=
  match style with
  | .singleQuoted => '\'' :: singleQuotedBody column false cs ++ ['\'']
  | .doubleQuoted => '"' :: cs.flatMap doubleQuotedChar ++ ['"']
  | .literal => literalHeader cs ++ '\n' :: literalBody column true cs
  | _ => cs

/-- A text as a scalar; further lines go on at a column. -/
def ofText (column : Nat) (cs : List Char) : List Char := written column (styleOf cs) cs

/-- Whether a text may be a key without an indicator: on one line, and at most 128 bytes long. -/
def isSimpleKey (cs : List Char) : Bool := !cs.any isBreak && Text.bytes cs ≤ 128

end ScalarText

end ResourceGraph.Yaml
