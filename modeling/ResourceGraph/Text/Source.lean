import ResourceGraph.Text.Entry
import ResourceGraph.Text.Position

/-!
# Source text

A source is a text together with its lines. A line feed ends a line and one carriage return before
it belongs to the line break; a trailing line break opens no further line, and the empty text has no
lines. Positions past a line clamp to its end, positions past the last line to the end of the text.
-/

set_option autoImplicit false

namespace ResourceGraph

namespace Text

/-- The lines of a text, each with the line feed that ends it. -/
def rawLines : List Char → List (List Char)
  | [] => []
  | c :: cs =>
    if c = '\n' then [c] :: rawLines cs
    else match rawLines cs with
      | [] => [[c]]
      | l :: ls => (c :: l) :: ls

/-- A line without the line feed at its end and the carriage return before that. -/
def stripBreak : List Char → Line
  | [] => []
  | ['\n'] => []
  | ['\r', '\n'] => []
  | c :: cs => c :: stripBreak cs

/-- The lines of a text, without their line breaks. -/
def splitLines (text : List Char) : List Line := (rawLines text).map stripBreak

/-- Whether a character is a line feed or a carriage return. -/
def isLineEnd (c : Char) : Bool := c == '\n' || c == '\r'

/-- The byte offset of a position, given the raw lines from the one numbered `n` on. -/
def offsetInLines : List (List Char) → Nat → Nat → Nat
  | [], _, _ => 0
  | l :: _, 0, column => columnOffset column (dropTail isLineEnd l)
  | l :: ls, n + 1, column => bytes l + offsetInLines ls n column

/-- The byte offset of a position in a text. -/
def offsetAt (text : List Char) (p : Position) : Nat :=
  offsetInLines (rawLines text) p.line p.character

/-- A line up to the first space that a `#` follows. -/
def cutComment : List Char → List Char
  | [] => []
  | ' ' :: '#' :: _ => []
  | c :: cs => c :: cutComment cs

end Text

/-- A text with its lines and the entries among them. -/
structure Source where
  text : String
  lines : List Line
  entries : List Entry
  lines_eq : lines = Text.splitLines text.toList
  entries_eq : entries = Entry.ofLines 0 lines

namespace Source

open Text

/-- The source with the given text. -/
def ofString (text : String) : Source :=
  let lines := splitLines text.toList
  ⟨text, lines, Entry.ofLines 0 lines, rfl, rfl⟩

/-- The number of lines. -/
def lineCount (s : Source) : Nat := s.lines.length

/-- Whether there is no line. -/
def isEmpty (s : Source) : Bool := s.lines.isEmpty

/-- The line with the given number. -/
def line? (s : Source) (n : Nat) : Option Line := s.lines[n]?

/-- The position that stands for "not found": the start of the line after the last one. -/
def endPosition (s : Source) : Position := ⟨s.lineCount, 0⟩

/-- The position after the last character of a line. -/
def lineEnd (s : Source) (n : Nat) : Position := ⟨n, ((s.line? n).map units).getD 0⟩

/-- A whole line as a range. -/
def lineRange (s : Source) (n : Nat) : Range := ⟨⟨n, 0⟩, s.lineEnd n⟩

/-- The scalar written from a position to the end of its line, with the position of its first
character. Indenting blanks before it and a comment after it are left out. -/
def valueAt? (s : Source) (p : Position) : Option (Position × List Char) :=
  (s.line? p.line).map fun line =>
    let rest := fromColumn p.character line
    let value := rest.dropWhile isIndent
    (p.advance (units (rest.takeWhile isIndent)), trimEnd (cutComment value))

/-- The byte offset of a position in the text. -/
def offsetAt (s : Source) (p : Position) : Nat := Text.offsetAt s.text.toList p

end Source

end ResourceGraph
