import ResourceGraph.Text.Source

/-!
# Edits

An edit replaces a range of a text; an insertion replaces an empty one. The edits of a list all
speak of the text before any of them. They are carried out from the last start to the first, so that
none moves the range of another.

A text can be cut only between its characters. `applyEdits?` fails at an edit whose range, carried
over to what the edits before it have left, begins or ends inside a character or past the end;
`applyEdits` cuts behind that character, or at the end.
-/

set_option autoImplicit false

namespace ResourceGraph

/-- The replacement of a range by a text. -/
structure TextEdit where
  range : Range
  newText : String
  deriving DecidableEq, Repr

namespace TextEdit

/-- The edit that inserts a text. -/
def insert (p : Position) (newText : String) : TextEdit := ⟨.point p, newText⟩

/-- Puts an edit into a list ordered from the last start to the first, before those with its start.
-/
def insertOrdered (e : TextEdit) : List TextEdit → List TextEdit
  | [] => [e]
  | f :: rest =>
    if f.range.start.isAtMost e.range.start then e :: f :: rest else f :: insertOrdered e rest

/-- A list of edits in the order in which they are carried out; of those with one start the first
goes first. -/
def ordered : List TextEdit → List TextEdit
  | [] => []
  | e :: rest => insertOrdered e (ordered rest)

/-- A text with the bytes from one offset to another replaced. -/
def splice (text : List Char) (start stop : Nat) (new : List Char) : List Char :=
  Text.takeBytes start text ++ new ++ Text.dropBytes stop text

/-- Carries out an edit on a text, with its range measured in the unedited one. -/
def applyTo (unedited text : List Char) (e : TextEdit) : List Char :=
  let start := Text.offsetAt unedited e.range.start
  let stop := max (Text.offsetAt unedited e.range.stop) start
  splice text start stop e.newText.toList

/-- A text with the bytes from one offset to another replaced, if it can be cut at both. -/
def splice? (text : List Char) (start stop : Nat) (new : List Char) : Option (List Char) :=
  if Text.isBoundary start text && Text.isBoundary stop text then some (splice text start stop new)
  else none

/-- Carries out an edit on a text that can be cut where its range begins and ends. -/
def applyTo? (unedited text : List Char) (e : TextEdit) : Option (List Char) :=
  let start := Text.offsetAt unedited e.range.start
  let stop := max (Text.offsetAt unedited e.range.stop) start
  splice? text start stop e.newText.toList

end TextEdit

/-- A text with all edits of a list carried out. -/
def applyEdits (text : String) (edits : List TextEdit) : String :=
  String.ofList ((TextEdit.ordered edits).foldl (TextEdit.applyTo text.toList) text.toList)

/-- A text with all edits of a list carried out, if each finds a text that can be cut. -/
def applyEdits? (text : String) (edits : List TextEdit) : Option String :=
  ((TextEdit.ordered edits).foldlM (TextEdit.applyTo? text.toList) text.toList).map String.ofList

end ResourceGraph
