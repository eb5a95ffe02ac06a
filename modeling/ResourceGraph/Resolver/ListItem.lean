import ResourceGraph.Text.Source

/-!
# The items of a block list

The items of the first list that a bare `name:` line introduces, each with the lines it spans. Items
are the marker lines at the column of the first marker; deeper markers belong to nested lists. The
list ends at a line indented less than its `name:` line, or at one that is no item and is indented
no deeper than it.
-/

set_option autoImplicit false

namespace ResourceGraph

/-- One item of a block list: its index, the line and column of its marker, and the first line after
it. -/
structure ListItem where
  index : Nat
  line : Nat
  column : Nat
  endLine : Nat
  deriving DecidableEq, Repr

namespace ListItem

/-- Whether a line is `name:` with nothing after the colon but a comment. -/
def opensBlock (name : List Char) (content : Line) : Bool :=
  (Line.key? content).any fun k => k.key == name && Line.isIgnorable (Text.trim k.rest)

/-- Whether a line ends a list that was opened at an indentation. -/
def closes (opened : Nat) (e : Entry) : Bool :=
  e.indent < opened || ((Line.item? e.content).isNone && e.indent ≤ opened)

/-- The entries of a list's block, and the number of the line that ends it: the line count where no
line does. -/
def block (lineCount opened : Nat) : List Entry → List Entry × Nat
  | [] => ([], lineCount)
  | e :: rest =>
    if closes opened e then ([], e.line)
    else
      let (inner, endLine) := block lineCount opened rest
      (e :: inner, endLine)

/-- The marker lines of a block at the column of its first marker. -/
def markers (entries : List Entry) : List Entry :=
  let marked := entries.filter fun e => (Line.item? e.content).isSome
  match marked with
  | [] => []
  | first :: _ => marked.filter fun e => e.indent == first.indent

/-- Numbers marker lines from `i` on; each item ends where the next begins, the last at `endLine`.
-/
def number (endLine : Nat) : Nat → List Entry → List ListItem
  | _, [] => []
  | i, [e] => [⟨i, e.line, e.indent, endLine⟩]
  | i, e :: next :: rest =>
    ⟨i, e.line, e.indent, next.line⟩ :: number endLine (i + 1) (next :: rest)

end ListItem

/-- The items of the first list that a bare `name:` line introduces. -/
def listItems (s : Source) (name : String) : List ListItem :=
  match s.entries.dropWhile fun e => !ListItem.opensBlock name.toList e.content with
  | [] => []
  | opening :: below =>
    let (inner, endLine) := ListItem.block s.lineCount opening.indent below
    ListItem.number endLine 0 (ListItem.markers inner)

end ResourceGraph
