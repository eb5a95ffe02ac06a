import ResourceGraph.FieldType
import ResourceGraph.Node.Basic
import ResourceGraph.Path
import ResourceGraph.Text.Source

/-!
# Block layout

How a document tree is printed in block layout, and where each part of it then stands. A `Block` is
a tree of one-line scalars together with the choice, for each list, of whether its markers stand at
the column of its key or a step deeper. `Block.rows` prints it: an entry is a `key: scalar` line, or
a `key:` line above its value; an item begins on the line of its marker, two columns right of it.

`Block.site?` follows a path down the printed tree. It counts the rows above each part, so that a
site holds the position just after the colon of a key or at the marker of an item.
-/

set_option autoImplicit false

namespace ResourceGraph

open Text

/-- A tree of scalars with the place of the markers of each list: a step deeper than its key, or at
the column of its key. The markers of a list that is an item follow the marker of that item. -/
inductive Block where
  | scalar (text : String)
  | mapping (entries : List (String × Block))
  | list (deeper : Bool) (items : List Block)

/-- A printed line: its indentation and what follows it. -/
structure Row where
  indent : Nat
  content : Line
  deriving DecidableEq, Repr

/-- The line of a row. -/
def Row.line (r : Row) : Line := List.replicate r.indent ' ' ++ r.content

namespace Block

/-! ## Printing -/

/-- What follows the colon of a key on its own line. -/
def inline : Block → Line
  | .scalar text => ' ' :: text.toList
  | _ => []

/-- The row of an entry's key. -/
def keyRow (column : Nat) (key : String) (value : Block) : Row :=
  ⟨column, key.toList ++ ':' :: value.inline⟩

/-- The rows of an item, with its marker put before the first. -/
def markFirst (column : Nat) : List Row → List Row
  | [] => []
  | row :: rest => ⟨column, '-' :: ' ' :: row.content⟩ :: rest

mutual

/-- The rows of a block that begins at a column. -/
def rows (step : Nat) : Nat → Block → List Row
  | column, .scalar text => [⟨column, text.toList⟩]
  | column, .mapping entries => entriesRows step column entries
  | column, .list _ items => itemsRows step column items

/-- The rows below the key of a value. -/
def rowsBelow (step : Nat) : Nat → Block → List Row
  | _, .scalar _ => []
  | column, .mapping entries => entriesRows step (column + step) entries
  | column, .list deeper items => itemsRows step (if deeper then column + step else column) items

/-- The rows of some entries of a mapping. -/
def entriesRows (step : Nat) : Nat → List (String × Block) → List Row
  | _, [] => []
  | column, (key, value) :: rest =>
    keyRow column key value :: rowsBelow step column value ++ entriesRows step column rest

/-- The rows of some items of a list. -/
def itemsRows (step : Nat) : Nat → List Block → List Row
  | _, [] => []
  | column, item :: rest =>
    markFirst column (rows step (column + 2) item) ++ itemsRows step column rest

end

/-- The lines of a document. -/
def lines (step : Nat) (root : Block) : List Line := (rows step 0 root).map Row.line

/-- The text of a document, with a line feed after each line. -/
def text (step : Nat) (root : Block) : String :=
  String.ofList ((lines step root).flatMap fun line => line ++ ['\n'])

/-! ## Well-formed blocks -/

/-- Whether a text is a word of ASCII letters, digits and underscores. -/
def isWord (cs : List Char) : Bool := !cs.isEmpty && cs.all FieldType.isWordChar

/-- Whether a text may stand as a scalar: on one line, without a colon or a hash, with no white
space at its end, and with neither white space nor a dash, as every letter and digit is neither, at
its start. -/
def isScalarText (cs : List Char) : Bool :=
  cs.head?.any (fun c => !isBlank c && c != '-') && cs.getLast?.any (fun c => !isBlank c) &&
    cs.all fun c => c != ':' && c != '#' && c != '\n'

mutual

/-- Whether a block can be printed: collections are not empty, and the keys of a mapping are
distinct words. -/
def isWellFormed : Block → Bool
  | .scalar text => isScalarText text.toList
  | .mapping entries =>
    !entries.isEmpty && decide (entries.map Prod.fst).Nodup && entriesWellFormed entries
  | .list _ items => !items.isEmpty && itemsWellFormed items

/-- Whether the entries of a mapping can be printed. -/
def entriesWellFormed : List (String × Block) → Bool
  | [] => true
  | (key, value) :: rest => isWord key.toList && isWellFormed value && entriesWellFormed rest

/-- Whether the items of a list can be printed. -/
def itemsWellFormed : List Block → Bool
  | [] => true
  | item :: rest => isWellFormed item && itemsWellFormed rest

end

/-! ## The tree of a block -/

mutual

/-- The document tree of a block. -/
def node : Block → Node
  | .scalar text => .string text
  | .mapping entries => .mapping (entriesNode entries)
  | .list _ items => .sequence (itemsNode items)

/-- The entries of the tree of a mapping. -/
def entriesNode : List (String × Block) → List (String × Node)
  | [] => []
  | (key, value) :: rest => (key, node value) :: entriesNode rest

/-- The items of the tree of a list. -/
def itemsNode : List Block → List Node
  | [] => []
  | item :: rest => node item :: itemsNode rest

end

/-- The part of a block that a segment leads to. -/
def child? : Segment → Block → Option Block
  | .key key, .mapping entries => entries.lookup key
  | .index i, .list _ items => items[i]?
  | _, _ => none

/-- The part of a block that a path leads to. -/
def at? : List Segment → Block → Option Block
  | [], b => some b
  | s :: rest, b => (b.child? s).bind (at? rest)

end Block

/-! ## Sites -/

/-- A part of a printed document: the position after the colon of its key or at its marker, the
column and line at which its own rows begin, and the part itself. -/
structure Site where
  position : Position
  column : Nat
  line : Nat
  value : Block

namespace Block

/-- The entries of a mapping before a key, and the value of the key. -/
def cutAtKey? (key : String) : List (String × Block) → Option (List (String × Block) × Block)
  | [] => none
  | (k, value) :: rest =>
    if k = key then some ([], value)
    else (cutAtKey? key rest).map fun (before, found) => ((k, value) :: before, found)

/-- The column at which the rows below a key begin. -/
def columnBelow (step column : Nat) : Block → Nat
  | .list false _ => column
  | _ => column + step

end Block

namespace Site

open Block

/-- The site of the part that a segment leads to. -/
def child? (step : Nat) (s : Site) : Segment → Option Site
  | .key key =>
    match s.value with
    | .mapping entries => (cutAtKey? key entries).map fun (before, value) =>
      let line := s.line + (entriesRows step s.column before).length
      ⟨⟨line, s.column + units key.toList + 1⟩, columnBelow step s.column value, line + 1, value⟩
    | _ => none
  | .index i =>
    match s.value with
    | .list _ items => items[i]?.map fun item =>
      let line := s.line + (itemsRows step s.column (items.take i)).length
      ⟨⟨line, s.column⟩, s.column + 2, line, item⟩
    | _ => none

/-- The site of the part that a path leads to. -/
def descend? (step : Nat) : List Segment → Site → Option Site
  | [], s => some s
  | segment :: rest, s => (s.child? step segment).bind (descend? step rest)

end Site

/-- The site of the part that a path leads to in a printed document. -/
def Block.site? (step : Nat) (root : Block) (path : List Segment) : Option Site :=
  Site.descend? step path ⟨.origin, 0, 0, root⟩

end ResourceGraph
