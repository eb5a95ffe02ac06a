import ResourceGraph.Text.Entry
import ResourceGraph.Text.Position
import ResourceGraph.Path

/-!
# Locating a path by indentation

A document tree carries no positions. They are recovered from the entries of the text alone, in one
pass from the first to the last, by following indentation: `Walk` records how much of the path has
been found and at which column, and `Walk.step` reads one entry. Leaving the block of the last found
segment starts the search over.

A path that is not found has no position here; `Resolver.Basic` gives it the end of the document.
-/

set_option autoImplicit false

namespace ResourceGraph

/-- How far the search for a path has come. -/
structure Walk where
  /-- The segments still to be found. -/
  pending : List Segment
  /-- Whether some segment has been found. -/
  inside : Bool
  /-- The column of the last found key or list marker. -/
  anchor : Nat
  /-- The column of the entries directly below the last found segment, once one has fixed it. -/
  child : Option Nat
  /-- The column of the list markers being counted, once a marker has fixed it. -/
  itemColumn : Option Nat
  /-- The number of list items passed over. -/
  seen : Nat
  deriving Repr

namespace Walk

/-- The search before the first entry, and after every block that is left. -/
def start (path : List Segment) : Walk := ⟨path, false, 0, none, none, 0⟩

/-- The search after a segment was found at a column, with the rest of the path pending. -/
def enter (rest : List Segment) (column : Nat) (child : Option Nat) : Walk :=
  ⟨rest, true, column, child, none, 0⟩

/-- The result of reading an entry: the position of the whole path, or the search so far. -/
inductive Outcome where
  | found (column : Nat)
  | going (w : Walk)

/-- Matches pending segments against the text at a column of one line. A key takes the rest of the
line; a list marker may be followed by a further marker or by the item's first key. -/
def descend : List Segment → Nat → Line → Walk → Outcome
  | [], _, _, w => .going w
  | .key name :: rest, column, content, w =>
    match Line.key? content with
    | none => .going w
    | some k =>
      if k.key ≠ name.toList then .going w
      else if rest.isEmpty then .found (column + k.width)
      else .going (enter rest column none)
  | .index i :: rest, column, content, w =>
    match Line.item? content with
    | none => .going w
    | some item =>
      let fixed := w.itemColumn.getD column
      if fixed ≠ column then .going { w with itemColumn := some fixed }
      else if w.seen < i then .going { w with itemColumn := some fixed, seen := w.seen + 1 }
      else if rest.isEmpty then .found column
      else
        let inner := column + item.offset
        descend rest inner item.body
          (enter rest column (if item.body.isEmpty then none else some inner))

/-- Whether an entry lies outside the block of the last found segment. List items may stand at the
column of the key that owns them. -/
def leaves (w : Walk) (e : Entry) : Bool :=
  let continuesList := (w.pending.head?.any Segment.isIndex) && (Line.item? e.content).isSome
  e.indent < w.anchor || (e.indent == w.anchor && !continuesList)

/-- Whether an entry belongs to a block nested below the ones that are searched for a key. -/
def isNested (w : Walk) (indent : Nat) : Bool :=
  !(w.pending.head?.any Segment.isIndex) && w.child.any (· < indent)

/-- The column of the searched entries, fixed by the first one read for a key. -/
def fixChild (w : Walk) (indent : Nat) : Walk :=
  if w.pending.head?.any Segment.isIndex then w
  else { w with child := some (w.child.getD indent) }

/-- Reads one entry. -/
def step (path : List Segment) (e : Entry) (w : Walk) : Outcome :=
  if w.inside then
    if w.leaves e then descend path e.indent e.content (start path)
    else if w.isNested e.indent then .going w
    else descend w.pending e.indent e.content (w.fixChild e.indent)
  else descend w.pending e.indent e.content w

/-- Reads entries until the whole path is found. -/
def run (path : List Segment) : List Entry → Walk → Option Position
  | [], _ => none
  | e :: rest, w =>
    match w.step path e with
    | .found column => some ⟨e.line, column⟩
    | .going w' => run path rest w'

end Walk

/-- Where a path stands in the entries of a text: after the colon of a last key, or at the marker of
a last list item. -/
def locate? (entries : List Entry) (path : Path) : Option Position :=
  if path.segments.isEmpty then none
  else Walk.run path.segments entries (Walk.start path.segments)

end ResourceGraph
