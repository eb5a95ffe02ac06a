import ResourceGraph.Yaml.Cursor

/-!
# Block scalars

A block scalar has a header, with a chomping indicator and an indentation indicator in either order,
and then the lines at or right of its indentation. Without an indicator the first line that is not
empty fixes the indentation. A literal scalar keeps its lines; a folded one joins lines that neither
begin nor follow with a blank. Chomping decides which of the last line breaks are kept.
-/

set_option autoImplicit false

namespace ResourceGraph.Yaml

namespace Block

/-- What is done with the line breaks at the end. -/
inductive Chomping where
  /-- All are dropped. -/
  | strip
  /-- The first is kept. -/
  | clip
  /-- All are kept. -/
  | keep
  deriving DecidableEq, Repr

/-- A header: chomping, and the indentation relative to the parent if one is given. -/
structure Header where
  chomping : Chomping
  indentation : Option Nat
  deriving Repr

/-- The chomping that an indicator asks for. -/
def chomping? : Char → Option Chomping
  | '+' => some .keep
  | '-' => some .strip
  | _ => none

/-- The indentation that an indicator asks for. -/
def indentation? (c : Char) : Option Nat := if c.isDigit then some (c.toNat - '0'.toNat) else none

/-- Reads a chomping indicator. -/
def readChomping (k : Cursor) : Option (Chomping × Cursor) :=
  k.rest.head?.bind fun c => (chomping? c).map fun chomp => (chomp, k.forward 1)

/-- Reads an indentation indicator, which must not be zero. -/
def readIndentation (start : Mark) (k : Cursor) : Except Fault (Option Nat × Cursor) :=
  match k.rest.head?.bind indentation? with
  | none => .ok (none, k)
  | some 0 => .error (.within .blockScalar start .zeroIndentation k.mark)
  | some n => .ok (some n, k.forward 1)

/-- Reads the two indicators, in either order. -/
def readIndicators (start : Mark) (k : Cursor) : Except Fault (Header × Cursor) :=
  match readChomping k with
  | some (chomp, k) => (readIndentation start k).map fun (n, k) => (⟨chomp, n⟩, k)
  | none =>
    match readIndentation start k with
    | .error fault => .error fault
    | .ok (none, k) => .ok (⟨.clip, none⟩, k)
    | .ok (some n, k) =>
      match readChomping k with
      | some (chomp, k) => .ok (⟨chomp, some n⟩, k)
      | none => .ok (⟨.clip, some n⟩, k)

/-- Reads the rest of the header's line. -/
def readHeader (start : Mark) (k : Cursor) : Except Fault (Header × Cursor) :=
  match readIndicators start k with
  | .error fault => .error fault
  | .ok (header, k) =>
    let k := (k.skipRun isSpace).skipComment
    if startsBroken k.rest then .ok (header, k.skipBreak)
    else .error (.within .blockScalar start .missingCommentOrBreak k.mark)

/-- Empty lines before a line of content: their breaks, the furthest column reached by indenting
spaces, and the cursor at the content. -/
structure Breaks where
  text : List Char
  furthest : Nat
  after : Cursor
  deriving Repr

/-- Reads at most `n` empty lines, each indented by at most `indent` spaces if that is known. -/
def readBreaks (start : Mark) (indent : Option Nat) : Nat → Breaks → Except Fault Breaks
  | 0, b => .ok b
  | n + 1, b =>
    let spaces := (b.after.run (· == ' ')).1.length
    let taken := match indent with
      | none => spaces
      | some i => min spaces (i - b.after.mark.column)
    let k := b.after.forward taken
    let short := indent.all (k.mark.column < ·)
    if short && k.rest.head? == some '\t' then
      .error (.within .blockScalar start .tabInIndentation k.mark)
    else
      let furthest := max b.furthest k.mark.column
      match k.lineBreak? with
      | none => .ok ⟨b.text, furthest, k⟩
      | some (text, after) => readBreaks start indent n ⟨b.text ++ text, furthest, after⟩

/-- The empty lines at a cursor. -/
def breaksAt (start : Mark) (indent : Option Nat) (k : Cursor) : Except Fault Breaks :=
  readBreaks start indent (k.rest.length + 1) ⟨[], 0, k⟩

/-- The content read so far: its text, the break that ended its last line, the breaks of the empty
lines after that, and whether that line began with a blank. -/
structure Content where
  text : List Char
  lineBreak : List Char
  emptyLines : List Char
  beganBlank : Bool
  deriving Repr

/-- No content yet, after empty lines. -/
def Content.start (emptyLines : List Char) : Content := ⟨[], [], emptyLines, false⟩

/-- The content with a line added. -/
def Content.addLine (folded : Bool) (c : Content) (line : List Char) : Content :=
  let beginsBlank := line.head?.any isSpace
  let joint :=
    if folded && c.lineBreak.head? == some '\n' && !c.beganBlank && !beginsBlank then
      if c.emptyLines.isEmpty then [' '] else []
    else c.lineBreak
  ⟨c.text ++ joint ++ c.emptyLines ++ line, [], [], beginsBlank⟩

/-- The text of the content, chomped. -/
def Content.chomped (chomp : Chomping) (c : Content) : List Char :=
  match chomp with
  | .strip => c.text
  | .clip => c.text ++ c.lineBreak
  | .keep => c.text ++ c.lineBreak ++ c.emptyLines

/-- Reads at most `n` lines of content at an indentation. -/
def readLines (start : Mark) (folded : Bool) (indent : Nat) :
    Nat → Content → Cursor → Except Fault (Content × Cursor)
  | 0, c, k => .ok (c, k)
  | n + 1, c, k =>
    if k.mark.column != indent || k.rest.isEmpty then .ok (c, k)
    else
      let (line, after) := k.run fun ch => !isBreak ch
      let (text, after) := (after.lineBreak?).getD ([], after)
      match breaksAt start (some indent) after with
      | .error fault => .error fault
      | .ok b =>
        let c := c.addLine folded line
        readLines start folded indent n { c with lineBreak := text, emptyLines := b.text } b.after

end Block

/-- The block scalar at a cursor on its indicator, below a parent at the given indentation, which is
-1 at the top. -/
def Cursor.block (k : Cursor) (folded : Bool) (parent : Int) :
    Except Fault (List Char × Cursor) := do
  let start := k.mark
  let (header, k) ← Block.readHeader start (k.forward 1)
  let given := header.indentation.map fun n => (max parent 0).toNat + n
  let b ← Block.breaksAt start given k
  let indent := given.getD (max b.furthest (max (parent + 1).toNat 1))
  let (content, k) ←
    Block.readLines start folded indent (k.rest.length + 1) (Block.Content.start b.text) b.after
  return (content.chomped header.chomping, k)

end ResourceGraph.Yaml
