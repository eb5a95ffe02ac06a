/-!
# Positions and ranges

A position is a line and a UTF-16 column, both counted from zero; a range runs from its start up to,
and not including, its end.
-/

set_option autoImplicit false

namespace ResourceGraph

/-- A place in a text: line and UTF-16 column, both from zero. -/
structure Position where
  line : Nat
  character : Nat
  deriving DecidableEq, Repr, Inhabited

namespace Position

/-- The first position of a text. -/
def origin : Position := ⟨0, 0⟩

/-- The position `delta` columns to the right. -/
def advance (p : Position) (delta : Nat) : Position := ⟨p.line, p.character + delta⟩

/-- The written form `line:column`. -/
def render (p : Position) : String := toString p.line ++ ":" ++ toString p.character

/-- Whether a position is not after another: by line, and within a line by column. -/
def isAtMost (p q : Position) : Bool :=
  p.line < q.line || (p.line == q.line && p.character ≤ q.character)

/-- Positions are ordered by line and, within a line, by column. -/
instance : Ord Position where
  compare p q := (compare p.line q.line).then (compare p.character q.character)

end Position

/-- A stretch of text between two positions. -/
structure Range where
  start : Position
  stop : Position
  deriving DecidableEq, Repr, Inhabited

namespace Range

/-- The empty range at a position. -/
def point (p : Position) : Range := ⟨p, p⟩

/-- Whether the range covers nothing. -/
def isEmpty (r : Range) : Bool := r.start == r.stop

end Range

end ResourceGraph
