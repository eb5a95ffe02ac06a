import ResourceGraph.Text.Split

/-!
# Paths

A path locates a value in a document tree: mapping keys and list indexes from the root down. Its
written form puts a dot before every key but a leading one, and brackets around an index.
-/

set_option autoImplicit false

namespace ResourceGraph

/-- One step down a document tree: into the entry of a key, or to an element of a list, counted from
zero. -/
inductive Segment where
  | key (name : String)
  | index (i : Nat)
  deriving DecidableEq, Repr

namespace Segment

/-- The written form of one segment: the key itself, or the index in brackets. -/
def render : Segment → String
  | key name => name
  | index i => "[" ++ toString i ++ "]"

/-- Whether the segment is an index. -/
def isIndex : Segment → Bool
  | key _ => false
  | index _ => true

end Segment

/-- The segments that lead from the root to a value. -/
structure Path where
  segments : List Segment
  deriving DecidableEq, Repr

namespace Path

/-- The path of the root. -/
def root : Path := ⟨[]⟩

/-- The path one step below. -/
def child (p : Path) (s : Segment) : Path := ⟨p.segments ++ [s]⟩

/-- The path below by keys. -/
def descend (p : Path) (keys : List String) : Path := ⟨p.segments ++ keys.map Segment.key⟩

/-- The path of plain keys that a dotted text names; empty parts are skipped. -/
def ofDotted (text : String) : Path :=
  ⟨((Text.splitOn '.' text.toList).filter fun part => !part.isEmpty).map
    fun part => Segment.key (String.ofList part)⟩

/-- The written form of the segments after the first. -/
def renderTail : List Segment → String
  | [] => ""
  | .key name :: rest => "." ++ name ++ renderTail rest
  | .index i :: rest => (Segment.index i).render ++ renderTail rest

/-- The written form of a path. -/
def render (p : Path) : String :=
  match p.segments with
  | [] => ""
  | s :: rest => s.render ++ renderTail rest

/-- The number of segments. -/
def length (p : Path) : Nat := p.segments.length

end Path

end ResourceGraph
