import ResourceGraph.Resolver.Locate
import ResourceGraph.Resolver.ListItem

/-!
# Resolvers

A resolver answers where a path, a list item or the line after a key stands in a source. Checks only
ask a resolver, so that any source of positions can serve them. The indentation resolver reads the
lines; what it does not find is placed at the end of the document.
-/

set_option autoImplicit false

namespace ResourceGraph

/-- The questions about positions that checks ask. -/
structure Resolver where
  /-- The position after the colon of a path's last key, or at the marker of its last list item. -/
  position : Source → Path → Position
  /-- The position of an item of the list introduced by a key. -/
  listItem : Source → String → Nat → Position
  /-- The start of the line after the first line of a key. -/
  afterKey : Source → String → Position

namespace Resolver

/-- The number of the first line written with a key, counted from `n` on. -/
def keyLine? (key : List Char) : Nat → List Line → Option Nat
  | _, [] => none
  | n, line :: rest =>
    if (Line.key? (Text.trim line)).any (·.key == key) then some n else keyLine? key (n + 1) rest

/-- The resolver that follows indentation. -/
def indentation : Resolver where
  position s path := (locate? s.entries path).getD s.endPosition
  listItem s name i := ((listItems s name)[i]?.map fun item =>
    (⟨item.line, item.column⟩ : Position)).getD s.endPosition
  afterKey s key := ((keyLine? key.toList 0 s.lines).map fun n =>
    (⟨n + 1, 0⟩ : Position)).getD s.endPosition

/-- The resolver that answers every question with one position. -/
def constant (p : Position) : Resolver := ⟨fun _ _ => p, fun _ _ _ => p, fun _ _ => p⟩

end Resolver

end ResourceGraph
