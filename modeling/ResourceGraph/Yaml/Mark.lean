import ResourceGraph.Text.Width

/-!
# Marks

A mark is a place in a YAML text: the number of bytes before it, its line, and its column in
characters. Carriage returns, line feeds, the next-line control and the two Unicode separators all
break lines.
-/

set_option autoImplicit false

namespace ResourceGraph.Yaml

/-- A place in a YAML text, all three counted from zero. -/
structure Mark where
  offset : Nat
  line : Nat
  column : Nat
  deriving DecidableEq, Repr, Inhabited

namespace Mark

/-- The start of a text. -/
def origin : Mark := ⟨0, 0, 0⟩

/-- Whether a mark is at the start of the text, where messages leave it out. -/
def isOrigin (m : Mark) : Bool := m.line == 0 && m.column == 0

/-- Whether two marks are on the same line and column. -/
def samePlace (a b : Mark) : Bool := a.line == b.line && a.column == b.column

/-- The place after some characters, none of which breaks a line. -/
def past (m : Mark) (cs : List Char) : Mark :=
  ⟨m.offset + Text.bytes cs, m.line, m.column + cs.length⟩

/-- The start of the next line, after the characters of a line break. -/
def pastBreak (m : Mark) (cs : List Char) : Mark := ⟨m.offset + Text.bytes cs, m.line + 1, 0⟩

/-- The written form, counted from one. -/
def render (m : Mark) : String :=
  "line " ++ toString (m.line + 1) ++ " column " ++ toString (m.column + 1)

end Mark

end ResourceGraph.Yaml
