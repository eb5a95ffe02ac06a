import ResourceGraph.Yaml.Cursor

/-!
# Line folding

Between two words of a scalar that spans lines stands a gap of blanks and line breaks. A gap without
a break keeps its blanks. In one with breaks a single line feed becomes a space, and of several the
first is dropped.
-/

set_option autoImplicit false

namespace ResourceGraph.Yaml

/-- A gap between words: the blanks before the first line break, that break, and the breaks after
it. -/
structure Gap where
  blanks : List Char
  broken : Bool
  first : List Char
  others : List Char
  deriving Repr

namespace Gap

/-- A gap with nothing in it. -/
def empty : Gap := ⟨[], false, [], []⟩

/-- The gap after an escaped line break, which leaves no text of its own. -/
def escaped : Gap := ⟨[], true, [], []⟩

/-- What a gap stands for. -/
def fold (g : Gap) : List Char :=
  if g.broken then
    if g.first.head? = some '\n' then (if g.others.isEmpty then [' '] else g.others)
    else g.first ++ g.others
  else g.blanks

/-- The gap with a line break added. -/
def addBreak (g : Gap) (text : List Char) : Gap :=
  if g.broken then { g with others := g.others ++ text }
  else ⟨[], true, text, []⟩

/-- The gap with a run of blanks added; only those before the first line break count. -/
def addBlanks (g : Gap) (blanks : List Char) : Gap :=
  if g.broken then g else { g with blanks := g.blanks ++ blanks }

/-- Reads blanks and breaks, at most `n` runs of them. In a broken gap a tab left of the column
`limit` is a fault, reported by its mark. -/
def read (limit : Nat) : Nat → Gap → Cursor → Except Mark (Gap × Cursor)
  | 0, g, k => .ok (g, k)
  | n + 1, g, k =>
    match k.rest with
    | [] => .ok (g, k)
    | c :: _ =>
      if isSpace c then
        let (blanks, after) := k.run isSpace
        let spaces := blanks.takeWhile (· == ' ')
        if g.broken && spaces.length < blanks.length && k.mark.column + spaces.length < limit then
          .error (k.mark.past spaces)
        else read limit n (g.addBlanks blanks) after
      else match k.lineBreak? with
        | none => .ok (g, k)
        | some (text, after) => read limit n (g.addBreak text) after

end Gap

/-- The gap at a cursor, where no tab is refused. -/
def Cursor.gap (k : Cursor) (g : Gap) : Gap × Cursor :=
  match g.read 0 k.rest.length k with
  | .ok result => result
  | .error _ => (g, k)

end ResourceGraph.Yaml
