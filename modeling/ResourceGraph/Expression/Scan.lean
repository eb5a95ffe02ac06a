import ResourceGraph.Text.Source
import ResourceGraph.Text.Split

/-!
# Expressions in a line

An expression is `${`, a non-empty body without `}`, and `}`, all on one line. Expressions do not
nest: the body of `${a${b}` is `a${b`. A line's expressions are read from left to right, each search
starting after the last one found; `${}` is none, but one may begin inside it.
-/

set_option autoImplicit false

namespace ResourceGraph

/-- One expression of a document: its line, the column of its `$`, its width with the braces, and
the text between them. -/
structure Expression where
  line : Nat
  startColumn : Nat
  length : Nat
  path : String
  deriving DecidableEq, Repr

namespace Expression

/-- The column after the closing brace. -/
def endColumn (e : Expression) : Nat := e.startColumn + e.length

/-- The dot-separated segments of the body. -/
def segments (e : Expression) : List (List Char) := Text.splitOn '.' e.path.toList

/-- The body of the expression that begins at the start of a text, and the text after it. -/
def body? : List Char → Option (List Char × List Char)
  | '$' :: '{' :: cs =>
    match Text.cutAt? '}' cs with
    | none => none
    | some (body, rest) => if body.isEmpty then none else some (body, rest)
  | _ => none

/-- A place on a line: the line's number, the column, and the text from it on. -/
structure Cursor where
  line : Nat
  column : Nat
  rest : List Char
  deriving Repr

namespace Cursor

/-- The start of a line. -/
def start (line : Nat) (text : Line) : Cursor := ⟨line, 0, text⟩

/-- The first expression that begins in a text at a column, and the place after it. -/
def search (line : Nat) : Nat → List Char → Option (Expression × Cursor)
  | _, [] => none
  | column, c :: cs =>
    match body? (c :: cs) with
    | some (body, rest) =>
      let width := Text.units body + 3
      some (⟨line, column, width, String.ofList body⟩, ⟨line, column + width, rest⟩)
    | none => search line (column + Text.charUnits c) cs

/-- The next expression from a place on, and the place after it. -/
def next? (k : Cursor) : Option (Expression × Cursor) := search k.line k.column k.rest

/-- At most `n` expressions from a place on. -/
def take : Nat → Cursor → List Expression
  | 0, _ => []
  | n + 1, k =>
    match k.next? with
    | none => []
    | some (e, k') => e :: take n k'

/-- All expressions from a place on. Each takes up characters of the line, so there are no more of
them than characters. -/
def all (k : Cursor) : List Expression := take k.rest.length k

/-- The place after at most `n` expressions. -/
def skip : Nat → Cursor → Cursor
  | 0, k => k
  | n + 1, k =>
    match k.next? with
    | none => k
    | some (_, k') => skip n k'

end Cursor

/-- The expressions of the lines from the one numbered `n` on. -/
def inLines : Nat → List Line → List Expression
  | _, [] => []
  | n, line :: rest => (Cursor.start n line).all ++ inLines (n + 1) rest

end Expression

/-- All expressions of a document, in reading order. -/
def Source.expressions (s : Source) : List Expression := Expression.inLines 0 s.lines

end ResourceGraph
