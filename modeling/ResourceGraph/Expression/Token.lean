import ResourceGraph.Expression.Scan

/-!
# Expression tokens

The highlighted pieces of an expression: the sigil, the two braces, and one token for every
non-empty segment of its path. An empty segment takes no token but its dot still takes a column.

Tokens travel in a relative form of five numbers each: lines from the previous token, columns from
it when both stand on one line and from the line's start otherwise, length, index of the role in the
legend, and zero.
-/

set_option autoImplicit false

namespace ResourceGraph

/-- What a piece of an expression is. -/
inductive TokenRole where
  /-- The leading `$`. -/
  | sigil
  /-- The opening or the closing brace. -/
  | brace
  /-- The first segment of the path. -/
  | rootSegment
  /-- A segment between the first and the last. -/
  | middleSegment
  /-- The last of several segments. -/
  | leafSegment
  deriving DecidableEq, Repr

namespace TokenRole

/-- The index of a role in the legend. -/
def legendIndex : TokenRole → Nat
  | sigil => 0
  | brace => 1
  | rootSegment => 2
  | middleSegment => 3
  | leafSegment => 4

/-- The names of the roles that an editor shows, by legend index. -/
def legend : List String := ["celDollar", "celBrace", "celRoot", "celMiddle", "celLeaf"]

/-- The name of a role. -/
def name : TokenRole → String
  | sigil => "sigil"
  | brace => "brace"
  | rootSegment => "rootSegment"
  | middleSegment => "middleSegment"
  | leafSegment => "leafSegment"

/-- All roles, in legend order. -/
def all : List TokenRole := [sigil, brace, rootSegment, middleSegment, leafSegment]

/-- The role with a legend index. -/
def ofLegendIndex? (i : Nat) : Option TokenRole := all[i]?

theorem ofLegendIndex?_legendIndex (r : TokenRole) : ofLegendIndex? r.legendIndex = some r := by
  cases r <;> rfl

end TokenRole

/-- A highlighted stretch of one line, in UTF-16 columns. -/
structure ExpressionToken where
  line : Nat
  startColumn : Nat
  length : Nat
  role : TokenRole
  deriving DecidableEq, Repr

namespace ExpressionToken

/-- The column after the token. -/
def endColumn (t : ExpressionToken) : Nat := t.startColumn + t.length

/-- The tokens of path segments from a column on, with the role of the first. -/
def ofSegments (line : Nat) : Nat → TokenRole → List (List Char) → List ExpressionToken
  | _, _, [] => []
  | column, role, segment :: rest =>
    let width := Text.units segment
    let following := ofSegments line (column + width + 1)
      (if rest.length = 1 then .leafSegment else .middleSegment) rest
    if width = 0 then following else ⟨line, column, width, role⟩ :: following

/-- The tokens of one expression. -/
def ofExpression (e : Expression) : List ExpressionToken :=
  ⟨e.line, e.startColumn, 1, .sigil⟩ :: ⟨e.line, e.startColumn + 1, 1, .brace⟩ ::
    ofSegments e.line (e.startColumn + 2) .rootSegment e.segments ++
    [⟨e.line, e.endColumn - 1, 1, .brace⟩]

/-- The relative form of a list of tokens, after one at the given line and column. -/
def encodeFrom : Nat → Nat → List ExpressionToken → List Nat
  | _, _, [] => []
  | line, column, t :: rest =>
    let deltaLine := t.line - line
    let deltaStart := if deltaLine = 0 then t.startColumn - column else t.startColumn
    [deltaLine, deltaStart, t.length, t.role.legendIndex, 0] ++
      encodeFrom t.line t.startColumn rest

/-- The relative form of a list of tokens in reading order. -/
def encode (tokens : List ExpressionToken) : List Nat := encodeFrom 0 0 tokens

/-- The tokens of a relative form, after one at the given line and column; nothing unless the
numbers come in groups of five that end in zero and name a role. -/
def decodeFrom? : Nat → Nat → List Nat → Option (List ExpressionToken)
  | _, _, [] => some []
  | line, column, deltaLine :: deltaStart :: length :: index :: 0 :: rest => do
    let role ← TokenRole.ofLegendIndex? index
    let line' := line + deltaLine
    let start := if deltaLine = 0 then column + deltaStart else deltaStart
    let tokens ← decodeFrom? line' start rest
    return ⟨line', start, length, role⟩ :: tokens
  | _, _, _ => none

/-- The tokens of a relative form. -/
def decode? (data : List Nat) : Option (List ExpressionToken) := decodeFrom? 0 0 data

end ExpressionToken

/-- The tokens of one line, reported on line zero. -/
def tokenize (line : Line) : List ExpressionToken :=
  (Expression.Cursor.start 0 line).all.flatMap ExpressionToken.ofExpression

/-- The tokens of a document, in reading order. -/
def Source.tokens (s : Source) : List ExpressionToken :=
  s.expressions.flatMap ExpressionToken.ofExpression

end ResourceGraph
