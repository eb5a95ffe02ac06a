import ResourceGraph.Expression.Token
import ResourceGraph.Resolver.Basic

/-!
# References

Where the path of an expression points. A path that begins with `schema` goes on below the schema of
the document. Any other begins with the id of a resource and goes on inside that resource, or inside
its template; a field that is not written down is referred to by the id.

A link joins an expression to the place it points to.
-/

set_option autoImplicit false

namespace ResourceGraph

namespace Reference

/-- The first segment of the paths into the schema. -/
def schemaRoot : List Char := ['s', 'c', 'h', 'e', 'm', 'a']

/-- The path of the resources. -/
def resources : Path := ⟨[.key "spec", .key "resources"]⟩

/-- The path of a resource. -/
def resource (index : Nat) : Path := resources.child (.index index)

/-- A value without the quotes around it. -/
def unquote (value : List Char) : List Char :=
  match value with
  | q :: rest =>
    if (q == '"' || q == '\'') && rest.getLast? == some q then rest.dropLast else value
  | [] => value

/-- Where the id of a resource is written, and its text. -/
def idOf? (s : Source) (index : Nat) : Option (Position × List Char) := do
  let after ← locate? s.entries ((resource index).child (.key "id"))
  let (start, value) ← s.valueAt? after
  return (start, unquote value)

/-- Looks for a resource with an id among at most `n` from an index on, and stops at the first index
that is not in the source. -/
def searchResource (s : Source) (id : List Char) : Nat → Nat → Option (Nat × Position)
  | 0, _ => none
  | n + 1, index =>
    if (locate? s.entries (resource index)).isNone then none
    else match idOf? s index with
      | some (start, value) =>
        if value = id then some (index, start) else searchResource s id n (index + 1)
      | none => searchResource s id n (index + 1)

/-- The first resource with an id, and where the id is written. Each resource begins on a line of
its own, so there are no more of them than lines. -/
def findResource (s : Source) (id : List Char) : Option (Nat × Position) :=
  searchResource s id (s.lineCount + 1) 0

/-- Where the fields below a resource stand, in it or in its template. -/
def inResource (s : Source) (index : Nat) (keys : List String) : Option Position :=
  (locate? s.entries ((resource index).descend keys)).or
    (locate? s.entries (((resource index).child (.key "template")).descend keys))

/-- Where a path points, given by its segments. -/
def findSegments (s : Source) : List (List Char) → Option Position
  | [] => none
  | root :: rest =>
    if root.isEmpty || rest.any List.isEmpty then none
    else
      let keys := rest.map String.ofList
      if root = schemaRoot then
        locate? s.entries ((⟨[.key "spec", .key "schema"]⟩ : Path).descend keys)
      else match findResource s root with
        | none => none
        | some (index, id) =>
          if keys.isEmpty then some id else (inResource s index keys).or (some id)

/-- Where a path points, given by its text. -/
def find (s : Source) (path : List Char) : Option Position :=
  findSegments s ((Text.splitOn '.' path).map Text.trim)

end Reference

/-- An expression joined to the place it points to. -/
structure DocumentLink where
  range : Range
  target : Position
  deriving DecidableEq, Repr

namespace DocumentLink

/-- The target as the fragment of a link, counted from one. -/
def fragment (l : DocumentLink) : String :=
  "L" ++ toString (l.target.line + 1) ++ "," ++ toString (l.target.character + 1)

/-- The written form of a link. -/
def render (l : DocumentLink) : String := l.range.start.render ++ " -> " ++ l.target.render

end DocumentLink

/-- The range of an expression with its braces. -/
def Expression.range (e : Expression) : Range := ⟨⟨e.line, e.startColumn⟩, ⟨e.line, e.endColumn⟩⟩

/-- Whether an expression covers a position. -/
def Expression.covers (e : Expression) (p : Position) : Bool :=
  e.line == p.line && e.startColumn ≤ p.character && p.character < e.endColumn

namespace Source

/-- Where the path of an expression points. -/
def targetOf (s : Source) (e : Expression) : Option Position := Reference.find s e.path.toList

/-- The links of all expressions that point somewhere. -/
def links (s : Source) : List DocumentLink :=
  s.expressions.filterMap fun e => (s.targetOf e).map fun target => ⟨e.range, target⟩

/-- Where the expression at a position points. -/
def referenceAt (s : Source) (p : Position) : Option Position :=
  (s.expressions.find? fun e => e.covers p).bind s.targetOf

end Source

end ResourceGraph
