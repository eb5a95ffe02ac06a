import ResourceGraph.Yaml.Token.Folding

/-!
# Plain scalars

A plain scalar is a run of words, over lines that are indented enough. A word ends before a blank,
before a colon that a blank follows, and inside brackets before a comma or a bracket. A `#` after a
gap begins a comment.
-/

set_option autoImplicit false

namespace ResourceGraph.Yaml

/-- Whether a character separates or closes inside brackets. -/
def isFlowIndicator (c : Char) : Bool :=
  c == ',' || c == '[' || c == ']' || c == '\x7b' || c == '\x7d'

namespace Plain

/-- Whether a word ends before a character that the given text follows. -/
def endsBefore (flow : Bool) (c : Char) (after : List Char) : Bool :=
  isSeparation c || (c == ':' && startsSeparated after) || (flow && isFlowIndicator c)

/-- Whether a colon that the given text follows is refused inside brackets. -/
def refusesColon : List Char → Bool
  | [] => false
  | c :: _ => isFlowIndicator c || c == '?'

/-- The word at the start of a text, and whether it ends at a refused colon. -/
def word (flow : Bool) : List Char → List Char × Bool
  | [] => ([], false)
  | c :: cs =>
    if flow && c == ':' && refusesColon cs then ([], true)
    else if endsBefore flow c cs then ([], false)
    else
      let (rest, refused) := word flow cs
      (c :: rest, refused)

/-- A plain scalar as read: its text, the cursor after it, and whether a line break was passed. -/
structure Scanned where
  text : List Char
  after : Cursor
  broken : Bool
  deriving Repr

/-- Reads at most `n` further words, after a text and a gap. Outside brackets the scalar ends at a
line that starts left of the column `indent`. -/
def read (flow : Bool) (indent : Nat) (start : Mark) :
    Nat → List Char → Gap → Cursor → Except Fault Scanned
  | 0, text, gap, k => .ok ⟨text, k, gap.broken⟩
  | n + 1, text, gap, k =>
    if k.atDocumentIndicator || k.rest.head? == some '#' then .ok ⟨text, k, gap.broken⟩
    else
      let (next, refused) := word flow k.rest
      let after := k.forward next.length
      if refused then .error (.within .plainScalar start .unexpectedColon after.mark)
      else if next.isEmpty then .ok ⟨text, k, gap.broken⟩
      else
        let text := text ++ gap.fold ++ next
        match Gap.empty.read indent after.rest.length after with
        | .error mark => .error (.within .plainScalar start .tabBreaksIndentation mark)
        | .ok (gap, k) =>
          if !flow && k.mark.column < indent then .ok ⟨text, k, gap.broken⟩
          else read flow indent start n text gap k

end Plain

/-- The plain scalar at a cursor. -/
def Cursor.plain (k : Cursor) (flow : Bool) (indent : Nat) : Except Fault Plain.Scanned :=
  Plain.read flow indent k.mark (k.rest.length + 1) [] Gap.empty k

end ResourceGraph.Yaml
