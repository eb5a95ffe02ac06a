import ResourceGraph.Number.Text

/-!
# Document trees

The tree of a document: scalars, sequences, and mappings that keep the order of their entries. A
tree carries no positions. A key may occur twice in a mapping; looking it up gives the first value.
-/

set_option autoImplicit false

namespace ResourceGraph

/-- A value of a document. -/
inductive Node where
  | null
  | boolean (b : Bool)
  | number (x : Number)
  | string (s : String)
  | sequence (items : List Node)
  | mapping (entries : List (String × Node))

namespace Node

/-- The value of a key, when the node is a mapping that has it. -/
def get? (key : String) : Node → Option Node
  | mapping entries => entries.lookup key
  | _ => none

/-- Whether a value counts as given: null, false, zero, the undefined number and the empty string do
not. -/
def isPresent : Node → Bool
  | null => false
  | boolean b => b
  | number x => !x.isZero && x != .nan
  | string s => !s.isEmpty
  | sequence _ => true
  | mapping _ => true

/-- The value of a key, when it counts as given. -/
def present? (key : String) (n : Node) : Option Node := (n.get? key).filter isPresent

/-- The text of a scalar other than null, as it is compared and quoted in messages. -/
def scalarText? : Node → Option String
  | string s => some s
  | number x => some (String.ofList (x.text .scalar))
  | boolean b => some (if b then "true" else "false")
  | _ => none

end Node

end ResourceGraph
