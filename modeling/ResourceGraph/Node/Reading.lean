import ResourceGraph.Node.Basic
import ResourceGraph.Yaml.Reading

/-!
# Document trees from YAML

The tree of a YAML value: numbers become binary64, tags are dropped, scalar keys become text, and
entries whose key is a collection are left out.
-/

set_option autoImplicit false

namespace ResourceGraph.Node

mutual

/-- The tree of a value. -/
def ofValue : Yaml.Value → Node
  | .null => null
  | .bool b => boolean b
  | .int i => number (Number.ofInt i)
  | .float x => number x
  | .string s => string s
  | .sequence items => sequence (itemsOfValues items)
  | .mapping entries => mapping (entriesOfValues entries)
  | .tagged _ value => ofValue value

/-- The trees of the elements of a sequence. -/
def itemsOfValues : List Yaml.Value → List Node
  | [] => []
  | item :: rest => ofValue item :: itemsOfValues rest

/-- The entries of a mapping that have a key text, with their trees. -/
def entriesOfValues : List (Yaml.Value × Yaml.Value) → List (String × Node)
  | [] => []
  | (key, value) :: rest =>
    match key.keyText? with
    | some text => (text, ofValue value) :: entriesOfValues rest
    | none => entriesOfValues rest

end

/-- The tree of a YAML text. -/
def parse (text : String) : Except Yaml.ReadFault Node :=
  (Yaml.Value.ofText text.toList).map ofValue

end ResourceGraph.Node
