import ResourceGraph.Node.Basic
import ResourceGraph.Json.Basic

/-!
# Document trees as JSON

Mappings become objects in their order. A number that is an integer below 2^53 in size is written
without a fraction.
-/

set_option autoImplicit false

namespace ResourceGraph

/-- The JSON literal of a number. -/
def Number.jsonText (x : Number) : String :=
  match x.toSmallInt? with
  | some i => String.ofList (Number.intText i)
  | none => String.ofList (x.text .json)

namespace Node

mutual

/-- A tree as a JSON value. -/
def toJson : Node → Json
  | null => .null
  | boolean b => .bool b
  | number x => .number x.jsonText
  | string s => .string s
  | sequence items => .array (itemsToJson items)
  | mapping entries => .object (entriesToJson entries)

/-- The elements of a sequence as JSON values. -/
def itemsToJson : List Node → List Json
  | [] => []
  | item :: rest => toJson item :: itemsToJson rest

/-- The entries of a mapping as JSON members. -/
def entriesToJson : List (String × Node) → List (String × Json)
  | [] => []
  | (key, value) :: rest => (key, toJson value) :: entriesToJson rest

end

end Node

end ResourceGraph
