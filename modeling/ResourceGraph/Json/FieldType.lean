import ResourceGraph.Json.Basic
import ResourceGraph.FieldType

/-!
# Field types as JSON
-/

set_option autoImplicit false

namespace ResourceGraph

/-- Modifiers as an object, in their order. -/
def Modifiers.toJson (m : Modifiers) : Json :=
  .object (m.entries.map fun (name, value) => (name, .string value))

/-- A field type as an object. -/
def FieldType.toJson (t : FieldType) : Json :=
  .object [("baseType", .string t.baseType), ("modifiers", t.modifiers.toJson),
    ("isValid", .bool t.isValid), ("isRequired", .bool t.isRequired)]

end ResourceGraph
