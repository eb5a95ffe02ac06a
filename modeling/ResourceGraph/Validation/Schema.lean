import ResourceGraph.Validation.Basic
import ResourceGraph.FieldType

/-!
# Checks of the schema

Every string below the `spec` and `status` of a schema, through mappings only, is a field type. A
type that does not follow the grammar is an error, and a modifier without a meaning a warning.
-/

set_option autoImplicit false

namespace ResourceGraph.Validator

/-- The finding of a text that is no field type. -/
def invalidType (v : Validator) (name type : String) (path : Path) : Diagnostic :=
  v.error .invalidTypeDefinition
    ("Invalid type definition for field '" ++ name ++ "': " ++ type ++
      ". Expected a valid type pattern.")
    (v.valueRange path type)

/-- The finding of a base type of an unknown form. -/
def invalidBaseType (v : Validator) (name type base : String) (path : Path) : Diagnostic :=
  v.error .invalidBaseType
    ("Invalid base type '" ++ base ++ "' for field '" ++ name ++ "'. Expected one of: " ++
      ", ".intercalate FieldType.primitives ++ ", array ([]), or map.")
    (v.valueRange path type)

/-- The finding of a modifier without a meaning. -/
def unknownModifier (v : Validator) (name type modifier : String) (path : Path) : Diagnostic :=
  v.finding .warning .unknownModifier
    ("Unknown modifier '" ++ modifier ++ "' for field '" ++ name ++ "'. Valid modifiers are: " ++
      ", ".intercalate FieldType.knownModifiers ++ ".")
    (v.valueRange path type)

/-- The findings on one field type. -/
def fieldFindings (v : Validator) (name type : String) (path : Path) : List Diagnostic :=
  let read := FieldType.read type
  if !read.isValid then [v.invalidType name type path]
  else
    (if read.kind = .unknown then [v.invalidBaseType name type read.baseType path] else []) ++
      read.unknownModifiers.map fun modifier => v.unknownModifier name type modifier path

mutual

/-- The findings on the fields of a group; what is no mapping is no group. -/
def groupFindings (v : Validator) (path : Path) : Node → List Diagnostic
  | .mapping entries => entriesFindings v path entries
  | _ => []

/-- The findings on some entries of a group. -/
def entriesFindings (v : Validator) (path : Path) : List (String × Node) → List Diagnostic
  | [] => []
  | (name, value) :: rest =>
    entryFindings v name (path.child (.key name)) value ++ entriesFindings v path rest

/-- The findings on one entry, a field or a group of fields. -/
def entryFindings (v : Validator) (name : String) (path : Path) : Node → List Diagnostic
  | .string type => v.fieldFindings name type path
  | .mapping entries => entriesFindings v path entries
  | _ => []

end

/-- The findings on one section of a schema. -/
def sectionFindings (v : Validator) (schema : Node) (name : String) : List Diagnostic :=
  match schema.present? name with
  | none => []
  | some fields => v.groupFindings ⟨[.key "spec", .key "schema", .key name]⟩ fields

/-- The findings on a schema. -/
def schemaFindings (v : Validator) (schema : Node) : List Diagnostic :=
  v.sectionFindings schema "spec" ++ v.sectionFindings schema "status"

end ResourceGraph.Validator
