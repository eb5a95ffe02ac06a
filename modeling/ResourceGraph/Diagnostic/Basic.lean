import ResourceGraph.Text.Position
import ResourceGraph.Json.Basic

/-!
# Diagnostics

A diagnostic is one finding of a check: what it found, where, how severe it is, and which rule it
comes from. The header rules concern the first two lines; when one of them fires nothing else is
checked.
-/

set_option autoImplicit false

namespace ResourceGraph

/-- How severe a finding is. -/
inductive Severity where
  | error
  | warning
  | info
  | hint
  deriving DecidableEq, Repr

/-- The word for a severity. -/
def Severity.word : Severity → String
  | error => "error"
  | warning => "warning"
  | info => "info"
  | hint => "hint"

/-- The rule that a finding comes from. -/
inductive DiagnosticCode where
  | emptyDocument
  | missingApiVersion
  | invalidApiVersion
  | missingKind
  | invalidKind
  | missingMetadata
  | missingMetadataName
  | missingSpec
  | invalidTypeDefinition
  | invalidBaseType
  | unknownModifier
  | invalidResources
  | missingResourceId
  | duplicateResourceId
  | missingResourceType
  | invalidResourceProperties
  deriving DecidableEq, Repr

namespace DiagnosticCode

/-- The written form of a code. -/
def text : DiagnosticCode → String
  | emptyDocument => "kro::empty_document"
  | missingApiVersion => "kro::missing_api_version"
  | invalidApiVersion => "kro::invalid_api_version"
  | missingKind => "kro::missing_kind"
  | invalidKind => "kro::invalid_kind"
  | missingMetadata => "kro::missing_metadata"
  | missingMetadataName => "kro::missing_metadata_name"
  | missingSpec => "kro::missing_spec"
  | invalidTypeDefinition => "kro::invalid_type_definition"
  | invalidBaseType => "kro::invalid_base_type"
  | unknownModifier => "kro::unknown_modifier"
  | invalidResources => "kro::invalid_resources"
  | missingResourceId => "kro::missing_resource_id"
  | duplicateResourceId => "kro::duplicate_resource_id"
  | missingResourceType => "kro::missing_resource_type"
  | invalidResourceProperties => "kro::invalid_resource_properties"

/-- Whether a code belongs to a rule on the header lines. -/
def isHeader : DiagnosticCode → Bool
  | emptyDocument => true
  | missingApiVersion => true
  | invalidApiVersion => true
  | missingKind => true
  | invalidKind => true
  | _ => false

end DiagnosticCode

/-- One finding: its message, its place, its severity, its rule, and the tag of whoever found it. -/
structure Diagnostic where
  message : String
  range : Range
  severity : Severity
  code : DiagnosticCode
  source : String
  deriving DecidableEq, Repr

/-! ## JSON -/

/-- A position as an object. -/
def Position.toJson (p : Position) : Json :=
  .object [("line", .number (toString p.line)), ("character", .number (toString p.character))]

/-- A range as an object. -/
def Range.toJson (r : Range) : Json := .object [("start", r.start.toJson), ("end", r.stop.toJson)]

/-- A diagnostic as an object. -/
def Diagnostic.toJson (d : Diagnostic) : Json :=
  .object [("message", .string d.message), ("range", d.range.toJson),
    ("severity", .string d.severity.word), ("code", .string d.code.text),
    ("source", .string d.source)]

end ResourceGraph
