import ResourceGraph.Validation.Basic

/-!
# Checks of the resources

Resources are a sequence. Each has an id that no earlier one has, a type, and properties, if any,
that are a mapping. Ids are compared by their text.
-/

set_option autoImplicit false

namespace ResourceGraph.Validator

/-- The path of a resource. -/
def resourcePath (index : Nat) : Path := ⟨[.key "spec", .key "resources", .index index]⟩

/-- The text of a resource's id, if it has one. -/
def resourceId? (resource : Node) : Option String := (resource.present? "id").bind Node.scalarText?

/-- How a resource is called in messages. -/
def resourceLabel (index : Nat) : Option String → String
  | some id => "'" ++ id ++ "'"
  | none => "at index " ++ toString index

/-- The findings on a resource's id, given the ids before it. -/
def idFindings (v : Validator) (index : Nat) (seen : List String) : Option String → List Diagnostic
  | none =>
    [v.error .missingResourceId
      ("Missing 'id' in resource at index " ++ toString index ++ ". Each resource must have an ID.")
      (v.atPath (resourcePath index))]
  | some id =>
    if seen.contains id then
      [v.error .duplicateResourceId
        ("Duplicate resource ID '" ++ id ++ "'. Resource IDs must be unique.")
        (v.valueRange ((resourcePath index).child (.key "id")) id)]
    else []

/-- The findings on a resource's type. -/
def typeFindings (v : Validator) (index : Nat) (label : String) (resource : Node) :
    List Diagnostic :=
  if (resource.present? "type").isSome then []
  else [v.error .missingResourceType
    ("Missing 'type' in resource " ++ label ++ ". Each resource must have a type.")
    (v.atPath (resourcePath index))]

/-- The findings on a resource's properties. -/
def propertiesFindings (v : Validator) (index : Nat) (label : String) (resource : Node) :
    List Diagnostic :=
  match resource.present? "properties" with
  | none => []
  | some (.mapping _) => []
  | some _ =>
    [v.error .invalidResourceProperties
      ("Invalid 'properties' in resource " ++ label ++ ". Properties must be an object.")
      (v.atPath ((resourcePath index).child (.key "properties")))]

/-- The findings on one resource, given the ids before it. -/
def resourceFindings (v : Validator) (index : Nat) (seen : List String) (resource : Node) :
    List Diagnostic :=
  let id := resourceId? resource
  let label := resourceLabel index id
  v.idFindings index seen id ++ v.typeFindings index label resource ++
    v.propertiesFindings index label resource

/-- The findings on the resources from an index on, given the ids before them. -/
def itemsFindings (v : Validator) : Nat → List String → List Node → List Diagnostic
  | _, _, [] => []
  | index, seen, resource :: rest =>
    v.resourceFindings index seen resource ++
      itemsFindings v (index + 1) ((resourceId? resource).toList ++ seen) rest

/-- The findings on the resources of a document. -/
def resourcesFindings (v : Validator) : Node → List Diagnostic
  | .sequence items => v.itemsFindings 0 [] items
  | _ =>
    [v.error .invalidResources "Invalid 'resources' section. Expected an array of resources."
      (v.afterKey "resources")]

end ResourceGraph.Validator
