import ResourceGraph.Validation.Header
import ResourceGraph.Validation.Schema
import ResourceGraph.Validation.Resources

/-!
# Checks of a document

The header is checked first, and nothing else when it has a fault. Then come the metadata, the
schema and the resources. The tree says what is there, and the source only where.
-/

set_option autoImplicit false

namespace ResourceGraph

namespace Validator

/-- The findings on the metadata. -/
def metadataFindings (v : Validator) (tree : Node) : List Diagnostic :=
  match tree.present? "metadata" with
  | none =>
    [v.error .missingMetadata
      ("Missing 'metadata' section. " ++ v.settings.kind ++
        " must have a metadata section with a name.")
      (v.afterKey "kind")]
  | some metadata =>
    if (metadata.present? "name").isSome then []
    else [v.error .missingMetadataName
      ("Missing 'name' in metadata. " ++ v.settings.kind ++
        " must have a name defined in metadata.")
      (v.afterKey "metadata")]

/-- The findings on a part of a node that need not be there. -/
def presentFindings (node : Node) (key : String) (check : Node → List Diagnostic) :
    List Diagnostic :=
  match node.present? key with
  | none => []
  | some part => check part

/-- The findings on the spec. -/
def specFindings (v : Validator) (tree : Node) : List Diagnostic :=
  match tree.present? "spec" with
  | none =>
    [v.error .missingSpec
      ("Missing 'spec' section. " ++ v.settings.kind ++ " must have a spec section.")
      (v.afterKey "metadata")]
  | some spec =>
    presentFindings spec "schema" v.schemaFindings ++
      presentFindings spec "resources" v.resourcesFindings

/-- All findings on a document. -/
def findings (v : Validator) (tree : Node) : List Diagnostic :=
  match v.headerFindings tree with
  | [] => v.metadataFindings tree ++ v.specFindings tree
  | header => header

end Validator

/-- The findings on a tree and its text, with positions from a resolver. -/
def validateWith (settings : Settings) (resolver : Resolver) (tree : Node) (text : String) :
    List Diagnostic :=
  (Validator.mk settings resolver (Source.ofString text)).findings tree

/-- The findings on a tree and its text, with positions from the indentation of the text. -/
def validate (settings : Settings) (tree : Node) (text : String) : List Diagnostic :=
  validateWith settings .indentation tree text

end ResourceGraph
