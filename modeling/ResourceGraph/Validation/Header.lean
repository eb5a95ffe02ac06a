import ResourceGraph.Validation.Basic

/-!
# Checks of the header

The first line states the version and the second the kind. A document without lines has neither. A
header line that is missing hides what would be found after it.
-/

set_option autoImplicit false

namespace ResourceGraph.Validator

/-- Whether a line begins with a text, white space at its start aside. -/
def lineStartsWith (v : Validator) (n : Nat) (start : String) : Bool :=
  (v.source.line? n).any fun line => start.toList.isPrefixOf (Text.trim line)

/-- Whether a node is a scalar of the given text. -/
def scalarEquals (node : Option Node) (text : String) : Bool :=
  (node.bind Node.scalarText?) == some text

/-- The finding of a document without lines. -/
def emptyDocument (v : Validator) : Diagnostic :=
  v.error .emptyDocument
    ("Empty document. Expected 'apiVersion: " ++ v.settings.apiVersion ++
      "' on the first line and 'kind: " ++ v.settings.kind ++ "' on the second line.")
    (.point .origin)

/-- The finding of a version line with another value than the settings ask for. -/
def versionFindings (v : Validator) (tree : Node) : List Diagnostic :=
  if scalarEquals (tree.get? "apiVersion") v.settings.apiVersion then []
  else [v.error .invalidApiVersion
    ("Invalid apiVersion. Expected '" ++ v.settings.apiVersion ++ "'.") (v.source.lineRange 0)]

/-- The findings on the kind line. -/
def kindFindings (v : Validator) (tree : Node) : List Diagnostic :=
  if v.source.lineCount < 2 then
    [v.error .missingKind
      ("Missing kind. Expected 'kind: " ++ v.settings.kind ++ "' on the second line.")
      (.point (v.source.lineEnd 0))]
  else if !v.lineStartsWith 1 "kind:" then
    [v.error .missingKind ("Second line must be 'kind: " ++ v.settings.kind ++ "'.")
      (v.source.lineRange 1)]
  else if scalarEquals (tree.get? "kind") v.settings.kind then []
  else [v.error .invalidKind ("Invalid kind. Expected '" ++ v.settings.kind ++ "'.")
    (v.source.lineRange 1)]

/-- The findings on the two header lines. -/
def headerFindings (v : Validator) (tree : Node) : List Diagnostic :=
  if v.source.isEmpty then [v.emptyDocument]
  else if !v.lineStartsWith 0 "apiVersion:" then
    [v.error .missingApiVersion
      ("First line must be 'apiVersion: " ++ v.settings.apiVersion ++ "'.") (v.source.lineRange 0)]
  else v.versionFindings tree ++ v.kindFindings tree

end ResourceGraph.Validator
