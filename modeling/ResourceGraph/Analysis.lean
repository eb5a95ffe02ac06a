import ResourceGraph.Node.Reading
import ResourceGraph.Node.Json
import ResourceGraph.Node.Yaml
import ResourceGraph.Validation.Document
import ResourceGraph.Diagnostic.Report
import ResourceGraph.QuickFix
import ResourceGraph.Reference

/-!
# Analysis of a document

One pass over a document: its text is read and checked, and the tree and the findings are kept with
the text. What an editor asks later is answered from them. Only a text that is no YAML fails; a text
without lines has an empty tree and a finding.
-/

set_option autoImplicit false

namespace ResourceGraph

/-! ## Faults of reading a document -/

namespace Yaml.ReadFault

/-- The position of a fault, with the column in characters as the place tells it. -/
def position? (f : ReadFault) : Option Position := f.mark?.map fun m => ⟨m.line, m.column⟩

/-- The report on a text that cannot be read, labelled at the character where reading stopped. -/
def report (f : ReadFault) (s : Source) : Report where
  message := "Invalid YAML: " ++ f.message
  code := "parser::invalid_yaml"
  severity := none
  help := some
    "The document is not well-formed YAML, so no structural validation was run."
  labels := [⟨f.message, s.characterSpan f.position?⟩]
  hasSource := true

end Yaml.ReadFault

/-! ## Analysis -/

/-- A document that was read and checked. -/
structure Analysis where
  source : Source
  fileName : String
  settings : Settings
  root : Node
  diagnostics : List Diagnostic

/-- Reads and checks a document. -/
def analyze (settings : Settings) (fileName text : String) : Except Yaml.ReadFault Analysis := do
  let source := Source.ofString text
  let root ← if source.isEmpty then .ok Node.null else Node.parse text
  return ⟨source, fileName, settings, root, validate settings root text⟩

namespace Analysis

/-- Whether some finding is an error. -/
def hasErrors (a : Analysis) : Bool := a.diagnostics.any fun d => d.severity == .error

/-- The tree as indented JSON. -/
def toJson (a : Analysis) : String := a.root.toJson.indented

/-- The tree as YAML. -/
def toYaml (a : Analysis) : String := a.root.toYaml

/-- The findings as indented JSON. -/
def diagnosticsJson (a : Analysis) : String :=
  (Json.array (a.diagnostics.map Diagnostic.toJson)).indented

/-- Where the expression at a position points. -/
def definitionAt (a : Analysis) (p : Position) : Option Position := a.source.referenceAt p

/-- The tokens of all expressions. -/
def tokens (a : Analysis) : List ExpressionToken := a.source.tokens

/-- The links of all expressions. -/
def links (a : Analysis) : List DocumentLink := a.source.links

/-- The fixes for the findings. -/
def fixes (a : Analysis) : List QuickFix := quickFixes a.settings a.source.text a.diagnostics

/-- The reports on the findings. -/
def reports (a : Analysis) : List Report := a.diagnostics.map fun d => d.report a.source

end Analysis

end ResourceGraph
