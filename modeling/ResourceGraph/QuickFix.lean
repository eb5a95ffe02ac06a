import ResourceGraph.Diagnostic.Basic
import ResourceGraph.Settings.Basic
import ResourceGraph.Text.Edit

/-!
# Quick fixes

A quick fix is a titled list of edits that removes a finding. Fixes are offered for the header
rules, and only for findings under the tag of the settings.
-/

set_option autoImplicit false

namespace ResourceGraph

/-- Edits that remove a finding, with the title they are offered under. -/
structure QuickFix where
  title : String
  diagnostic : Diagnostic
  edits : List TextEdit
  deriving DecidableEq, Repr

namespace QuickFix

/-- The title and the edit that remove a finding of a rule. The missing kind line of a document of
one line goes after that line, which may lack its line break. -/
def editFor? (settings : Settings) (s : Source) : DiagnosticCode → Option (String × TextEdit)
  | .emptyDocument => some ("Add schema template", .insert .origin settings.headerTemplate)
  | .invalidApiVersion =>
    some ("Add correct apiVersion", ⟨s.lineRange 0, settings.apiVersionLine⟩)
  | .missingApiVersion =>
    some ("Add correct apiVersion", .insert .origin (settings.apiVersionLine ++ "\n"))
  | .invalidKind => some ("Add correct kind", ⟨s.lineRange 1, settings.kindLine⟩)
  | .missingKind =>
    if s.lineCount < 2 then
      some ("Add correct kind", .insert (s.lineEnd 0) ("\n" ++ settings.kindLine))
    else some ("Add correct kind", .insert ⟨1, 0⟩ (settings.kindLine ++ "\n"))
  | _ => none

/-- The fix for a finding. -/
def fixFor? (settings : Settings) (s : Source) (d : Diagnostic) : Option QuickFix :=
  if d.source = settings.source then
    (editFor? settings s d.code).map fun (title, edit) => ⟨title, d, [edit]⟩
  else none

end QuickFix

/-- The fixes for some findings on a text, in their order. -/
def quickFixes (settings : Settings) (text : String) (diagnostics : List Diagnostic) :
    List QuickFix :=
  diagnostics.filterMap (QuickFix.fixFor? settings (Source.ofString text))

/-! ## JSON -/

/-- An edit as an object. -/
def TextEdit.toJson (e : TextEdit) : Json :=
  .object [("range", e.range.toJson), ("newText", .string e.newText)]

/-- A quick fix as an object. -/
def QuickFix.toJson (f : QuickFix) : Json :=
  .object [("title", .string f.title), ("diagnostic", f.diagnostic.toJson),
    ("edits", .array (f.edits.map TextEdit.toJson))]

end ResourceGraph
