import ResourceGraph.Diagnostic.Basic
import ResourceGraph.Node.Basic
import ResourceGraph.Resolver.Basic
import ResourceGraph.Settings.Basic

/-!
# Checks

What every check has at hand: the settings, a resolver of positions, and the source. A check is a
function from these and a part of the tree to a list of diagnostics.
-/

set_option autoImplicit false

namespace ResourceGraph

/-- What checks have at hand. -/
structure Validator where
  settings : Settings
  resolver : Resolver
  source : Source

namespace Validator

/-- A finding under the tag of the settings. -/
def finding (v : Validator) (severity : Severity) (code : DiagnosticCode) (message : String)
    (range : Range) : Diagnostic :=
  ⟨message, range, severity, code, v.settings.source⟩

/-- A finding of an error. -/
def error (v : Validator) (code : DiagnosticCode) (message : String) (range : Range) : Diagnostic :=
  v.finding .error code message range

/-- The empty range where a path stands. -/
def atPath (v : Validator) (path : Path) : Range := .point (v.resolver.position v.source path)

/-- The empty range at the start of the line after a key. -/
def afterKey (v : Validator) (key : String) : Range := .point (v.resolver.afterKey v.source key)

/-- The range of the text written as the value of a path, with its quotes. Where no text is found
the given value tells the width. -/
def valueRange (v : Validator) (path : Path) (value : String) : Range :=
  let p := v.resolver.position v.source path
  let (start, text) := (v.source.valueAt? p).getD (p, value.toList)
  ⟨start, start.advance (Text.units text)⟩

end Validator

end ResourceGraph
