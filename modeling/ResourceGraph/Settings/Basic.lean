/-!
# Settings

What the checks expect of a document's header, the tag that findings carry, and how long an editor
waits before it checks a changed document.
-/

set_option autoImplicit false

namespace ResourceGraph

/-- The settings of checks, fixes and scheduling. -/
structure Settings where
  /-- The value that `apiVersion` must have. -/
  apiVersion : String := "kro.run/v1alpha1"
  /-- The value that `kind` must have. -/
  kind : String := "ResourceGraphDefinition"
  /-- The tag of every finding; fixes are offered for no other. -/
  source : String := "kro-schema-validation"
  /-- The delay before a changed document is checked, in milliseconds. -/
  debounceMs : Nat := 500
  deriving DecidableEq, Repr, Inhabited

namespace Settings

/-- The settings that hold where nothing else is said. -/
def standard : Settings := {}

/-- The header line that states the version. -/
def apiVersionLine (s : Settings) : String := "apiVersion: " ++ s.apiVersion

/-- The header line that states the kind. -/
def kindLine (s : Settings) : String := "kind: " ++ s.kind

/-- The two lines that every document begins with. -/
def headerTemplate (s : Settings) : String := s.apiVersionLine ++ "\n" ++ s.kindLine ++ "\n"

end Settings

end ResourceGraph
