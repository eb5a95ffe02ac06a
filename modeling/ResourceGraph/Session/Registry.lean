import ResourceGraph.Session.Schedule
import ResourceGraph.Diagnostic.Basic

/-!
# Published diagnostics

The latest diagnostics of each document. Setting replaces what was there; the result of a pass is
published only while its token is current.
-/

set_option autoImplicit false

namespace ResourceGraph.Session

/-- The latest diagnostics of each document that has any. -/
structure Registry where
  documents : List (String × List Diagnostic)
  deriving Repr

namespace Registry

/-- Nothing published. -/
def empty : Registry := ⟨[]⟩

/-- The diagnostics of a document. -/
def get? (r : Registry) (document : String) : Option (List Diagnostic) :=
  r.documents.lookup document

/-- Forgets the diagnostics of a document. -/
def erase (r : Registry) (document : String) : Registry :=
  ⟨r.documents.filter fun entry => entry.1 != document⟩

/-- Sets the diagnostics of a document. -/
def set (r : Registry) (document : String) (diagnostics : List Diagnostic) : Registry :=
  ⟨(document, diagnostics) :: (r.erase document).documents⟩

/-- Sets the diagnostics of the document of a token if the token is current, and tells whether it
is. -/
def publish (r : Registry) (s : Scheduler) (token : PassToken) (diagnostics : List Diagnostic) :
    Bool × Registry :=
  if s.isCurrent token then (true, r.set token.document diagnostics) else (false, r)

/-- The number of documents. -/
def size (r : Registry) : Nat := r.documents.length

/-- Whether no document has diagnostics. -/
def isEmpty (r : Registry) : Bool := r.documents.isEmpty

end Registry

end ResourceGraph.Session
