import ResourceGraph.Diagnostic.Basic
import ResourceGraph.Text.Source

/-!
# Reports

A report is what is shown for a finding or an error: a message with a code, help, and labels on
stretches of the source, which are counted in bytes.
-/

set_option autoImplicit false

namespace ResourceGraph

/-- A stretch of a source in bytes. -/
structure Span where
  offset : Nat
  length : Nat
  deriving DecidableEq, Repr

/-- A text attached to a stretch of the source. -/
structure Label where
  text : String
  span : Span
  deriving DecidableEq, Repr

/-- How severe a report is. -/
inductive ReportSeverity where
  | error
  | warning
  | advice
  deriving DecidableEq, Repr

/-- What is shown for a finding or an error. -/
structure Report where
  message : String
  code : String
  severity : Option ReportSeverity
  help : Option String
  labels : List Label
  hasSource : Bool
  deriving DecidableEq, Repr

/-- The word for a severity of reports. -/
def ReportSeverity.word : ReportSeverity → String
  | error => "Error"
  | warning => "Warning"
  | advice => "Advice"

/-- The severity of a report on a finding: hints and information are advice. -/
def Severity.forReport : Severity → ReportSeverity
  | error => .error
  | warning => .warning
  | info => .advice
  | hint => .advice

/-- The stretch of bytes that a range covers, empty at its start if the range runs backwards. -/
def Source.spanOf (s : Source) (r : Range) : Span :=
  let start := s.offsetAt r.start
  ⟨start, max (s.offsetAt r.stop) start - start⟩

/-- The stretch of the one character at a position, empty at the end of the text. Without a position
it is the first character. -/
def Source.characterSpan (s : Source) (p : Option Position) : Span :=
  let offset := (p.map s.offsetAt).getD 0
  let width := match Text.dropBytes offset s.text.toList with
    | [] => 0
    | c :: _ => Text.charBytes c
  ⟨offset, width⟩

/-- The report on a finding, labelled with its severity. -/
def Diagnostic.report (d : Diagnostic) (s : Source) : Report where
  message := d.message
  code := d.code.text
  severity := some d.severity.forReport
  help := none
  labels := [⟨d.severity.word, s.spanOf d.range⟩]
  hasSource := true

end ResourceGraph
