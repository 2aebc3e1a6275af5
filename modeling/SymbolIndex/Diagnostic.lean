import SymbolIndex.Conformance

/-!
Diagnostics: violations as they are shown, and the table of what is shown for each document.
-/

namespace SymbolIndex

/-- How bad it is. -/
inductive Severity where
  | error
  | warning
  deriving DecidableEq, Repr

/-- The word for a severity. -/
def Severity.word : Severity → String
  | error => "error"
  | warning => "warning"

/-- A message about a stretch of a document. -/
structure Diagnostic where
  span : Span
  severity : Severity
  message : String
  /-- The check that the message comes from. -/
  source : String
  deriving DecidableEq, Repr

namespace Diagnostic

/-- The name under which conformance reports. -/
def conformanceSource : String := "liva-interfaces"

/-- The diagnostic of a violation. -/
def ofViolation (v : Violation) : Diagnostic :=
  { span := v.span
    severity := if v.fault.isError then .error else .warning
    message := v.message
    source := conformanceSource }

/-- Whether it reports an error. -/
def isError (d : Diagnostic) : Bool := d.severity == .error

end Diagnostic

/-- The diagnostics of a model. -/
def Model.diagnostics (m : Model) : List Diagnostic := m.violations.map Diagnostic.ofViolation

/-- The diagnostics of a document (`diagnose`). -/
def Document.diagnostics (d : Document) : List Diagnostic := (Model.ofDocument d).diagnostics

/-- What is known of a document after one reading. -/
structure Analysis where
  model : Model
  diagnostics : List Diagnostic

/-- The model of a document and the diagnostics of that model (`analyze`). -/
def Document.analysis (d : Document) : Analysis :=
  let model := Model.ofDocument d
  { model, diagnostics := model.diagnostics }

/-- The diagnostics that are shown at present, by document (`DiagnosticTable`). -/
abbrev Diagnostics := Table (List Diagnostic)

namespace Diagnostics

/-- The diagnostics of a document; of one that is not in the table there are none. -/
def of (t : Diagnostics) (document : String) : List Diagnostic := (t.find? document).getD []

/-- The number of errors among all diagnostics. -/
def errorCount (t : Diagnostics) : Nat :=
  (t.entries.flatMap Prod.snd).countP Diagnostic.isError

end Diagnostics

end SymbolIndex
