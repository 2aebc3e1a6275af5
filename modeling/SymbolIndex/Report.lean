import SymbolIndex.Definition
import SymbolIndex.Diagnostic
import SymbolIndex.Outline
import SymbolIndex.Text.Number

/-!
Reports: what a run over many files found, file by file.
-/

namespace SymbolIndex

/-- The figures of a run (`MetaInfo`). -/
structure Summary where
  /-- Milliseconds. -/
  elapsed : Nat
  timedOut : Bool
  filesScanned : Nat
  filesMatched : Nat
  totalMatches : Option Nat
  deriving DecidableEq, Repr

/-- What was found in one file, or why it could not be read. -/
structure FileEntry (α : Type) where
  path : String
  error : Option String
  items : List α

/-- A place that was looked up: a definition has a kind, a reference has none. -/
structure Location where
  span : Span
  kind : Option Kind
  deriving DecidableEq, Repr

/-- What was looked up in one file (`LocationFile`).  The name is given where it can differ from
file to file. -/
structure LookupEntry extends FileEntry Location where
  name : Option String

/-- Whether there is anything to say about a file. -/
def FileEntry.isReportable {α : Type} (e : FileEntry α) : Bool := !e.items.isEmpty || e.error.isSome

/-- A report (`OutputEnvelope`).  A section that is absent was not asked for. -/
structure Report where
  summary : Option Summary
  error : Option String
  query : Option String
  outline : Option (List (FileEntry OutlineEntry))
  diagnostics : Option (List (FileEntry Diagnostic))
  locations : Option (List LookupEntry)

namespace Report

/-- The report that says nothing. -/
def empty : Report :=
  { summary := none, error := none, query := none, outline := none, diagnostics := none,
    locations := none }

/-- The report of a run that failed. -/
def failure (message : String) : Report := { empty with error := some message }

end Report

/-- Lines and columns are shown from one, as 64-bit numbers (`one_based`). -/
def shown (n : Nat) : Nat := (n + 1) % Text.wordLimit

end SymbolIndex
