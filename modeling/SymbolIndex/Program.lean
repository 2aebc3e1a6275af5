import SymbolIndex.Files.Source
import SymbolIndex.Options
import SymbolIndex.Report.Json
import SymbolIndex.Report.Yaml

/-!
The program: from a command line and the files of a directory to what is printed.

A run selects files, analyses each of them on its own, and reports every file in which something
was found or which could not be read.  A report goes to standard output, a complaint about the
command line to standard error.
-/

namespace SymbolIndex

/-- What a run prints, and its exit code. -/
structure Outcome where
  exitCode : Nat
  stdout : String
  stderr : String
  deriving DecidableEq, Repr

namespace FileResult

variable {α : Type}

/-- What a report says of a file. -/
def entry (o : FileResult (List α)) : FileEntry α :=
  match o.result with
  | .ok items => { path := o.relative, error := none, items }
  | .error e => { path := o.relative, error := some e.message, items := [] }

/-- What a report says of a file in which a name was looked up. -/
def lookupEntry (o : FileResult (Option String × List Location)) : LookupEntry :=
  match o.result with
  | .ok (name, items) => { path := o.relative, error := none, items, name }
  | .error e => { path := o.relative, error := some e.message, items := [], name := none }

end FileResult

/-- What a mode reports, without the figures of the run. -/
structure Findings where
  report : Report
  /-- The number of files with something to report. -/
  filesMatched : Nat
  totalMatches : Nat

namespace Findings

/-- What some entries count together. -/
def total {α : Type} (size : α → Nat) (entries : List α) : Nat :=
  entries.foldr (fun e n => size e + n) 0

/-- The outlines of some files (`execute_outline`). -/
def ofOutlines (files : List (FoundFile Stored)) (cancelled : Bool) : Findings :=
  let outcomes := FoundFile.analyze files cancelled fun text => (Document.ofString text).outline
  let entries := (outcomes.map FileResult.entry).filter FileEntry.isReportable
  { report := { Report.empty with outline := some entries }
    filesMatched := entries.length
    totalMatches := total (fun e => OutlineEntry.countAll e.items) entries }

/-- The diagnostics of the files that could be read, by file. -/
def diagnosticsByPath (outcomes : List (FileResult (List Diagnostic))) : Diagnostics :=
  Table.ofList <| outcomes.filterMap fun o =>
    match o.result with
    | .ok diagnostics => some (o.relative, diagnostics)
    | .error _ => none

/-- The diagnostics of some files, files that could not be read among them (`execute_check`). -/
def ofDiagnostics (files : List (FoundFile Stored)) (cancelled : Bool) : Findings :=
  let outcomes := FoundFile.analyze files cancelled fun text =>
    (Document.ofString text).diagnostics
  let shown := (diagnosticsByPath outcomes).entries.filter fun (_, diagnostics) => !diagnostics.isEmpty
  let failed := (outcomes.map FileResult.entry).filter fun e => e.error.isSome
  let entries :=
    (shown.map (fun (path, items) => ({ path, error := none, items } : FileEntry Diagnostic))
      ++ failed).mergeSort fun a b => decide (a.path ≤ b.path)
  { report := { Report.empty with diagnostics := some entries }
    filesMatched := entries.length
    totalMatches := total (fun e => e.items.length) entries }

/-- What is looked up of a name in a document: its definitions, or its references with or without
those on lines that declare something. -/
def lookUp (keepDeclarations : Option Bool) (d : Document) (name : List Char) : List Location :=
  match keepDeclarations with
  | none => (d.definitions name).map fun definition => ⟨definition.span, some definition.kind⟩
  | some kept => (d.referencesTo name kept).map fun span => ⟨span, none⟩

/-- What a query finds in a document, and the name that it looked up if that is the word at a
position. -/
def answer (keepDeclarations : Option Bool) (query : Query) (d : Document) :
    Option String × List Location :=
  match query with
  | .name name => (none, lookUp keepDeclarations d name.toList)
  | .position p =>
    match d.wordAt? p with
    | some (word, _) => (some (String.ofList word), lookUp keepDeclarations d word)
    | none => (none, [])

/-- A query as the report repeats it, with positions counted from one. -/
def queryLabel : Query → String
  | .name name => name
  | .position p => toString (shown p.line) ++ ":" ++ toString (shown p.column)

/-- What a query finds in some files (`execute_lookup`). -/
def ofQuery (files : List (FoundFile Stored)) (cancelled : Bool) (query : Query)
    (keepDeclarations : Option Bool) : Findings :=
  let outcomes := FoundFile.analyze files cancelled fun text =>
    answer keepDeclarations query (.ofString text)
  let entries := (outcomes.map FileResult.lookupEntry).filter (·.isReportable)
  { report := { Report.empty with query := some (queryLabel query), locations := some entries }
    filesMatched := entries.length
    totalMatches := total (fun e => e.items.length) entries }

/-- What a mode finds in some files. -/
def ofMode (files : List (FoundFile Stored)) (cancelled : Bool) (options : Options) : Findings :=
  match options.mode with
  | .outline => ofOutlines files cancelled
  | .check => ofDiagnostics files cancelled
  | .definition query => ofQuery files cancelled query none
  | .references query => ofQuery files cancelled query (some options.keepDeclarations)

end Findings

namespace Report

/-- The report in a format. -/
def write (r : Report) : Format → String
  | .yaml => r.yaml
  | .json => r.json

end Report

namespace Program

/-- The version of the program. -/
def version : String := "0.1.0"

/-- What is printed to explain the options (`print_help`). -/
def help : String := "\n".intercalate [
  "liva-index — structural index for Liva source trees",
  "",
  "Usage:",
  "  liva-index [options]",
  "",
  "Modes:",
  "  --outline               Outline of every file: functions, classes, interfaces, constants (default)",
  "  --check                 Interface conformance diagnostics",
  "  --def <name|line:col>   Definition sites of a name, or of the word at line:col in each file",
  "  --refs <name|line:col>  Whole-word references of a name, or of the word at line:col",
  "",
  "Options:",
  "  --root, -d <path>       Root directory (default: current directory)",
  "  --glob, -g, --r <glob>  File glob pattern (repeatable, default: *.liva)",
  "  --no-declaration        With --refs, drop references on let/const/fn lines",
  "  --format <yaml|json>    Output format (default: yaml)",
  "  --timeout <secs>        Max execution time in seconds",
  "  --exclude <name>        Additional exclusions (repeatable)",
  "  --no-defaults           Disable built-in exclusions (.git, target, node_modules, etc.)",
  "  --help, -h              Show this help",
  "  --version, -V           Show version",
  "",
  "Environment:",
  "  LIVA_LOG, RUST_LOG      Log filter for diagnostics on stderr (e.g. debug)",
  "  LIVA_LOG_FORMAT         text (default) or json",
  "",
  "Examples:",
  "  liva-index                                      Outline all .liva files",
  "  liva-index --check -d /path/to/project          Report missing interface methods",
  "  liva-index --def Shape                          Where Shape is declared",
  "  liva-index --refs total --no-declaration        Uses of total, declarations dropped",
  "  liva-index --def 12:9 --r src/app.liva          Definition of the word at 12:9",
  "  liva-index --check --format json                Diagnostics as JSON",
  ""]

/-- The files that the options select below a root. -/
def select {α : Type} (options : Options) (cancelled : Bool) (entries : List (Entry α)) :
    List (FoundFile α) :=
  Entry.find (options.globs.map Selector.ofString)
    (Exclusion.ofList options.excludes options.withoutUsual) cancelled entries

/-- The outcome of a run whose root is no directory. -/
def noDirectory (options : Options) : Outcome :=
  { exitCode := 1
    stdout := (Report.failure ("Directory not found: " ++ options.root)).write options.format
    stderr := "" }

/-- The report of a run that ran out of time before it analysed anything. -/
def searchTimedOut (filesScanned elapsed : Nat) : Report :=
  { Report.failure "Operation timed out" with
    summary := some
      { elapsed, timedOut := true, filesScanned, filesMatched := 0, totalMatches := none } }

/-- The report of a run over the selected files (`execute`). -/
def reportOf (options : Options) (files : List (FoundFile Stored)) (timedOut : Bool)
    (elapsed : Nat) : Report :=
  let findings := Findings.ofMode files timedOut options
  { findings.report with
    summary := some
      { elapsed
        timedOut
        filesScanned := files.length
        filesMatched := findings.filesMatched
        totalMatches := some findings.totalMatches }
    error :=
      if timedOut then some "Operation timed out — partial results may be incomplete" else none }

/-- The outcome of a run that ends in a report. -/
def reporting (options : Options) (timedOut : Bool) (report : Report) : Outcome :=
  { exitCode := if timedOut then 2 else 0, stdout := report.write options.format, stderr := "" }

/-- The outcome of a run that only prints a text. -/
def saying (text : String) : Outcome := { exitCode := 0, stdout := text, stderr := "" }

/-- The outcome of a command line that is refused. -/
def refused (e : UsageError) : Outcome :=
  { exitCode := 1, stdout := "", stderr := e.message ++ "\n" }

/-- The outcome of a command line, run in a directory with the given entries; the root is looked
for below it. -/
def run (arguments : List String) (entries : List (Entry Stored)) : Outcome :=
  match Options.parse "." arguments with
  | .error e => refused e
  | .ok .help => saying help
  | .ok .version => saying (version ++ "\n")
  | .ok (.run options) =>
    match Entry.directory? options.root entries with
    | none => noDirectory options
    | some entries =>
      reporting options false (reportOf options (select options false entries) false 0)

end Program

end SymbolIndex
