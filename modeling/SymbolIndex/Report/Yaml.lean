import SymbolIndex.Report
import SymbolIndex.Report.Scalar

/-!
Reports as YAML, line by line.

Every key of a report is written on a line of its own, deeper ones further to the right.  Figures
that are zero, sections without files and lists without items are left out.  A message of several
lines is a block scalar; any other text is an inline one.
-/

namespace SymbolIndex

namespace Yaml

/-- A line that is indented so far. -/
def indented (width : Nat) (text : String) : String :=
  String.ofList (List.replicate width ' ') ++ text

/-- A key and its value, which is written as it is. -/
def plain (width : Nat) (key value : String) : String := indented width (key ++ ": " ++ value)

/-- A text as an inline scalar. -/
def inlined (value : String) : String := String.ofList (Scalar.inlined value.toList)

/-- A key and a text. -/
def scalar (width : Nat) (key value : String) : String := plain width key (inlined value)

/-- A key and a text of several lines, each indented below the key (`write_block_scalar`).  Empty
lines are not indented. -/
def block (width : Nat) (key value : String) : List String :=
  plain width key "|"
    :: (Scalar.blockLines value.toList).map fun line =>
      if line.isEmpty then "" else indented (width + 2) (String.ofList line)

/-- A key and a text, as a block if the text has several lines. -/
def text (width : Nat) (key value : String) : List String :=
  if value.toList.contains '\n' then block width key value else [scalar width key value]

/-- A key and a number. -/
def number (width : Nat) (key : String) (n : Nat) : String := plain width key (toString n)

/-- A key and a number that is left out when it is zero. -/
def figure (width : Nat) (key : String) (n : Nat) : List String :=
  if n = 0 then [] else [number width key n]

/-- A key that a section or a list stands below. -/
def opening (width : Nat) (key : String) : String := indented width (key ++ ":")

/-- The dash of a list item and the first line of the item, at the indentation of the dash. -/
def item (width : Nat) (line : String) : String := indented width ("- " ++ line)

/-- A list below a key, left out when it has no lines. -/
def list (width : Nat) (key : String) (lines : List String) : List String :=
  if lines.isEmpty then [] else opening width key :: lines

end Yaml

namespace Summary

/-- The lines of the figures. -/
def yamlLines (s : Summary) : List String :=
  [Yaml.opening 0 "meta"] ++ Yaml.figure 2 "elapsedMs" s.elapsed
    ++ (if s.timedOut then [Yaml.plain 2 "timeout" "true"] else [])
    ++ Yaml.figure 2 "filesScanned" s.filesScanned
    ++ Yaml.figure 2 "filesMatched" s.filesMatched
    ++ (s.totalMatches.map (Yaml.number 2 "totalMatches")).toList

end Summary

namespace Span

/-- The line that gives where a span starts in its line's order of keys, without indentation. -/
def firstLine (s : Span) : String := Yaml.number 0 "line" (shown s.start.line)

/-- The lines after the first. -/
def laterLines (width : Nat) (s : Span) : List String :=
  [Yaml.number width "column" (shown s.start.column),
    Yaml.number width "endLine" (shown s.stop.line),
    Yaml.number width "endColumn" (shown s.stop.column)]

end Span

namespace OutlineEntry

mutual

/-- The lines of an entry whose dash is indented so far, and of those below it. -/
def yamlLines (width : Nat) : OutlineEntry → List String
  | ⟨label, detail, kind, range, _, children⟩ =>
    [Yaml.item width ("kind: " ++ kind.word), Yaml.scalar (width + 2) "name" label]
      ++ (if detail.isEmpty then [] else [Yaml.scalar (width + 2) "detail" detail])
      ++ Yaml.indented (width + 2) range.firstLine :: range.laterLines (width + 2)
      ++ Yaml.list (width + 2) "members" (yamlLinesAll (width + 2) children)

/-- The lines of some entries, in order. -/
def yamlLinesAll (width : Nat) : List OutlineEntry → List String
  | [] => []
  | node :: later => yamlLines width node ++ yamlLinesAll width later

end

end OutlineEntry

namespace Diagnostic

/-- The lines of a diagnostic. -/
def yamlLines (d : Diagnostic) : List String :=
  [Yaml.item 2 ("severity: " ++ d.severity.word), Yaml.indented 4 d.span.firstLine]
    ++ d.span.laterLines 4
    ++ Yaml.scalar 4 "source" d.source :: Yaml.text 4 "message" d.message

end Diagnostic

namespace Location

/-- The lines of a location. -/
def yamlLines (l : Location) : List String :=
  Yaml.item 2 l.span.firstLine :: l.span.laterLines 4
    ++ (l.kind.map fun kind => Yaml.plain 4 "kind" kind.word).toList

end Location

namespace FileEntry

variable {α : Type}

/-- The lines that every file begins with (`write_file_head`). -/
def headLines (e : FileEntry α) : List String :=
  Yaml.item 0 ("path: " ++ Yaml.inlined e.path) :: (e.error.map (Yaml.scalar 2 "error")).toList

end FileEntry

namespace Report

/-- The lines of a report, sections without files left out. -/
def yamlLines (r : Report) : List String :=
  (r.summary.map Summary.yamlLines).getD []
    ++ (r.error.map (Yaml.scalar 0 "error")).toList
    ++ (r.query.map (Yaml.scalar 0 "query")).toList
    ++ Yaml.list 0 "outline" ((r.outline.getD []).flatMap fun e =>
        e.headLines ++ Yaml.list 2 "symbols" (OutlineEntry.yamlLinesAll 2 e.items))
    ++ Yaml.list 0 "diagnostics" ((r.diagnostics.getD []).flatMap fun e =>
        e.headLines ++ Yaml.list 2 "items" (e.items.flatMap Diagnostic.yamlLines))
    ++ Yaml.list 0 "locations" ((r.locations.getD []).flatMap fun e =>
        e.headLines ++ (e.name.map (Yaml.scalar 2 "name")).toList
          ++ Yaml.list 2 "matches" (e.items.flatMap Location.yamlLines))

/-- The report as YAML text (`write_envelope_yaml`). -/
def yaml (r : Report) : String := String.join (r.yamlLines.map (· ++ "\n"))

end Report

end SymbolIndex
