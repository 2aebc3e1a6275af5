import SymbolIndex.Report

/-!
Reports as JSON: one object on one line.

A report is first a JSON value and then the text of that value.  The text has no blanks outside
strings, and a string escapes quotes, backslashes and control characters alone.
-/

namespace SymbolIndex

/-- A JSON value without fractions. -/
inductive Json where
  | bool (b : Bool)
  | number (n : Nat)
  | string (s : String)
  | array (items : List Json)
  | object (fields : List (String × Json))

namespace Json

/-- A digit of a number in base sixteen. -/
def hexDigit (n : Nat) : Char := Nat.digitChar n

/-- A character as it is written inside a string. -/
def escaped (c : Char) : List Char :=
  if c = '\x22' then ['\\', '\x22']
  else if c = '\\' then ['\\', '\\']
  else if c = '\n' then ['\\', 'n']
  else if c = '\r' then ['\\', 'r']
  else if c = '\t' then ['\\', 't']
  else if c.toNat < 0x20 then
    ['\\', 'u', '0', '0', hexDigit (c.toNat / 16), hexDigit (c.toNat % 16)]
  else [c]

/-- A text as a string literal (`write_json_string`). -/
def quoted (s : String) : String :=
  String.ofList ('\x22' :: s.toList.flatMap escaped ++ ['\x22'])

mutual

/-- The text of a value. -/
def render : Json → String
  | bool b => if b then "true" else "false"
  | number n => toString n
  | string s => quoted s
  | array items => "[" ++ ",".intercalate (renderAll items) ++ "]"
  | object fields => "\x7b" ++ ",".intercalate (renderFields fields) ++ "\x7d"

/-- The texts of some values. -/
def renderAll : List Json → List String
  | [] => []
  | item :: later => render item :: renderAll later

/-- The texts of the fields of an object. -/
def renderFields : List (String × Json) → List String
  | [] => []
  | (key, value) :: later => (quoted key ++ ":" ++ render value) :: renderFields later

end

/-- A field that is there only if its value is. -/
def field? (key : String) (value : Option Json) : List (String × Json) :=
  (value.map fun v => (key, v)).toList

end Json

namespace Span

/-- The four fields that give a span. -/
def fields (s : Span) : List (String × Json) :=
  [("line", .number (shown s.start.line)), ("column", .number (shown s.start.column)),
    ("endLine", .number (shown s.stop.line)), ("endColumn", .number (shown s.stop.column))]

end Span

namespace Summary

/-- The figures, each under its name. -/
def toJson (s : Summary) : Json :=
  .object
    ([("elapsedMs", .number s.elapsed), ("timeout", .bool s.timedOut),
      ("filesScanned", .number s.filesScanned), ("filesMatched", .number s.filesMatched)]
      ++ Json.field? "totalMatches" (s.totalMatches.map .number))

end Summary

namespace OutlineEntry

mutual

/-- An entry; one with members has them as a further field. -/
def toJson : OutlineEntry → Json
  | ⟨label, detail, kind, range, _, children⟩ =>
    .object
      ([("kind", .string kind.word), ("name", .string label), ("detail", .string detail)]
        ++ range.fields
        ++ (if children.isEmpty then [] else [("members", .array (toJsonAll children))]))

/-- Some entries, in order. -/
def toJsonAll : List OutlineEntry → List Json
  | [] => []
  | node :: later => toJson node :: toJsonAll later

end

end OutlineEntry

namespace Diagnostic

/-- A diagnostic, its span among its fields. -/
def toJson (d : Diagnostic) : Json :=
  .object
    (("severity", .string d.severity.word) :: d.span.fields
      ++ [("source", .string d.source), ("message", .string d.message)])

end Diagnostic

namespace Location

/-- A location; a reference has no kind to give. -/
def toJson (l : Location) : Json :=
  .object (l.span.fields ++ Json.field? "kind" (l.kind.map fun kind => .string kind.word))

end Location

namespace FileEntry

variable {α : Type}

/-- The fields that every file has. -/
def head (e : FileEntry α) : List (String × Json) :=
  ("path", .string e.path) :: Json.field? "error" (e.error.map .string)

end FileEntry

namespace Report

/-- A report, without the sections that are absent. -/
def toJson (r : Report) : Json :=
  .object
    (Json.field? "meta" (r.summary.map Summary.toJson)
      ++ Json.field? "error" (r.error.map .string)
      ++ Json.field? "query" (r.query.map .string)
      ++ Json.field? "outline" (r.outline.map fun files =>
          .array (files.map fun e =>
            .object (e.head ++ [("symbols", .array (OutlineEntry.toJsonAll e.items))])))
      ++ Json.field? "diagnostics" (r.diagnostics.map fun files =>
          .array (files.map fun e =>
            .object (e.head ++ [("items", .array (e.items.map Diagnostic.toJson))])))
      ++ Json.field? "locations" (r.locations.map fun files =>
          .array (files.map fun e =>
            .object (e.head ++ Json.field? "name" (e.name.map .string)
              ++ [("matches", .array (e.items.map Location.toJson))]))))

/-- The report as JSON text (`write_envelope_json`). -/
def json (r : Report) : String := r.toJson.render ++ "\n"

end Report

end SymbolIndex
