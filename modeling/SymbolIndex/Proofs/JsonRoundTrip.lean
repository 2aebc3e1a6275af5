import SymbolIndex.Proofs.JsonReading

/-! Reports come back from their JSON. A report is read from a value field by field, with the keys in any
order, and the value of what is written for a report gives the report again, but for what it does not
show. -/
namespace SymbolIndex

namespace JsonValue

/-- The value under a key of an object. -/
def get? (key : String) : JsonValue → Option JsonValue
  | object fields => fields.lookup key
  | _ => none

/-- The text of a string. -/
def text? : JsonValue → Option String
  | string s => some s
  | _ => none

/-- The number that some digits are. -/
def natural? : JsonValue → Option Nat
  | number written => if areDigits written then some (Nat.ofDigitChars 10 written 0) else none
  | _ => none

/-- Whether it is true or false. -/
def truth? : JsonValue → Option Bool
  | bool b => some b
  | _ => none

section Fields

variable {α : Type} (read : JsonValue → Option α)

/-- The items of an array. -/
def list? : JsonValue → Option (List α)
  | array items => items.mapM read
  | _ => none

/-- What stands under a key that has to be there. -/
def required? (key : String) (v : JsonValue) : Option α := (v.get? key).bind read

/-- What stands under a key, if it is there. -/
def optional? (key : String) (v : JsonValue) : Option (Option α) :=
  match v.get? key with
  | none => some none
  | some field => (read field).map some

end Fields

end JsonValue

open JsonValue

/-- The kind that a word is for. -/
def Kind.ofValue? (v : JsonValue) : Option Kind := do
  let word ← v.text?
  Kind.all.find? (·.word == word)

/-- The severity that a word is for. -/
def Severity.ofValue? (v : JsonValue) : Option Severity := do
  let word ← v.text?
  Severity.all.find? (·.word == word)

/-- The span that the fields of an object give, which count from one. -/
def Span.ofValue? (v : JsonValue) : Option Span := do
  let line ← v.required? natural? "line"
  let column ← v.required? natural? "column"
  let endLine ← v.required? natural? "endLine"
  let endColumn ← v.required? natural? "endColumn"
  return ⟨⟨line - 1, column - 1⟩, ⟨endLine - 1, endColumn - 1⟩⟩

/-- The figures of a run. -/
def Summary.ofValue? (v : JsonValue) : Option Summary := do
  let elapsed ← v.required? natural? "elapsedMs"
  let timedOut ← v.required? truth? "timeout"
  let filesScanned ← v.required? natural? "filesScanned"
  let filesMatched ← v.required? natural? "filesMatched"
  let totalMatches ← v.optional? natural? "totalMatches"
  return { elapsed, timedOut, filesScanned, filesMatched, totalMatches }

namespace OutlineEntry

mutual

/-- The tree of an object: its members are those of a field, and there are none if it has no such
field. -/
def ofValue? : JsonValue → Option OutlineEntry
  | .object fields => do
    let kind ← (object fields).required? Kind.ofValue? "kind"
    let label ← (object fields).required? text? "name"
    let detail ← (object fields).required? text? "detail"
    let range ← Span.ofValue? (.object fields)
    let children ← members? fields
    return ⟨label, detail, kind, range, range, children⟩
  | _ => none

/-- The trees under the key of members. -/
def members? : List (String × JsonValue) → Option (List OutlineEntry)
  | [] => some []
  | (key, v) :: later => if key = "members" then list? v else members? later

/-- The trees of an array. -/
def list? : JsonValue → Option (List OutlineEntry)
  | .array items => all? items
  | _ => none

/-- The trees of some values, in order. -/
def all? : List JsonValue → Option (List OutlineEntry)
  | [] => some []
  | v :: later => do
    let node ← ofValue? v
    let nodes ← all? later
    return node :: nodes

end

end OutlineEntry

/-- The diagnostic of an object. -/
def Diagnostic.ofValue? (v : JsonValue) : Option Diagnostic := do
  let span ← Span.ofValue? v
  let severity ← v.required? Severity.ofValue? "severity"
  let message ← v.required? text? "message"
  let source ← v.required? text? "source"
  return { span, severity, message, source }

/-- The location of an object. -/
def Location.ofValue? (v : JsonValue) : Option Location := do
  let span ← Span.ofValue? v
  let kind ← v.optional? Kind.ofValue? "kind"
  return { span, kind }

/-- The file of an object, with its items under a key. -/
def FileEntry.ofValue? {α : Type} (key : String) (items? : JsonValue → Option (List α))
    (v : JsonValue) : Option (FileEntry α) := do
  let path ← v.required? text? "path"
  let error ← v.optional? text? "error"
  let items ← v.required? items? key
  return { path, error, items }

/-- The file of an object in which a name was looked up. -/
def LookupEntry.ofValue? (v : JsonValue) : Option LookupEntry := do
  let file ← FileEntry.ofValue? "matches" (list? Location.ofValue?) v
  let name ← v.optional? text? "name"
  return { file with name }

/-- The report of an object. -/
def Report.ofValue? (v : JsonValue) : Option Report := do
  let summary ← v.optional? Summary.ofValue? "meta"
  let error ← v.optional? text? "error"
  let query ← v.optional? text? "query"
  let outline ← v.optional? (list? (FileEntry.ofValue? "symbols" OutlineEntry.list?)) "outline"
  let diagnostics ←
    v.optional? (list? (FileEntry.ofValue? "items" (list? Diagnostic.ofValue?))) "diagnostics"
  let locations ← v.optional? (list? LookupEntry.ofValue?) "locations"
  return { summary, error, query, outline, diagnostics, locations }

section Values

theorem get?_value (key : String) (fields : List (String × Json)) :
    (Json.object fields).value.get? key = (fields.lookup key).map Json.value := by
  rw [Json.value, Json.valueFields_eq, get?]
  induction fields with
  | nil => rfl
  | cons field later ih =>
    obtain ⟨other, v⟩ := field
    rw [List.map_cons, List.lookup_cons, List.lookup_cons, ih]
    cases key == other <;> rfl

@[simp]
theorem lookup_field? (key other : String) (v : Option Json) :
    (Json.field? other v).lookup key = if key = other then v else none := by
  cases v with
  | none => simp [Json.field?]
  | some v =>
    by_cases same : key = other
    · simp [Json.field?, same]
    · simp [Json.field?, same, List.lookup_cons, beq_false_of_ne same]

@[simp]
theorem text?_string (s : String) : text? (Json.string s).value = some s := rfl

@[simp]
theorem truth?_bool (b : Bool) : truth? (Json.bool b).value = some b := rfl

@[simp]
theorem natural?_number (n : Nat) : natural? (Json.number n).value = some n := by
  have digits : areDigits (Nat.toDigits 10 n) = true := by
    rw [areDigits, Bool.and_eq_true]
    refine ⟨by simp [Nat.toDigits_ne_nil], List.all_eq_true.mpr fun c member => ?_⟩
    exact isDigit_of_mem_toDigits member
  rw [Json.value, natural?, if_pos digits, Nat.ofDigitChars_ten_toDigits]

@[simp]
theorem kind_ofValue? (kind : Kind) : Kind.ofValue? (Json.string kind.word).value = some kind :=
  kind.find?_word

@[simp]
theorem severity_ofValue? (severity : Severity) :
    Severity.ofValue? (Json.string severity.word).value = some severity :=
  severity.find?_word

section Lists

variable {α β : Type} {read : JsonValue → Option β} {write : α → Json} {seen : α → β}

/-- What is written for the items of a list is read back item by item. -/
theorem list?_array {items : List α} (reads : ∀ a ∈ items, read (write a).value = some (seen a)) :
    list? read (Json.array (items.map write)).value = some (items.map seen) := by
  rw [Json.value, Json.valueAll_eq, list?, List.map_map]
  induction items with
  | nil => rfl
  | cons a items ih =>
    obtain ⟨first, later⟩ := List.forall_mem_cons.mp reads
    rw [List.map_cons, List.mapM_cons, Function.comp_apply, first, ih later]
    rfl

/-- A section that is there is read back, and one that is not there is missed. -/
theorem optional?_of_lookup {fields : List (String × Json)} {key : String} {there : Option α}
    (found : fields.lookup key = there.map write)
    (reads : ∀ a ∈ there, read (write a).value = some (seen a)) :
    (Json.object fields).value.optional? read key = some (there.map seen) := by
  rw [optional?, get?_value, found]
  cases there with
  | none => rfl
  | some a => simp [reads a rfl]

end Lists

theorem required?_value {α : Type} (read : JsonValue → Option α) (key : String)
    (fields : List (String × Json)) :
    (Json.object fields).value.required? read key = (fields.lookup key).bind fun v => read v.value := by
  rw [required?, get?_value, Option.bind_map]
  rfl

end Values

theorem summary_ofValue? (s : Summary) : Summary.ofValue? s.toJson.value = some s := by
  have total : s.toJson.value.optional? natural? "totalMatches" = some (s.totalMatches.map id) :=
    optional?_of_lookup (by simp [List.lookup_cons]) fun n _ => natural?_number n
  rw [Summary.ofValue?, total]
  simp [Summary.toJson, required?_value, List.lookup_cons]

/-- The span of an object comes from four of its fields. -/
theorem span_ofValue? {s : Span} (fits : s.Fits) {fields : List (String × Json)}
    (shows : ∀ key ∈ s.fields.map Prod.fst, fields.lookup key = s.fields.lookup key) :
    Span.ofValue? (Json.object fields).value = some s := by
  obtain ⟨⟨line, column⟩, endLine, endColumn⟩ := fits
  simp only [Span.fields, List.map_cons, List.map_nil, List.forall_mem_cons] at shows
  obtain ⟨first, second, third, fourth, -⟩ := shows
  simp [Span.ofValue?, required?_value, first, second, third, fourth, List.lookup_cons, shown_of_lt,
    line, column, endLine, endColumn]

namespace OutlineEntry

mutual

/-- A tree is read back from what is written for it, without the places of names. -/
theorem ofValue?_toJson : (node : OutlineEntry) → node.Fits →
    ofValue? node.toJson.value = some node.unselected
  | ⟨label, detail, kind, range, selection, children⟩, fits => by
    have spans : Span.ofValue? (toJson ⟨label, detail, kind, range, selection, children⟩).value =
        some range := by
      apply span_ofValue? fits.1
      simp [Span.fields, List.lookup_cons]
    have below : members? (Json.valueFields
        (if children.isEmpty then [] else [("members", .array (toJsonAll children))])) =
        some (unselectedAll children) := by
      have nodes := all?_toJsonAll children fits.2
      cases children with
      | nil => rfl
      | cons node later => exact nodes
    have above : members? (Json.valueFields ([("kind", .string kind.word), ("name", .string label),
        ("detail", .string detail)] ++ range.fields ++
        (if children.isEmpty then [] else [("members", .array (toJsonAll children))]))) =
        some (unselectedAll children) := by
      simpa [Json.valueFields, members?, Span.fields] using below
    rw [toJson] at spans ⊢
    rw [Json.value, ofValue?, above, ← Json.value, spans]
    simp [required?_value, List.lookup_cons, unselected]

theorem all?_toJsonAll : (nodes : List OutlineEntry) → FitsAll nodes →
    all? (Json.valueAll (toJsonAll nodes)) = some (unselectedAll nodes)
  | [], _ => rfl
  | node :: later, fits => by
    have first := ofValue?_toJson node fits.1
    have others := all?_toJsonAll later fits.2
    rw [toJsonAll, Json.valueAll, all?, first, others]
    rfl

end

end OutlineEntry

theorem diagnostic_ofValue? {g : Diagnostic} (fits : g.span.Fits) :
    Diagnostic.ofValue? g.toJson.value = some g := by
  have spans : Span.ofValue? g.toJson.value = some g.span := by
    apply span_ofValue? fits
    simp [Span.fields, List.lookup_cons]
  rw [Diagnostic.ofValue?, spans]
  simp [Diagnostic.toJson, Span.fields, required?_value, List.lookup_cons]

theorem location_ofValue? {l : Location} (fits : l.span.Fits) :
    Location.ofValue? l.toJson.value = some l := by
  have spans : Span.ofValue? l.toJson.value = some l.span := by
    apply span_ofValue? fits
    simp [Span.fields, List.lookup_cons]
  have kinds : l.toJson.value.optional? Kind.ofValue? "kind" = some (l.kind.map id) :=
    optional?_of_lookup (by simp [Span.fields, List.lookup_cons]) fun kind _ => kind_ofValue? kind
  rw [Location.ofValue?, spans, kinds]
  simp

theorem FileEntry.mapItems_id {α : Type} (e : FileEntry α) : e.mapItems (List.map id) = e := by
  rw [mapItems, List.map_id]

/-- A file is read back if its items are. -/
theorem file_ofValue? {α : Type} {e : FileEntry α} {key : String} {items? : JsonValue → Option (List α)}
    {change : List α → List α} {fields : List (String × Json)} {written : Json}
    (path : fields.lookup "path" = some (.string e.path))
    (error : fields.lookup "error" = e.error.map .string) (items : fields.lookup key = some written)
    (reads : items? written.value = some (change e.items)) :
    FileEntry.ofValue? key items? (Json.object fields).value = some (e.mapItems change) := by
  have errors : (Json.object fields).value.optional? text? "error" = some (e.error.map id) :=
    optional?_of_lookup error fun message _ => text?_string message
  rw [FileEntry.ofValue?, errors]
  simp [required?_value, path, items, reads, FileEntry.mapItems]

theorem outlineFile_ofValue? {e : FileEntry OutlineEntry} (fits : OutlineEntry.FitsAll e.items) :
    FileEntry.ofValue? "symbols" OutlineEntry.list?
        (Json.object (e.head ++ [("symbols", .array (OutlineEntry.toJsonAll e.items))])).value =
      some (e.mapItems OutlineEntry.unselectedAll) := by
  have trees : OutlineEntry.list? (Json.array (OutlineEntry.toJsonAll e.items)).value =
      some (OutlineEntry.unselectedAll e.items) := by
    rw [Json.value, OutlineEntry.list?, OutlineEntry.all?_toJsonAll e.items fits]
  refine file_ofValue? ?_ ?_ ?_ trees
  · simp [FileEntry.head]
  · simp [FileEntry.head, List.lookup_append, List.lookup_cons]
  · simp [FileEntry.head, List.lookup_append, List.lookup_cons]

theorem diagnosticFile_ofValue? {e : FileEntry Diagnostic} (fits : ∀ g ∈ e.items, g.span.Fits) :
    FileEntry.ofValue? "items" (list? Diagnostic.ofValue?)
        (Json.object (e.head ++ [("items", .array (e.items.map Diagnostic.toJson))])).value =
      some e := by
  have items := list?_array fun g member => diagnostic_ofValue? (fits g member)
  refine (file_ofValue? ?_ ?_ ?_ items).trans (congrArg some e.mapItems_id)
  · simp [FileEntry.head]
  · simp [FileEntry.head, List.lookup_append, List.lookup_cons]
  · simp [FileEntry.head, List.lookup_append, List.lookup_cons]

theorem lookupFile_ofValue? {e : LookupEntry} (fits : ∀ l ∈ e.items, l.span.Fits) :
    LookupEntry.ofValue? (Json.object (e.head ++ Json.field? "name" (e.name.map .string)
        ++ [("matches", .array (e.items.map Location.toJson))])).value = some e := by
  have file : FileEntry.ofValue? "matches" (list? Location.ofValue?)
      (Json.object (e.head ++ Json.field? "name" (e.name.map .string)
        ++ [("matches", .array (e.items.map Location.toJson))])).value =
      some e.toFileEntry := by
    have items := list?_array fun l member => location_ofValue? (fits l member)
    refine (file_ofValue? ?_ ?_ ?_ items).trans (congrArg some e.toFileEntry.mapItems_id)
    · simp [FileEntry.head]
    · simp [FileEntry.head, List.lookup_append, List.lookup_cons]
    · simp [FileEntry.head, List.lookup_append, List.lookup_cons]
  have name : (Json.object (e.head ++ Json.field? "name" (e.name.map .string)
      ++ [("matches", .array (e.items.map Location.toJson))])).value.optional? text? "name" =
      some (e.name.map id) := by
    refine optional?_of_lookup ?_ fun name _ => text?_string name
    simp [FileEntry.head, List.lookup_append, List.lookup_cons]
  rw [LookupEntry.ofValue?, file, name]
  simp

/-- A report is read back from the value of what is written for it. -/
theorem report_ofValue? {r : Report} (fits : r.Fits) :
    Report.ofValue? r.toJson.value = some r.unselected := by
  have summary : r.toJson.value.optional? Summary.ofValue? "meta" = some (r.summary.map id) := by
    refine optional?_of_lookup ?_ fun s _ => summary_ofValue? s
    simp [List.lookup_append]
  have error : r.toJson.value.optional? text? "error" = some (r.error.map id) := by
    refine optional?_of_lookup ?_ fun message _ => text?_string message
    simp [List.lookup_append]
  have query : r.toJson.value.optional? text? "query" = some (r.query.map id) := by
    refine optional?_of_lookup ?_ fun query _ => text?_string query
    simp [List.lookup_append]
  have outline : r.toJson.value.optional?
      (list? (FileEntry.ofValue? "symbols" OutlineEntry.list?)) "outline" =
      some (r.outline.map (List.map (FileEntry.mapItems OutlineEntry.unselectedAll))) := by
    refine optional?_of_lookup ?_ fun files there =>
      list?_array fun e member => outlineFile_ofValue? (fits.outline files there e member)
    simp [List.lookup_append]
  have diagnostics : r.toJson.value.optional?
      (list? (FileEntry.ofValue? "items" (list? Diagnostic.ofValue?))) "diagnostics" =
      some (r.diagnostics.map (List.map id)) := by
    refine optional?_of_lookup ?_ fun files there =>
      list?_array fun e member => diagnosticFile_ofValue? (fits.diagnostics files there e member)
    simp [List.lookup_append]
  have locations : r.toJson.value.optional? (list? LookupEntry.ofValue?) "locations" =
      some (r.locations.map (List.map id)) := by
    refine optional?_of_lookup ?_ fun files there =>
      list?_array fun e member => lookupFile_ofValue? (fits.locations files there e member)
    simp [List.lookup_append]
  rw [Report.ofValue?, summary, error, query, outline, diagnostics, locations]
  simp [Report.unselected]

section Keys

theorem distinct_array {items : List Json} (inside : ∀ item ∈ items, item.value.Distinct) :
    (Json.array items).value.Distinct := by
  rw [Json.value, Json.valueAll_eq]
  exact .array (List.forall_mem_map.mpr inside)

theorem distinct_object {fields : List (String × Json)} {keys : List String}
    (among : (fields.map Prod.fst).Sublist keys) (different : keys.Nodup)
    (inside : ∀ field ∈ fields, field.2.value.Distinct) : (Json.object fields).value.Distinct := by
  rw [Json.value, Json.valueFields_eq]
  refine .object ?_ (List.forall_mem_map.mpr inside)
  rw [List.map_map]
  exact different.sublist among

theorem keys_field? (key : String) (v : Option Json) :
    ((Json.field? key v).map Prod.fst).Sublist [key] := by
  cases v with
  | none => exact List.nil_sublist [key]
  | some v => exact List.Sublist.refl [key]

theorem keys_append {a b : List (String × Json)} {keys later : List String}
    (first : (a.map Prod.fst).Sublist keys) (second : (b.map Prod.fst).Sublist later) :
    ((a ++ b).map Prod.fst).Sublist (keys ++ later) := by
  rw [List.map_append]
  exact first.append second

theorem distinct_field? {α : Type} {write : α → Json} {there : Option α}
    (inside : ∀ a ∈ there, (write a).value.Distinct) (key : String) :
    ∀ field ∈ Json.field? key (there.map write), field.2.value.Distinct := by
  cases there with
  | none => simp [Json.field?]
  | some a => simpa [Json.field?] using inside a rfl

@[simp]
theorem distinct_string (s : String) : (Json.string s).value.Distinct := .string s

@[simp]
theorem distinct_number (n : Nat) : (Json.number n).value.Distinct := .number _

@[simp]
theorem distinct_bool (b : Bool) : (Json.bool b).value.Distinct := .bool b

theorem summary_distinct (s : Summary) : s.toJson.value.Distinct := by
  refine distinct_object (keys_append (List.Sublist.refl _) (keys_field? _ _)) (by simp) ?_
  rw [List.forall_mem_append]
  exact ⟨by simp, distinct_field? (fun n _ => distinct_number n) _⟩

theorem diagnostic_distinct (g : Diagnostic) : g.toJson.value.Distinct := by
  refine distinct_object (List.Sublist.refl _) (by simp [Span.fields]) ?_
  simp [Span.fields]

theorem location_distinct (l : Location) : l.toJson.value.Distinct := by
  refine distinct_object (keys_append (List.Sublist.refl _) (keys_field? _ _)) (by simp [Span.fields]) ?_
  rw [List.forall_mem_append]
  exact ⟨by simp [Span.fields], distinct_field? (fun kind _ => distinct_string kind.word) _⟩

mutual

theorem entry_distinct : (node : OutlineEntry) → node.toJson.value.Distinct
  | ⟨label, detail, kind, range, selection, children⟩ => by
    have below := entries_distinct children
    rw [OutlineEntry.toJson]
    cases children with
    | nil =>
      refine distinct_object (List.Sublist.refl _) (by simp [Span.fields]) ?_
      simp [Span.fields]
    | cons node later =>
      refine distinct_object (List.Sublist.refl _) (by simp [Span.fields]) ?_
      simpa [Span.fields] using distinct_array below

theorem entries_distinct : (nodes : List OutlineEntry) →
    ∀ item ∈ OutlineEntry.toJsonAll nodes, item.value.Distinct
  | [] => by simp [OutlineEntry.toJsonAll]
  | node :: later => by
    rw [OutlineEntry.toJsonAll]
    exact List.forall_mem_cons.mpr ⟨entry_distinct node, entries_distinct later⟩

end

/-- A file has no key twice if its items have none, and they stand under a key of their own. -/
theorem file_distinct {α : Type} (e : FileEntry α) {more : List (String × Json)} {key : String}
    {items : List Json} (among : (more.map Prod.fst).Sublist ["name"])
    (other : key ∉ ["path", "error", "name"]) (others : ∀ field ∈ more, field.2.value.Distinct)
    (inside : ∀ item ∈ items, item.value.Distinct) :
    (Json.object (e.head ++ more ++ [(key, Json.array items)])).value.Distinct := by
  have head : (e.head.map Prod.fst).Sublist ["path", "error"] :=
    List.Sublist.cons_cons "path" (keys_field? _ _)
  refine distinct_object (keys_append (keys_append head among) (List.Sublist.refl _)) ?_ ?_
  · simpa [List.nodup_cons, and_assoc, eq_comm] using other
  · simp only [List.forall_mem_append, List.forall_mem_singleton]
    refine ⟨⟨List.forall_mem_cons.mpr ⟨distinct_string _, ?_⟩, others⟩, distinct_array inside⟩
    exact distinct_field? (fun message _ => distinct_string message) _

theorem file_distinct_of_head {α : Type} (e : FileEntry α) {key : String} {items : List Json}
    (other : key ∉ ["path", "error", "name"]) (inside : ∀ item ∈ items, item.value.Distinct) :
    (Json.object (e.head ++ [(key, Json.array items)])).value.Distinct := by
  have none : (([] : List (String × Json)).map Prod.fst).Sublist ["name"] := List.nil_sublist _
  simpa using file_distinct e none other (by simp) inside

/-- No object that is written for a report has a key twice. -/
theorem report_distinct (r : Report) : r.toJson.value.Distinct := by
  refine distinct_object (keys_append (keys_append (keys_append (keys_append (keys_append
    (keys_field? _ _) (keys_field? _ _)) (keys_field? _ _)) (keys_field? _ _)) (keys_field? _ _))
    (keys_field? _ _)) (by decide) ?_
  simp only [List.forall_mem_append]
  refine ⟨⟨⟨⟨⟨?_, ?_⟩, ?_⟩, ?_⟩, ?_⟩, ?_⟩
  · exact distinct_field? (fun s _ => summary_distinct s) _
  · exact distinct_field? (fun message _ => distinct_string message) _
  · exact distinct_field? (fun query _ => distinct_string query) _
  · refine distinct_field? (fun files _ => distinct_array (List.forall_mem_map.mpr fun e _ => ?_)) _
    exact file_distinct_of_head e (by decide) (entries_distinct e.items)
  · refine distinct_field? (fun files _ => distinct_array (List.forall_mem_map.mpr fun e _ => ?_)) _
    exact file_distinct_of_head e (by decide) (List.forall_mem_map.mpr fun g _ => diagnostic_distinct g)
  · refine distinct_field? (fun files _ => distinct_array (List.forall_mem_map.mpr fun e _ => ?_)) _
    refine file_distinct e.toFileEntry (keys_field? _ _) (by decide) ?_ ?_
    · exact distinct_field? (fun name _ => distinct_string name) _
    · exact List.forall_mem_map.mpr fun l _ => location_distinct l

end Keys

/-- A report is written as one object of JSON and a newline. The object repeats no key, it is the only
value that its text stands for and the value that the text is read to, and the report is read back from
it, but for the places of names in the outline, which are not written. -/
theorem json_round_trip (r : Report) (fits : r.Fits) :
    ∃ (line : List Char) (fields : List (String × JsonValue)),
      r.json = String.ofList line ++ "\n" ∧
      Denotes line (.value (.object fields)) ∧
      (JsonValue.object fields).Distinct ∧
      (∀ v, Denotes r.json.toList (.element v) ↔ v = .object fields) ∧
      ofText? r.json.toList = some (.object fields) ∧
      Report.ofValue? (.object fields) = some r.unselected := by
  obtain ⟨written, object⟩ : ∃ written, r.toJson = .object written := ⟨_, rfl⟩
  have value : r.toJson.value = .object (Json.valueFields written) := by rw [object, Json.value]
  have denotes := Json.denotes_render r.toJson
  have text : r.json.toList = [] ++ (r.toJson.render.toList ++ ['\n']) := by
    rw [Report.json, String.toList_append, List.nil_append]
    rfl
  have whole : Denotes r.json.toList (.element r.toJson.value) := by
    rw [text]
    exact .element spaces_nil denotes (by simp [Spaces, isSpace])
  refine ⟨r.toJson.render.toList, Json.valueFields written, ?_, ?_, ?_, fun v => ⟨fun other => ?_, ?_⟩, ?_,
    ?_⟩
  · rw [String.ofList_toList, Report.json]
  · exact value ▸ denotes
  · exact value ▸ report_distinct r
  · exact value ▸ other.unique whole
  · rintro rfl
    exact value ▸ whole
  · exact value ▸ ofText?_of_denotes whole
  · exact value ▸ report_ofValue? fits

/-- A report with every section: a tree of two levels, a file that could not be read, and texts with
quotes, backslashes, line breaks and control characters. -/
def survey : Report :=
  { summary := some ⟨7, false, 2, 1, some 3⟩
    error := none
    query := some "W\x01"
    outline := some
      [⟨"a\\b", none, [⟨"Box", "class", .classType, ⟨⟨0, 0⟩, ⟨4, 1⟩⟩, ⟨⟨0, 0⟩, ⟨0, 3⟩⟩,
          [⟨"lid()", "", .method, ⟨⟨1, 2⟩, ⟨3, 3⟩⟩, ⟨⟨1, 2⟩, ⟨1, 5⟩⟩, []⟩]⟩]⟩,
        ⟨"", some "not found", []⟩]
    diagnostics := some
      [⟨"c", none, [⟨⟨⟨0, 0⟩, ⟨0, 9⟩⟩, .error, "first\nsecond \"third\"", "check"⟩]⟩]
    locations := some
      [⟨⟨"c", none, [⟨⟨⟨2, 6⟩, ⟨2, 7⟩⟩, some .constant⟩, ⟨⟨⟨3, 0⟩, ⟨3, 1⟩⟩, none⟩]⟩, some "W"⟩] }

/-- The outline and the message of `survey` come back as they are, without the places of names. -/
theorem json_round_trip_of_survey :
    survey.Fits ∧ ∃ v r, ofText? survey.json.toList = some v ∧ Report.ofValue? v = some r ∧
      r.outline.map (List.map fun e => (e.path, e.error, e.items.map fun node =>
          (node.label, node.selection, node.children.map OutlineEntry.label))) =
        some [("a\\b", none, [("Box", ⟨⟨0, 0⟩, ⟨4, 1⟩⟩, ["lid()"])]), ("", some "not found", [])] ∧
      r.diagnostics.map (List.map fun e => e.items.map Diagnostic.message) =
        some [["first\nsecond \"third\""]] := by
  have fits : survey.Fits := by
    constructor <;> simp +decide [survey, OutlineEntry.FitsAll, OutlineEntry.Fits]
  obtain ⟨line, fields, -, -, -, -, reads, back⟩ := json_round_trip survey fits
  exact ⟨fits, _, _, reads, back, rfl, rfl⟩

end SymbolIndex
