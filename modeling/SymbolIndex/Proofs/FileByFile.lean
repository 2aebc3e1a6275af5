import Mathlib.Algebra.GroupWithZero.Nat
import Mathlib.Data.List.Nodup
import SymbolIndex.Program

/-! Every file is reported by itself. What a report says of a file is told here from that file alone,
and a report over many files is those entries in the order of the paths. Checking takes a detour over a
table and a second sort; since the paths are different, both leave the order as it is. -/
namespace SymbolIndex

namespace FoundFile

/-- Some files as a search lists them, in the order of their paths. -/
def inOrder {α : Type} (files : List (FoundFile α)) : List (FoundFile α) :=
  files.mergeSort fun a b => decide (a.relative ≤ b.relative)

/-- What a report says of a file: why it could not be read, or else what an analysis finds in it, if it
finds anything. An empty or binary file has no entry. -/
def reported? {α : Type} (analysis : String → List α) (file : FoundFile Stored) : Option (FileEntry α) :=
  match Source.read file.content with
  | .error e => some ⟨file.relative, some e.message, []⟩
  | .ok none => none
  | .ok (some text) =>
    if (analysis text).isEmpty then none else some ⟨file.relative, none, analysis text⟩

/-- What a report says of a file in which something was looked up, under the name that was looked up
there. -/
def lookedUp? (answer : String → Option String × List Location) (file : FoundFile Stored) :
    Option LookupEntry :=
  match Source.read file.content with
  | .error e => some ⟨⟨file.relative, some e.message, []⟩, none⟩
  | .ok none => none
  | .ok (some text) =>
    if (answer text).2.isEmpty then none
    else some ⟨⟨file.relative, none, (answer text).2⟩, (answer text).1⟩

end FoundFile

mutual

/-- An entry of an outline and every entry below it. -/
def OutlineEntry.nodes : OutlineEntry → List OutlineEntry
  | ⟨label, detail, kind, range, selection, children⟩ =>
    ⟨label, detail, kind, range, selection, children⟩ :: OutlineEntry.nodesAll children

/-- Some entries of an outline and every entry below them. -/
def OutlineEntry.nodesAll : List OutlineEntry → List OutlineEntry
  | [] => []
  | node :: later => node.nodes ++ OutlineEntry.nodesAll later

end

/-- A section of a report in which every file stands for itself, `reported?` being what is said of a file
and `size` the number of items in what is said. -/
structure Itemizes {ε : Type} (reported? : FoundFile Stored → Option ε) (path : ε → String)
    (size : ε → Nat) (found : List (FoundFile Stored)) (summary : Summary) (entries : List ε) :
    Prop where
  /-- Of each file there is the one entry that it has by itself, or none if it has none. -/
  each : ∀ file ∈ found, entries.filter (path · == file.relative) = (reported? file).toList
  /-- Of anything else there is none. -/
  nothingElse : ∀ e ∈ entries, ∃ file ∈ found, reported? file = some e
  ordered : entries.Pairwise fun a b => path a < path b
  scanned : summary.filesScanned = found.length
  matched : summary.filesMatched = entries.length
  total : summary.totalMatches = some (entries.map size).sum

/-- A report in which every file stands for itself, in the section that the mode asks for and in no
other. -/
def ReportsEach (options : Options) (found : List (FoundFile Stored)) (report : Report) : Prop :=
  ∃ summary, report.summary = some summary ∧ report.error = none ∧
    match options.mode with
    | .outline =>
      report.diagnostics = none ∧ report.locations = none ∧
        ∃ entries, report.outline = some entries ∧
          Itemizes (FoundFile.reported? fun text => (Document.ofString text).outline) FileEntry.path
            (fun e => (OutlineEntry.nodesAll e.items).length) found summary entries
    | .check =>
      report.outline = none ∧ report.locations = none ∧
        ∃ entries, report.diagnostics = some entries ∧
          Itemizes (FoundFile.reported? fun text => (Document.ofString text).diagnostics) FileEntry.path
            (fun e => e.items.length) found summary entries
    | .definition query =>
      report.outline = none ∧ report.diagnostics = none ∧
        ∃ entries, report.locations = some entries ∧
          Itemizes (FoundFile.lookedUp? fun text => Findings.answer none query (.ofString text))
            (fun e => e.path) (fun e => e.items.length) found summary entries
    | .references query =>
      report.outline = none ∧ report.diagnostics = none ∧
        ∃ entries, report.locations = some entries ∧
          Itemizes
            (FoundFile.lookedUp? fun text =>
              Findings.answer (some options.keepDeclarations) query (.ofString text))
            (fun e => e.path) (fun e => e.items.length) found summary entries

theorem OutlineEntry.countAll_eq_length : (nodes : List OutlineEntry) →
    countAll nodes = (nodesAll nodes).length
  | [] => rfl
  | ⟨label, detail, kind, range, selection, children⟩ :: later => by
    have below := OutlineEntry.countAll_eq_length children
    have beside := OutlineEntry.countAll_eq_length later
    rw [countAll, count, nodesAll, nodes, List.length_append, List.length_cons, below, beside]
    omega

section Order

variable {α : Type} {path : α → String}

/-- Sorting by paths that are different puts each strictly behind the one before it. -/
theorem pairwise_sorted {items : List α} (different : (items.map path).Nodup) :
    (items.mergeSort fun a b => decide (path a ≤ path b)).Pairwise fun a b => path a < path b := by
  have sorted : (items.mergeSort fun a b => decide (path a ≤ path b)).Pairwise
      fun a b => decide (path a ≤ path b) = true :=
    List.pairwise_mergeSort
      (fun a b c before after => by
        simpa using String.le_trans (of_decide_eq_true before) (of_decide_eq_true after))
      (fun a b => by simpa using String.le_total (path a) (path b)) items
  have distinct := List.pairwise_map.mp
    (((List.mergeSort_perm items fun a b => decide (path a ≤ path b)).map path).nodup_iff.mpr different)
  refine sorted.imp₂ (fun a b before other => ?_) distinct
  by_contra after
  exact other (String.le_antisymm (of_decide_eq_true before) (String.not_lt.mp after))

/-- Items whose paths ascend can be put in one order only. -/
theorem eq_of_pairwise_lt {items items' : List α} (same : items.Perm items')
    (ascends : items.Pairwise fun a b => path a < path b)
    (ascends' : items'.Pairwise fun a b => path a < path b) : items = items' :=
  same.eq_of_pairwise
    (fun _ _ _ _ before after => absurd (String.lt_trans before after) (String.lt_irrefl _))
    ascends ascends'

theorem nodup_of_pairwise_lt {items : List α} (ascends : items.Pairwise fun a b => path a < path b) :
    (items.map path).Nodup := by
  refine List.pairwise_map.mpr (ascends.imp fun {a b} before same => ?_)
  exact String.lt_irrefl (path b) (same ▸ before)

/-- What two selections take together is what they take one after the other, if no item is taken by
both. -/
theorem filterMap_append_perm {β : Type} {f g h : α → Option β}
    (splits : ∀ a, h a = f a ∧ g a = none ∨ h a = g a ∧ f a = none) (items : List α) :
    (items.filterMap f ++ items.filterMap g).Perm (items.filterMap h) := by
  induction items with
  | nil => exact .nil
  | cons a later ih =>
    rcases splits a with ⟨same, other⟩ | ⟨same, other⟩
    · rw [List.filterMap_cons_none other, List.filterMap_cons, List.filterMap_cons, same]
      cases f a with
      | none => exact ih
      | some b => exact ih.cons b
    · rw [List.filterMap_cons_none other, List.filterMap_cons, List.filterMap_cons, same]
      cases g a with
      | none => exact ih
      | some b => exact List.perm_middle.trans (ih.cons b)

end Order

namespace Table

variable {α : Type}

theorem insertEntry_last {name : String} {entries : List (String × α)}
    (above : ∀ entry ∈ entries, entry.1 < name) (value : α) :
    insertEntry name value entries = entries ++ [(name, value)] := by
  induction entries with
  | nil => rfl
  | cons first later ih =>
    obtain ⟨here, further⟩ := List.forall_mem_cons.mp above
    have notBefore : ¬ name < first.1 := fun before =>
      String.lt_irrefl name (String.lt_trans before here)
    have different : name ≠ first.1 := fun same => String.lt_irrefl name (same ▸ here)
    rw [insertEntry, if_neg notBefore, if_neg different, ih further, List.cons_append]

theorem entries_foldl_insert {entries : List (String × α)} {t : Table α}
    (ascends : (t.entries ++ entries).Pairwise fun a b => a.1 < b.1) :
    (entries.foldl (fun t entry => t.insert entry.1 entry.2) t).entries = t.entries ++ entries := by
  induction entries generalizing t with
  | nil => exact (List.append_nil _).symm
  | cons entry later ih =>
    have above : ∀ earlier ∈ t.entries, earlier.1 < entry.1 := fun earlier member =>
      (List.pairwise_append.mp ascends).2.2 earlier member entry List.mem_cons_self
    have last : (t.insert entry.1 entry.2).entries = t.entries ++ [entry] :=
      insertEntry_last above entry.2
    have inserted : (t.insert entry.1 entry.2).entries ++ later = t.entries ++ entry :: later := by
      rw [last, List.append_assoc, List.singleton_append]
    rw [List.foldl_cons, ih (inserted ▸ ascends), inserted]

/-- A table of entries that ascend has them in their order. -/
theorem entries_ofList {entries : List (String × α)}
    (ascends : entries.Pairwise fun a b => a.1 < b.1) : (ofList entries).entries = entries :=
  entries_foldl_insert ascends

end Table

section Sections

variable {β ε : Type} {files found : List (FoundFile Stored)}

namespace FoundFile

/-- The outcome of an analysis of one file, if there is anything to analyse. -/
def outcome? (analysis : String → β) (file : FoundFile Stored) : Option (FileResult β) :=
  match Source.read file.content with
  | .ok (some text) => some ⟨file.relative, .ok (analysis text)⟩
  | .ok none => none
  | .error e => some ⟨file.relative, .error e⟩

theorem analyze_eq (files : List (FoundFile Stored)) (analysis : String → β) :
    analyze files false analysis = files.filterMap (outcome? analysis) := rfl

/-- An entry made of every outcome, and kept if there is something to report, is made file by file. -/
theorem reported_eq {analysis : String → β} {entry : FileResult β → ε} {isReportable : ε → Bool}
    {reported? : FoundFile Stored → Option ε}
    (alone : ∀ file, (((outcome? analysis file).map entry).filter isReportable) = reported? file)
    (files : List (FoundFile Stored)) :
    ((analyze files false analysis).map entry).filter isReportable = files.filterMap reported? := by
  rw [analyze_eq, List.map_filterMap, List.filter_filterMap]
  exact List.filterMap_congr fun file _ => alone file

theorem outcome?_reported {α : Type} (analysis : String → List α) (file : FoundFile Stored) :
    ((outcome? analysis file).map FileResult.entry).filter FileEntry.isReportable =
      file.reported? analysis := by
  unfold outcome? reported?
  rcases Source.read file.content with e | _ | text
  · simp [FileResult.entry, FileEntry.isReportable]
  · rfl
  · cases finds : analysis text <;> simp [FileResult.entry, FileEntry.isReportable, finds, Option.filter]

theorem outcome?_lookedUp (answer : String → Option String × List Location)
    (file : FoundFile Stored) :
    ((outcome? answer file).map FileResult.lookupEntry).filter (·.isReportable) =
      file.lookedUp? answer := by
  unfold outcome? lookedUp?
  rcases Source.read file.content with e | _ | text
  · simp [FileResult.lookupEntry, FileEntry.isReportable]
  · rfl
  · cases finds : (answer text).2 <;>
      simp [FileResult.lookupEntry, FileEntry.isReportable, finds, Option.filter]

/-- What is said of a file is said under its path. -/
theorem path_reported? {α : Type} {analysis : String → List α} {file : FoundFile Stored}
    {e : FileEntry α} (reported : file.reported? analysis = some e) : e.path = file.relative := by
  unfold reported? at reported
  split at reported
  · exact Option.some.inj reported ▸ rfl
  · cases reported
  · split at reported
    · cases reported
    · exact Option.some.inj reported ▸ rfl

theorem path_lookedUp? {answer : String → Option String × List Location}
    {file : FoundFile Stored} {e : LookupEntry} (reported : file.lookedUp? answer = some e) :
    e.path = file.relative := by
  unfold lookedUp? at reported
  split at reported
  · exact Option.some.inj reported ▸ rfl
  · cases reported
  · split at reported
    · cases reported
    · exact Option.some.inj reported ▸ rfl

theorem inOrder_ascends {α : Type} {found : List (FoundFile α)}
    (distinct : (found.map FoundFile.relative).Nodup) :
    (inOrder found).Pairwise fun a b => a.relative < b.relative := pairwise_sorted distinct

theorem mem_inOrder {α : Type} {found : List (FoundFile α)} {file : FoundFile α} :
    file ∈ inOrder found ↔ file ∈ found :=
  (List.mergeSort_perm found _).mem_iff

end FoundFile

theorem filterMap_ascends {reported? : FoundFile Stored → Option ε} {path : ε → String}
    (placed : ∀ file e, reported? file = some e → path e = file.relative)
    (ascends : files.Pairwise fun a b => a.relative < b.relative) :
    (files.filterMap reported?).Pairwise fun a b => path a < path b := by
  refine ascends.filterMap reported? fun a b before e isEntry e' isEntry' => ?_
  rw [placed a e isEntry, placed b e' isEntry']
  exact before

/-- Two kinds of entries that no file has both of, sorted together, come file by file. -/
theorem sorted_filterMap_append {reported? f g : FoundFile Stored → Option ε} {path : ε → String}
    (placed : ∀ file e, reported? file = some e → path e = file.relative)
    (ascends : files.Pairwise fun a b => a.relative < b.relative)
    (splits : ∀ file, reported? file = f file ∧ g file = none ∨ reported? file = g file ∧ f file = none) :
    ((files.filterMap f ++ files.filterMap g).mergeSort fun a b => decide (path a ≤ path b)) =
      files.filterMap reported? := by
  have ascending := filterMap_ascends placed ascends
  have same := filterMap_append_perm splits files
  refine eq_of_pairwise_lt ((List.mergeSort_perm ..).trans same) (pairwise_sorted ?_) ascending
  exact (same.map path).nodup_iff.mpr (nodup_of_pairwise_lt ascending)

/-- Of files with different paths, the entries under the path of one are that file's. -/
theorem filter_path_eq {reported? : FoundFile Stored → Option ε} {path : ε → String}
    (placed : ∀ file e, reported? file = some e → path e = file.relative)
    (ascends : files.Pairwise fun a b => a.relative < b.relative)
    {file : FoundFile Stored} (member : file ∈ files) :
    (files.filterMap reported?).filter (path · == file.relative) = (reported? file).toList := by
  obtain ⟨before, after, rfl⟩ := List.append_of_mem member
  obtain ⟨-, fileAscends, across⟩ := List.pairwise_append.mp ascends
  have others {part : List (FoundFile Stored)} (other : ∀ f ∈ part, f.relative ≠ file.relative) :
      (part.filterMap reported?).filter (path · == file.relative) = [] := by
    refine List.filter_eq_nil_iff.mpr fun e among => ?_
    obtain ⟨f, inPart, isEntry⟩ := List.mem_filterMap.mp among
    simpa [placed f e isEntry] using other f inPart
  have earlier : (before.filterMap reported?).filter (path · == file.relative) = [] :=
    others fun f among same =>
      String.lt_irrefl file.relative (same ▸ across f among file List.mem_cons_self)
  have later : (after.filterMap reported?).filter (path · == file.relative) = [] :=
    others fun f among same =>
      String.lt_irrefl file.relative (same ▸ (List.pairwise_cons.mp fileAscends).1 f among)
  rw [List.filterMap_append, List.filter_append, earlier, List.nil_append, List.filterMap_cons]
  cases own : reported? file with
  | none => exact later
  | some e =>
    rw [List.filter_cons_of_pos (by simp [placed file e own]), later]
    rfl

/-- Entries made file by file make a section in which every file stands for itself. -/
theorem itemizes_filterMap {reported? : FoundFile Stored → Option ε} {path : ε → String}
    (placed : ∀ file e, reported? file = some e → path e = file.relative)
    (distinct : (found.map FoundFile.relative).Nodup) {size : ε → Nat} {summary : Summary}
    (scanned : summary.filesScanned = (FoundFile.inOrder found).length)
    (matched : summary.filesMatched = ((FoundFile.inOrder found).filterMap reported?).length)
    (total : summary.totalMatches =
      some (Findings.total size ((FoundFile.inOrder found).filterMap reported?))) :
    Itemizes reported? path size found summary ((FoundFile.inOrder found).filterMap reported?) where
  each file member :=
    filter_path_eq placed (FoundFile.inOrder_ascends distinct) (FoundFile.mem_inOrder.mpr member)
  nothingElse e among := by
    obtain ⟨file, listed, isEntry⟩ := List.mem_filterMap.mp among
    exact ⟨file, FoundFile.mem_inOrder.mp listed, isEntry⟩
  ordered := filterMap_ascends placed (FoundFile.inOrder_ascends distinct)
  scanned := scanned.trans (List.mergeSort_perm ..).length_eq
  matched := matched
  total := by
    rw [total, Findings.total, List.sum_eq_foldr, List.foldr_map]

end Sections

namespace Findings

variable {files : List (FoundFile Stored)}

/-- The row of the table of diagnostics that a file has if it can be read. -/
def row? (file : FoundFile Stored) : Option (String × List Diagnostic) :=
  match Source.read file.content with
  | .ok (some text) => some (file.relative, (Document.ofString text).diagnostics)
  | _ => none

theorem row_path {file : FoundFile Stored} {row : String × List Diagnostic}
    (isRow : row? file = some row) : row.1 = file.relative := by
  unfold row? at isRow
  split at isRow
  · exact Option.some.inj isRow ▸ rfl
  · cases isRow

/-- The table of diagnostics has the files that could be read, in the order in which they were
analysed. -/
theorem entries_diagnosticsByPath (ascends : files.Pairwise fun a b => a.relative < b.relative) :
    (diagnosticsByPath (FoundFile.analyze files false fun text =>
      (Document.ofString text).diagnostics)).entries = files.filterMap row? := by
  rw [diagnosticsByPath, FoundFile.analyze_eq, List.filterMap_filterMap]
  refine (congrArg (fun rows => (Table.ofList rows).entries) ?_).trans
    (Table.entries_ofList (filterMap_ascends (fun file row => row_path) ascends))
  refine List.filterMap_congr fun file _ => ?_
  unfold FoundFile.outcome? row?
  rcases Source.read file.content with e | _ | text <;> rfl

/-- The files with diagnostics and the files that could not be read, sorted together, are all the files
with something to report. -/
theorem diagnostics_ofDiagnostics (ascends : files.Pairwise fun a b => a.relative < b.relative) :
    (ofDiagnostics files false).report.diagnostics =
      some (files.filterMap (FoundFile.reported? fun text => (Document.ofString text).diagnostics)) := by
  simp only [ofDiagnostics, entries_diagnosticsByPath ascends]
  simp only [FoundFile.analyze_eq, List.filter_filterMap, List.map_filterMap]
  refine congrArg some (sorted_filterMap_append (fun file e => FoundFile.path_reported?) ascends ?_)
  intro file
  unfold FoundFile.outcome? FoundFile.reported? row?
  rcases Source.read file.content with e | _ | text
  · exact .inr ⟨rfl, rfl⟩
  · exact .inl ⟨rfl, rfl⟩
  · refine .inl ⟨?_, rfl⟩
    cases finds : (Document.ofString text).diagnostics <;> simp [finds, Option.filter]

/-- The findings with one section and its figures. -/
def ofEntries {ε : Type} (report : List ε → Report) (size : ε → Nat) (entries : List ε) : Findings :=
  { report := report entries, filesMatched := entries.length, totalMatches := total size entries }

theorem ofOutlines_eq (files : List (FoundFile Stored)) :
    ofOutlines files false =
      ofEntries (fun entries => { Report.empty with outline := some entries })
        (fun e => (OutlineEntry.nodesAll e.items).length)
        (files.filterMap (FoundFile.reported? fun text => (Document.ofString text).outline)) := by
  rw [← FoundFile.reported_eq (FoundFile.outcome?_reported _)]
  simp only [ofOutlines, ofEntries, OutlineEntry.countAll_eq_length]

theorem ofDiagnostics_eq (ascends : files.Pairwise fun a b => a.relative < b.relative) :
    ofDiagnostics files false =
      ofEntries (fun entries => { Report.empty with diagnostics := some entries })
        (fun e => e.items.length)
        (files.filterMap (FoundFile.reported? fun text => (Document.ofString text).diagnostics)) := by
  have entries := Option.some.inj (diagnostics_ofDiagnostics ascends)
  rw [← entries]
  rfl

theorem ofQuery_eq (files : List (FoundFile Stored)) (query : Query) (kept : Option Bool) :
    ofQuery files false query kept =
      ofEntries
        (fun entries =>
          { Report.empty with query := some (queryLabel query), locations := some entries })
        (fun e => e.items.length)
        (files.filterMap (FoundFile.lookedUp? fun text => answer kept query (.ofString text))) := by
  rw [← FoundFile.reported_eq (FoundFile.outcome?_lookedUp _)]
  rfl

end Findings

/-- Of files with different paths, each is reported by itself in every mode: it has one entry if it
could not be read or if something was found in it and otherwise none, that entry is what is said of the
file alone, entries come in the order of their paths, and the figures are the number of entries and of
all their items. -/
theorem files_reported_each (options : Options) (found : List (FoundFile Stored))
    (distinct : (found.map FoundFile.relative).Nodup) (elapsed : Nat) :
    ReportsEach options found
      (Program.reportOf options (FoundFile.inOrder found) false elapsed) := by
  have ascends := FoundFile.inOrder_ascends distinct
  refine ⟨_, rfl, rfl, ?_⟩
  cases mode : options.mode with
  | outline =>
    simp only [Program.reportOf, Findings.ofMode, mode, Findings.ofOutlines_eq]
    exact ⟨rfl, rfl, _, rfl,
      itemizes_filterMap (fun file e => FoundFile.path_reported?) distinct rfl rfl rfl⟩
  | check =>
    simp only [Program.reportOf, Findings.ofMode, mode, Findings.ofDiagnostics_eq ascends]
    exact ⟨rfl, rfl, _, rfl,
      itemizes_filterMap (fun file e => FoundFile.path_reported?) distinct rfl rfl rfl⟩
  | definition query =>
    simp only [Program.reportOf, Findings.ofMode, mode, Findings.ofQuery_eq]
    exact ⟨rfl, rfl, _, rfl,
      itemizes_filterMap (fun file e => FoundFile.path_lookedUp?) distinct rfl rfl rfl⟩
  | references query =>
    simp only [Program.reportOf, Findings.ofMode, mode, Findings.ofQuery_eq]
    exact ⟨rfl, rfl, _, rfl,
      itemizes_filterMap (fun file e => FoundFile.path_lookedUp?) distinct rfl rfl rfl⟩

/-- Options for a check. -/
def checking : Options :=
  { root := ".", globs := ["*.liva"], mode := .check, keepDeclarations := true, format := .yaml,
    timeout := none, excludes := [], withoutUsual := false }

/-- Files out of order: one that cannot be read, one with a class of an interface that is not declared,
one that is clean and one that is empty. -/
def shelf : List (FoundFile Stored) :=
  [⟨"z", .unreadable "denied"⟩, ⟨"b", .bytes "Tag : Named \x7b\n\x7d\n".toUTF8⟩,
    ⟨"c", .bytes "main() => 0\n".toUTF8⟩, ⟨"a", .bytes "".toUTF8⟩]

private theorem fromUTF8?_toUTF8 (text : String) : String.fromUTF8? text.toUTF8 = some text := by
  have valid : text.toUTF8.IsValidUTF8 := text.isValidUTF8
  rw [String.fromUTF8?, dif_pos (by simpa using valid)]
  rfl

/-- In a check of `shelf`, the class and the unreadable file have an entry each, and the others have
none. -/
theorem files_reported_each_of_shelf :
    (shelf.map FoundFile.relative).Nodup ∧
      ∃ entries,
        (Program.reportOf checking (FoundFile.inOrder shelf) false 0).diagnostics = some entries ∧
        (entries.filter (·.path == "b")).map (fun e => e.items.map Diagnostic.message) =
          [["Interface 'Named' not found"]] ∧
        (entries.filter (·.path == "z")).map FileEntry.error = [some "denied"] ∧
        entries.filter (·.path == "c") = [] ∧ entries.filter (·.path == "a") = [] := by
  have distinct : (shelf.map FoundFile.relative).Nodup := by decide
  obtain ⟨_, -, -, -, -, entries, listed, itemizes⟩ := files_reported_each checking shelf distinct 0
  have reads {text : String} (plain : (text.toUTF8.isEmpty || Source.looksBinary text.toUTF8) = false) :
      Source.read (.bytes text.toUTF8) = .ok (some (Source.withoutMark text)) := by
    rw [Source.read, Source.decode, fromUTF8?_toUTF8, plain]
    rfl
  have each {file : FoundFile Stored} (member : file ∈ shelf) := itemizes.each file member
  refine ⟨distinct, entries, listed, ?_, ?_, ?_, ?_⟩
  · have own := each (.tail _ (.head _))
    rw [FoundFile.reported?, reads (by decide +kernel)] at own
    rw [own]
    decide +kernel
  · rw [each (.head _)]
    rfl
  · have own := each (.tail _ (.tail _ (.head _)))
    rw [FoundFile.reported?, reads (by decide +kernel)] at own
    rw [own]
    decide +kernel
  · rw [each (.tail _ (.tail _ (.tail _ (.head _))))]
    rfl

end SymbolIndex
