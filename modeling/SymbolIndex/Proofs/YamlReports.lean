import SymbolIndex.Proofs.YamlEntries

/-! Reports can be told apart by their YAML. Lines that are the same are the same section by section and
file by file, because what stands in a section does not begin with a letter and what stands in a file is
further to the right than its dash, whatever the texts are. -/
namespace SymbolIndex

open Yaml

namespace Yaml

theorem Item.not_lettered {lines : List String} (isItem : Item 0 lines) :
    ∀ line ∈ lines, ¬ Lettered line := by
  obtain ⟨first, body, rfl, deeper⟩ := isItem
  refine List.forall_mem_cons.mpr ⟨not_lettered_item first, fun line member => ?_⟩
  exact (deeper line member).not_lettered

theorem begins_list (width : Nat) (key : String) (lines : List String) :
    Begins width [key] (list width key lines) := by
  have anything : ∀ line ∈ lines, True := fun _ _ => trivial
  exact (section_list anything).begins_self

end Yaml

namespace FileEntry

variable {α : Type} {body body' : List String}

theorem field_error (e : FileEntry α) : Field 2 "error" (e.error.map (scalar 2 "error")).toList :=
  field_optional (fun message => keyed_plain 2 "error" (inlined message)) e.error

/-- A file is an item of a list if what it holds stands to the right of the left margin. -/
theorem isItem (e : FileEntry α) (deeper : ∀ line ∈ body, From 1 line) : Item 0 (e.headLines ++ body) := by
  refine ⟨_, (e.error.map (scalar 2 "error")).toList ++ body, rfl, ?_⟩
  rw [List.forall_mem_append]
  exact ⟨forall_mem_optional (fun message => from_indented (by omega) _) e.error, deeper⟩

theorem oneLine_headLines (e : FileEntry α) : ∀ line ∈ e.headLines, OneLine line := by
  have path : OneLine ("path: " ++ inlined e.path) := oneLine_append.mpr ⟨by decide, oneLine_inlined e.path⟩
  exact List.forall_mem_cons.mpr ⟨oneLine_item path, forall_mem_optional (oneLine_scalar rfl) e.error⟩

/-- The first lines of a file tell its path, and whether there is an error and which. -/
theorem headLines_append_inj {e e' : FileEntry α} {keys : List String} (rest : Begins 2 keys body)
    (rest' : Begins 2 keys body') (apart : isKeyApart "error" keys = true)
    (same : e.headLines ++ body = e'.headLines ++ body') :
    e.path = e'.path ∧ e.error = e'.error ∧ body = body' := by
  obtain ⟨paths, later⟩ := List.cons.inj same
  obtain ⟨errors, bodies⟩ := split_field e.field_error e'.field_error rest rest' apart later
  have samePath : e.path = e'.path := inlined_inj ((String.append_right_inj _).mp (item_inj paths))
  exact ⟨samePath, optional_inj scalar_inj errors, bodies⟩

end FileEntry

section Files

/-- The lines of a file of an outline. -/
def outlineFileLines (e : FileEntry OutlineEntry) : List String :=
  e.headLines ++ list 2 "symbols" (OutlineEntry.yamlLinesAll 2 e.items)

/-- The lines of a file that was checked. -/
def diagnosticFileLines (e : FileEntry Diagnostic) : List String :=
  e.headLines ++ list 2 "items" (e.items.flatMap Diagnostic.yamlLines)

/-- The lines of a file that something was looked up in. -/
def lookupFileLines (e : LookupEntry) : List String :=
  e.headLines ++ ((e.name.map (scalar 2 "name")).toList ++
    list 2 "matches" (e.items.flatMap Location.yamlLines))

theorem outlineFile_isItem (e : FileEntry OutlineEntry) : Item 0 (outlineFileLines e) :=
  e.isItem (from_list (by omega) _ fun line member =>
    (OutlineEntry.from_yamlLinesAll 2 e.items line member).mono (by omega))

theorem diagnosticFile_isItem (e : FileEntry Diagnostic) : Item 0 (diagnosticFileLines e) := by
  refine e.isItem (from_list (by omega) _ fun line member => ?_)
  obtain ⟨g, -, inside⟩ := List.mem_flatMap.mp member
  exact (g.isItem.from line inside).mono (by omega)

theorem lookupFile_isItem (e : LookupEntry) : Item 0 (lookupFileLines e) := by
  have names : ∀ line ∈ (e.name.map (scalar 2 "name")).toList, From 1 line :=
    forall_mem_optional (fun name => from_indented (by omega) _) e.name
  refine e.isItem (List.forall_mem_append.mpr ⟨names, from_list (by omega) _ fun line member => ?_⟩)
  obtain ⟨l, -, inside⟩ := List.mem_flatMap.mp member
  exact (l.isItem.from line inside).mono (by omega)

theorem oneLine_outlineFile (e : FileEntry OutlineEntry) : ∀ line ∈ outlineFileLines e, OneLine line :=
  List.forall_mem_append.mpr
    ⟨e.oneLine_headLines, oneLine_list rfl (OutlineEntry.oneLineAll 2 e.items)⟩

theorem oneLine_diagnosticFile {e : FileEntry Diagnostic} (blockable : ∀ g ∈ e.items, Blockable g.message) :
    ∀ line ∈ diagnosticFileLines e, OneLine line := by
  refine List.forall_mem_append.mpr ⟨e.oneLine_headLines, oneLine_list rfl fun line member => ?_⟩
  obtain ⟨g, among, inside⟩ := List.mem_flatMap.mp member
  exact Diagnostic.oneLine (blockable g among) line inside

theorem oneLine_lookupFile (e : LookupEntry) : ∀ line ∈ lookupFileLines e, OneLine line := by
  have names : ∀ line ∈ (e.name.map (scalar 2 "name")).toList, OneLine line :=
    forall_mem_optional (oneLine_scalar rfl) e.name
  refine List.forall_mem_append.mpr ⟨e.oneLine_headLines, List.forall_mem_append.mpr
    ⟨names, oneLine_list rfl fun line member => ?_⟩⟩
  obtain ⟨l, -, inside⟩ := List.mem_flatMap.mp member
  exact l.oneLine line inside

theorem outlineFile_inj {e e' : FileEntry OutlineEntry} (fits : OutlineEntry.FitsAll e.items)
    (fits' : OutlineEntry.FitsAll e'.items) (same : outlineFileLines e = outlineFileLines e') :
    e.mapItems OutlineEntry.unselectedAll = e'.mapItems OutlineEntry.unselectedAll := by
  obtain ⟨paths, errors, lists⟩ := FileEntry.headLines_append_inj (begins_list 2 "symbols" _)
    (begins_list 2 "symbols" _) rfl same
  have items := OutlineEntry.all_inj (OutlineEntry.tellsAll e.items) fits fits' (list_inj lists)
  rw [FileEntry.mapItems, FileEntry.mapItems, paths, errors, items]

theorem diagnosticFile_inj {e e' : FileEntry Diagnostic} (fits : ∀ g ∈ e.items, g.span.Fits)
    (fits' : ∀ g ∈ e'.items, g.span.Fits) (blockable : ∀ g ∈ e.items, Blockable g.message)
    (blockable' : ∀ g ∈ e'.items, Blockable g.message)
    (same : diagnosticFileLines e = diagnosticFileLines e') : e = e' := by
  obtain ⟨path, error, items⟩ := e
  obtain ⟨path', error', items'⟩ := e'
  obtain ⟨paths, errors, lists⟩ := FileEntry.headLines_append_inj (begins_list 2 "items" _)
    (begins_list 2 "items" _) rfl same
  obtain rfl : path = path' := paths
  obtain rfl : error = error' := errors
  obtain rfl : items = items' := eq_of_items Diagnostic.isItem (fun g member g' member' =>
    Diagnostic.yamlLines_inj (fits g member) (fits' g' member') (blockable g member)
      (blockable' g' member')) (list_inj lists)
  rfl

theorem lookupFile_inj {e e' : LookupEntry} (fits : ∀ l ∈ e.items, l.span.Fits)
    (fits' : ∀ l ∈ e'.items, l.span.Fits) (same : lookupFileLines e = lookupFileLines e') : e = e' := by
  obtain ⟨⟨path, error, items⟩, name⟩ := e
  obtain ⟨⟨path', error', items'⟩, name'⟩ := e'
  have field (name : Option String) : Field 2 "name" (name.map (scalar 2 "name")).toList :=
    field_optional (fun name => keyed_plain 2 "name" (inlined name)) name
  have rest (name : Option String) (lines : List String) :=
    (field name).begins (begins_list 2 "matches" lines)
  obtain ⟨paths, errors, lists⟩ := FileEntry.headLines_append_inj (rest _ _) (rest _ _) rfl same
  obtain ⟨names, lists⟩ := split_field (field _) (field _) (begins_list 2 "matches" _)
    (begins_list 2 "matches" _) rfl lists
  obtain rfl : path = path' := paths
  obtain rfl : error = error' := errors
  obtain rfl : name = name' := optional_inj scalar_inj names
  obtain rfl : items = items' := eq_of_items Location.isItem (fun l member l' member' =>
    Location.yamlLines_inj (fits l member) (fits' l' member')) (list_inj lists)
  rfl

end Files

namespace Report

/-- The report as YAML shows it: sections without files are not told from absent ones, and the places of
names in the outline are not shown. -/
def visible (r : Report) : Report :=
  { r.unselected with
    outline := some (r.unselected.outline.getD [])
    diagnostics := some (r.diagnostics.getD [])
    locations := some (r.locations.getD []) }

/-- Whether every message of several lines has no return in it and does not end in a newline. -/
def MessagesBlockable (r : Report) : Prop :=
  ∀ files ∈ r.diagnostics, ∀ e ∈ files, ∀ g ∈ e.items, Blockable g.message

/-- What holds of every file of a section that is there holds of every file that is shown. -/
theorem forall_mem_files {α : Type} {p : α → Prop} {there : Option (List α)}
    (holds : ∀ files ∈ there, ∀ e ∈ files, p e) : ∀ e ∈ there.getD [], p e := by
  cases there with
  | none => exact nofun
  | some files => exact holds files rfl

/-- The lines of the figures, if there are any. -/
def summaryLines (summary : Option Summary) : List String := (summary.map Summary.yamlLines).getD []

theorem yamlLines_eq (r : Report) :
    r.yamlLines = summaryLines r.summary ++ ((r.error.map (scalar 0 "error")).toList ++
      ((r.query.map (scalar 0 "query")).toList ++
        (list 0 "outline" ((r.outline.getD []).flatMap outlineFileLines) ++
          (list 0 "diagnostics" ((r.diagnostics.getD []).flatMap diagnosticFileLines) ++
            list 0 "locations" ((r.locations.getD []).flatMap lookupFileLines))))) := by
  simp only [yamlLines, List.append_assoc]
  rfl

/-- What is written for a report is read off what it shows. -/
theorem yamlLines_visible (r : Report) : r.visible.yamlLines = r.yamlLines := by
  have files (files : List (FileEntry OutlineEntry)) :
      (files.map (FileEntry.mapItems OutlineEntry.unselectedAll)).flatMap outlineFileLines =
        files.flatMap outlineFileLines := by
    rw [List.flatMap_map]
    refine List.flatMap_congr fun e _ => ?_
    exact congrArg (fun lines => e.headLines ++ list 2 "symbols" lines)
      (OutlineEntry.yamlLinesAll_unselectedAll 2 e.items)
  rw [yamlLines_eq, yamlLines_eq]
  cases outline : r.outline with
  | none => simp [visible, unselected, outline]
  | some entries => simp [visible, unselected, outline, files entries]

section Sections

theorem section_summaryLines (summary : Option Summary) :
    Section (fun line => ¬ Lettered line) 0 "meta" (summaryLines summary) := by
  cases summary with
  | none => exact .inl rfl
  | some s =>
    obtain ⟨body, lines, below⟩ := s.yamlLines_tail
    refine .inr ⟨_, body, lines, keyed_opening 0 "meta", fun line member => ?_⟩
    exact (below line member).1.not_lettered

theorem section_files {α : Type} {write : α → List String} (items : ∀ x, Item 0 (write x)) (key : String)
    (files : List α) : Section (fun line => ¬ Lettered line) 0 key (list 0 key (files.flatMap write)) := by
  refine section_list fun line member => ?_
  obtain ⟨e, -, inside⟩ := List.mem_flatMap.mp member
  exact (items e).not_lettered line inside

theorem section_optional (key : String) (there : Option String) :
    Section (fun line => ¬ Lettered line) 0 key (there.map (scalar 0 key)).toList :=
  (field_optional (fun value => keyed_plain 0 key (inlined value)) there).section

end Sections

theorem oneLine {r : Report} (blockable : r.MessagesBlockable) : ∀ line ∈ r.yamlLines, OneLine line := by
  rw [yamlLines_eq]
  simp only [List.forall_mem_append]
  refine ⟨?_, forall_mem_optional (oneLine_scalar rfl) r.error,
    forall_mem_optional (oneLine_scalar rfl) r.query, oneLine_list rfl ?_,
    oneLine_list rfl ?_, oneLine_list rfl ?_⟩
  · cases r.summary with
    | none => exact List.forall_mem_nil _
    | some s =>
      obtain ⟨body, lines, below⟩ := s.yamlLines_tail
      rw [summaryLines, Option.map_some, Option.getD_some, lines]
      exact List.forall_mem_cons.mpr ⟨by decide, fun line member => (below line member).2⟩
  · exact List.forall_mem_flatMap.mpr fun e _ => oneLine_outlineFile e
  · refine List.forall_mem_flatMap.mpr fun e among => ?_
    exact oneLine_diagnosticFile (forall_mem_files blockable e among)
  · exact List.forall_mem_flatMap.mpr fun e _ => oneLine_lookupFile e

theorem summaryLines_inj {summary summary' : Option Summary}
    (same : summaryLines summary = summaryLines summary') : summary = summary' := by
  cases summary with
  | none =>
    cases summary' with
    | none => rfl
    | some s => cases same.trans s.yamlLines_eq
  | some s =>
    cases summary' with
    | none => cases same.symm.trans s.yamlLines_eq
    | some s' => rw [Summary.yamlLines_inj same]

/-- The lines of a report tell what is visible of it. -/
theorem yamlLines_inj {r r' : Report} (fits : r.Fits) (fits' : r'.Fits) (blockable : r.MessagesBlockable)
    (blockable' : r'.MessagesBlockable) (same : r.yamlLines = r'.yamlLines) : r.visible = r'.visible := by
  -- Behind every section come the keys of later ones; a letter at the left ends what stands below a key.
  have above (key line : String) (is : isKey key = true) (keyed : Keyed 0 key line) : ¬¬ Lettered line :=
    not_not_intro (keyed.lettered is)
  have locations (r : Report) := begins_list 0 "locations" ((r.locations.getD []).flatMap lookupFileLines)
  have diagnostics (r : Report) :=
    (section_files diagnosticFile_isItem "diagnostics" (r.diagnostics.getD [])).begins (locations r)
  have outline (r : Report) :=
    (section_files outlineFile_isItem "outline" (r.outline.getD [])).begins (diagnostics r)
  have query (r : Report) := (section_optional "query" r.query).begins (outline r)
  have error (r : Report) := (section_optional "error" r.error).begins (query r)
  rw [yamlLines_eq, yamlLines_eq] at same
  obtain ⟨summaries, rest⟩ := split_section (section_summaryLines _) (section_summaryLines _) (error r)
    (error r') above rfl same
  obtain ⟨errors, rest⟩ := split_section (section_optional _ _) (section_optional _ _) (query r) (query r')
    above rfl rest
  obtain ⟨queries, rest⟩ := split_section (section_optional _ _) (section_optional _ _) (outline r)
    (outline r') above rfl rest
  obtain ⟨outlines, rest⟩ := split_section (section_files outlineFile_isItem _ _)
    (section_files outlineFile_isItem _ _) (diagnostics r) (diagnostics r') above rfl rest
  obtain ⟨checks, lookups⟩ := split_section (section_files diagnosticFile_isItem _ _)
    (section_files diagnosticFile_isItem _ _) (locations r) (locations r') above rfl rest
  have sameOutline := map_eq_of_items outlineFile_isItem (fun e member e' member' =>
    outlineFile_inj (forall_mem_files fits.outline e member) (forall_mem_files fits'.outline e' member'))
    (list_inj outlines)
  have sameDiagnostics := eq_of_items diagnosticFile_isItem (fun e member e' member' =>
    diagnosticFile_inj (forall_mem_files fits.diagnostics e member)
      (forall_mem_files fits'.diagnostics e' member') (forall_mem_files blockable e member)
      (forall_mem_files blockable' e' member')) (list_inj checks)
  have sameLocations := eq_of_items lookupFile_isItem (fun e member e' member' =>
    lookupFile_inj (forall_mem_files fits.locations e member) (forall_mem_files fits'.locations e' member'))
    (list_inj lookups)
  have shown (r : Report) : r.unselected.outline.getD [] =
      (r.outline.getD []).map (FileEntry.mapItems OutlineEntry.unselectedAll) :=
    Option.getD_map (List.map (FileEntry.mapItems OutlineEntry.unselectedAll)) [] r.outline
  have sameSummary := summaryLines_inj summaries
  have sameError : r.error = r'.error := optional_inj scalar_inj errors
  have sameQuery : r.query = r'.query := optional_inj scalar_inj queries
  rw [visible, visible, shown r, shown r', sameOutline, sameDiagnostics, sameLocations]
  simp only [unselected, sameSummary, sameError, sameQuery]

end Report

/-- Two reports are written as the same YAML exactly if nothing that YAML shows tells them apart. -/
theorem yaml_unambiguous {r r' : Report} (fits : r.Fits) (fits' : r'.Fits)
    (blockable : r.MessagesBlockable) (blockable' : r'.MessagesBlockable) :
    r.yaml = r'.yaml ↔ r.visible = r'.visible := by
  refine ⟨fun same => ?_, fun same => ?_⟩
  · have lines := join_inj (Report.oneLine blockable) (Report.oneLine blockable') same
    exact Report.yamlLines_inj fits fits' blockable blockable' lines
  · rw [Report.yaml, Report.yaml, ← r.yamlLines_visible, ← r'.yamlLines_visible, same]

/-- A report of a file whose path and messages look like lines of YAML. -/
def mimicry : Report :=
  { summary := some ⟨0, false, 1, 0, none⟩
    error := none
    query := some "a\noutline:"
    outline := some [⟨"b\n- path: c", none, [⟨"d", "", .constant, ⟨⟨0, 0⟩, ⟨0, 5⟩⟩, ⟨⟨0, 4⟩, ⟨0, 5⟩⟩, []⟩]⟩]
    diagnostics := some [⟨"", some "", [⟨⟨⟨0, 0⟩, ⟨0, 1⟩⟩, .error, "e\n\n  - severity: error", "check"⟩]⟩]
    locations := none }

/-- The report of the two files that `mimicry` looks like one of. -/
def mimicked : Report :=
  { mimicry with
    outline := some [⟨"b", none, []⟩,
      ⟨"c", none, [⟨"d", "", .constant, ⟨⟨0, 0⟩, ⟨0, 5⟩⟩, ⟨⟨0, 4⟩, ⟨0, 5⟩⟩, []⟩]⟩] }

/-- The path of one file does not pass for the paths of two. -/
theorem yaml_unambiguous_of_mimicry :
    mimicry.Fits ∧ mimicked.Fits ∧ mimicry.MessagesBlockable ∧ mimicked.MessagesBlockable ∧
      (mimicry.yaml = mimicked.yaml ↔ mimicry.visible = mimicked.visible) ∧
      mimicry.yaml ≠ mimicked.yaml := by
  have fits : mimicry.Fits := by
    constructor <;> simp +decide [mimicry, OutlineEntry.FitsAll, OutlineEntry.Fits]
  have fits' : mimicked.Fits := by
    constructor <;> simp +decide [mimicked, mimicry, OutlineEntry.FitsAll, OutlineEntry.Fits]
  have blockable : mimicry.MessagesBlockable := by simp +decide [Report.MessagesBlockable]
  have told := yaml_unambiguous fits fits' blockable blockable
  refine ⟨fits, fits', blockable, blockable, told, fun same => ?_⟩
  have files := congrArg (fun r => r.outline.map List.length) (told.mp same)
  cases files

end SymbolIndex
