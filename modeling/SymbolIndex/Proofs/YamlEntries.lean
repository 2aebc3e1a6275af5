import SymbolIndex.Proofs.YamlLayout

/-! What the YAML of an entry tells. Its lines begin with a dash or stand to the right of one, and keys
say what is left out, so the lines of a diagnostic, a location, a tree of an outline or the figures of a
run are those of no other. None of them has a line break in it. -/
namespace SymbolIndex

open Yaml

/-- The four numbers of a span tell it. -/
theorem Span.lines_inj {s s' : Span} (fits : s.Fits) (fits' : s'.Fits) {width : Nat}
    (first : s.firstLine = s'.firstLine) (later : s.laterLines width = s'.laterLines width) : s = s' := by
  obtain ⟨⟨line, column⟩, ⟨endLine, endColumn⟩⟩ := s
  obtain ⟨⟨line', column'⟩, ⟨endLine', endColumn'⟩⟩ := s'
  obtain ⟨⟨fits₁, fits₂⟩, fits₃, fits₄⟩ := fits
  obtain ⟨⟨fits₁', fits₂'⟩, fits₃', fits₄'⟩ := fits'
  simp only [laterLines, List.cons.injEq, and_true] at later
  obtain ⟨second, third, fourth⟩ := later
  obtain rfl := shown_inj fits₁ fits₁' (number_inj first)
  obtain rfl := shown_inj fits₂ fits₂' (number_inj second)
  obtain rfl := shown_inj fits₃ fits₃' (number_inj third)
  obtain rfl := shown_inj fits₄ fits₄' (number_inj fourth)
  rfl

/-- Whether a text of several lines has no return in it and does not end in a newline. -/
def Blockable (text : String) : Prop :=
  '\n' ∈ text.toList → '\r' ∉ text.toList ∧ text.toList.getLast? ≠ some '\n'

instance (text : String) : Decidable (Blockable text) :=
  inferInstanceAs (Decidable ('\n' ∈ text.toList → '\r' ∉ text.toList ∧ text.toList.getLast? ≠ some '\n'))

namespace Yaml

/-- The lines of a block tell its text. -/
theorem block_inj {width : Nat} {key a b : String} (several : '\n' ∈ a.toList) (several' : '\n' ∈ b.toList)
    (blockable : Blockable a) (blockable' : Blockable b) (same : block width key a = block width key b) :
    a = b := by
  have parts {text : String} (several : '\n' ∈ text.toList) (blockable : Blockable text) :
      Scalar.blockLines text.toList = Text.splitOn '\n' text.toList := by
    obtain ⟨free, ends⟩ := blockable several
    exact Scalar.blockLines_eq_splitOn (List.ne_nil_of_mem several) free ends
  have write_inj : Function.Injective fun line : List Char =>
      if line.isEmpty then "" else indented (width + 2) (String.ofList line) := by
    intro line line' same
    cases line with
    | nil =>
      cases line' with
      | nil => rfl
      | cons c line' =>
        have texts := congrArg String.toList same
        simp [indented] at texts
    | cons c line =>
      cases line' with
      | nil =>
        have texts := congrArg String.toList same
        simp [indented] at texts
      | cons c' line' => exact String.ofList_inj.mp (indented_inj same)
  have lines := (List.map_injective_iff.mpr write_inj) (List.cons.inj same).2
  rw [parts several blockable, parts several' blockable'] at lines
  exact String.toList_inj.mp (Text.splitOn_inj lines)

theorem text_inj {width : Nat} {key a b : String} (blockable : Blockable a) (blockable' : Blockable b)
    (same : text width key a = text width key b) : a = b := by
  have bar (text : String) : inlined text ≠ "|" := by
    intro bar
    refine Scalar.inlined_ne_bar text.toList ?_
    rw [← String.toList_ofList (l := Scalar.inlined text.toList)]
    exact congrArg String.toList bar
  unfold text at same
  by_cases several : a.toList.contains '\n' = true <;> by_cases several' : b.toList.contains '\n' = true
  · rw [if_pos several, if_pos several'] at same
    exact block_inj (List.contains_iff_mem.mp several) (List.contains_iff_mem.mp several') blockable
      blockable' same
  · rw [if_pos several, if_neg several'] at same
    exact absurd (plain_inj (List.cons.inj same).1).symm (bar b)
  · rw [if_neg several, if_pos several'] at same
    exact absurd (plain_inj (List.cons.inj same).1) (bar a)
  · rw [if_neg several, if_neg several'] at same
    exact scalar_inj (List.cons.inj same).1

theorem oneLine_text {width : Nat} {key value : String} (is : isKey key = true)
    (blockable : Blockable value) : ∀ line ∈ text width key value, OneLine line := by
  unfold text
  split
  case isFalse => exact List.forall_mem_singleton.mpr (oneLine_scalar is value)
  case isTrue several =>
    have newline := List.contains_iff_mem.mp several
    obtain ⟨free, ends⟩ := blockable newline
    refine List.forall_mem_cons.mpr ⟨oneLine_plain is (by decide), List.forall_mem_map.mpr ?_⟩
    rw [Scalar.blockLines_eq_splitOn (List.ne_nil_of_mem newline) free ends]
    intro part isPart
    split
    · decide
    · rw [oneLine_indented, OneLine, String.toList_ofList]
      exact Text.not_mem_of_mem_splitOn isPart

theorem from_text {width further : Nat} (right : width ≤ further) (key value : String) :
    ∀ line ∈ text further key value, From width line := by
  unfold text
  split
  · refine List.forall_mem_cons.mpr ⟨from_indented right _, List.forall_mem_map.mpr fun part _ => ?_⟩
    split
    · exact .inl rfl
    · exact from_indented (by omega) _
  · exact List.forall_mem_singleton.mpr (from_indented right _)

theorem from_list {width further : Nat} (right : width ≤ further) (key : String) {lines : List String}
    (deeper : ∀ line ∈ lines, From width line) : ∀ line ∈ list further key lines, From width line := by
  unfold list
  split
  · simp
  · exact List.forall_mem_cons.mpr ⟨from_indented right _, deeper⟩

end Yaml

theorem Span.from_laterLines {width further : Nat} (right : width ≤ further) (s : Span) :
    ∀ line ∈ s.laterLines further, From width line := by
  simp only [laterLines, List.forall_mem_cons]
  exact ⟨from_indented right _, from_indented right _, from_indented right _, nofun⟩

theorem Span.oneLine_firstLine (s : Span) : OneLine s.firstLine := oneLine_number rfl _

theorem Span.oneLine_laterLines (width : Nat) (s : Span) : ∀ line ∈ s.laterLines width, OneLine line := by
  simp only [laterLines, List.forall_mem_cons]
  exact ⟨oneLine_number rfl _, oneLine_number rfl _, oneLine_number rfl _, nofun⟩

theorem Kind.oneLine_word (kind : Kind) : OneLine kind.word := by cases kind <;> decide

namespace Diagnostic

theorem yamlLines_eq (g : Diagnostic) :
    g.yamlLines = item 2 ("severity: " ++ g.severity.word) :: indented 4 g.span.firstLine ::
      (g.span.laterLines 4 ++ scalar 4 "source" g.source :: text 4 "message" g.message) := rfl

theorem isItem (g : Diagnostic) : Item 2 g.yamlLines := by
  refine ⟨_, _, g.yamlLines_eq, ?_⟩
  simp only [List.forall_mem_cons, List.forall_mem_append]
  exact ⟨from_indented (by omega) _, g.span.from_laterLines (by omega), from_indented (by omega) _,
    from_text (by omega) _ _⟩

theorem oneLine {g : Diagnostic} (blockable : Blockable g.message) :
    ∀ line ∈ g.yamlLines, OneLine line := by
  have word : OneLine g.severity.word := by cases g.severity <;> decide
  rw [yamlLines_eq]
  simp only [List.forall_mem_cons, List.forall_mem_append]
  exact ⟨oneLine_item (oneLine_append.mpr ⟨by decide, word⟩), oneLine_indented.mpr g.span.oneLine_firstLine,
    g.span.oneLine_laterLines 4, oneLine_scalar rfl _, oneLine_text rfl blockable⟩

/-- The lines of a diagnostic tell it. -/
theorem yamlLines_inj {g g' : Diagnostic} (fits : g.span.Fits) (fits' : g'.span.Fits)
    (blockable : Blockable g.message) (blockable' : Blockable g'.message)
    (same : g.yamlLines = g'.yamlLines) : g = g' := by
  obtain ⟨span, severity, message, source⟩ := g
  obtain ⟨span', severity', message', source'⟩ := g'
  rw [yamlLines_eq, yamlLines_eq] at same
  obtain ⟨word, rest⟩ := List.cons.inj same
  obtain ⟨first, rest⟩ := List.cons.inj rest
  obtain ⟨later, rest⟩ := List.append_inj rest rfl
  obtain ⟨sources, messages⟩ := List.cons.inj rest
  obtain rfl : span = span' := Span.lines_inj fits fits' (indented_inj first) later
  obtain rfl : severity = severity' := Severity.word_inj ((String.append_right_inj _).mp (item_inj word))
  obtain rfl : source = source' := scalar_inj sources
  obtain rfl : message = message' := text_inj blockable blockable' messages
  rfl

end Diagnostic

namespace Location

theorem yamlLines_eq (l : Location) :
    l.yamlLines = item 2 l.span.firstLine :: (l.span.laterLines 4
      ++ (l.kind.map fun kind => plain 4 "kind" kind.word).toList) := rfl

theorem isItem (l : Location) : Item 2 l.yamlLines := by
  refine ⟨_, _, l.yamlLines_eq, ?_⟩
  rw [List.forall_mem_append]
  exact ⟨l.span.from_laterLines (by omega),
    forall_mem_optional (fun kind => from_indented (by omega) _) l.kind⟩

theorem oneLine (l : Location) : ∀ line ∈ l.yamlLines, OneLine line := by
  rw [yamlLines_eq, List.forall_mem_cons, List.forall_mem_append]
  exact ⟨oneLine_item l.span.oneLine_firstLine, l.span.oneLine_laterLines 4,
    forall_mem_optional (fun kind => oneLine_plain rfl kind.oneLine_word) l.kind⟩

/-- The lines of a location tell it. -/
theorem yamlLines_inj {l l' : Location} (fits : l.span.Fits) (fits' : l'.span.Fits)
    (same : l.yamlLines = l'.yamlLines) : l = l' := by
  obtain ⟨span, kind⟩ := l
  obtain ⟨span', kind'⟩ := l'
  rw [yamlLines_eq, yamlLines_eq] at same
  obtain ⟨first, rest⟩ := List.cons.inj same
  obtain ⟨later, kinds⟩ := List.append_inj rest rfl
  obtain rfl : span = span' := Span.lines_inj fits fits' (item_inj first) later
  obtain rfl : kind = kind' := optional_inj (fun same => Kind.word_inj (plain_inj same)) kinds
  rfl

end Location

namespace OutlineEntry

theorem yamlLinesAll_eq (width : Nat) (nodes : List OutlineEntry) :
    yamlLinesAll width nodes = nodes.flatMap (yamlLines width) := by
  induction nodes with
  | nil => rfl
  | cons node later ih => rw [yamlLinesAll, ih, List.flatMap_cons]

theorem unselectedAll_eq (nodes : List OutlineEntry) : unselectedAll nodes = nodes.map unselected := by
  induction nodes with
  | nil => rfl
  | cons node later ih => rw [unselectedAll, ih, List.map_cons]

theorem fitsAll_iff {nodes : List OutlineEntry} : FitsAll nodes ↔ ∀ node ∈ nodes, node.Fits := by
  induction nodes with
  | nil => simp [FitsAll]
  | cons node later ih => rw [FitsAll, ih, List.forall_mem_cons]

/-- The line of a detail, if there is one. -/
def detailLines (width : Nat) (detail : String) : List String :=
  if detail.isEmpty then [] else [scalar width "detail" detail]

theorem yamlLines_eq (width : Nat) (label detail : String) (kind : Kind) (range selection : Span)
    (children : List OutlineEntry) :
    yamlLines width ⟨label, detail, kind, range, selection, children⟩ =
      item width ("kind: " ++ kind.word) :: scalar (width + 2) "name" label ::
        (detailLines (width + 2) detail ++ indented (width + 2) range.firstLine ::
          (range.laterLines (width + 2)
            ++ list (width + 2) "members" (yamlLinesAll (width + 2) children))) := by
  rw [yamlLines, detailLines]
  simp

mutual

theorem isItem (width : Nat) : (node : OutlineEntry) → Item width (yamlLines width node)
  | ⟨label, detail, kind, range, selection, children⟩ => by
    have below := from_yamlLinesAll (width + 2) children
    refine ⟨_, _, yamlLines_eq .., ?_⟩
    simp only [List.forall_mem_cons, List.forall_mem_append]
    refine ⟨from_indented (by omega) _, ?_, from_indented (by omega) _,
      range.from_laterLines (by omega), from_list (by omega) _ ?_⟩
    · unfold detailLines
      split
      · exact nofun
      · exact List.forall_mem_singleton.mpr (from_indented (by omega) _)
    · exact fun line member => (below line member).mono (by omega)

theorem from_yamlLinesAll (width : Nat) : (nodes : List OutlineEntry) →
    ∀ line ∈ yamlLinesAll width nodes, From width line
  | [] => nofun
  | node :: later => by
    rw [yamlLinesAll, List.forall_mem_append]
    exact ⟨(isItem width node).from, from_yamlLinesAll width later⟩

end

mutual

theorem oneLine (width : Nat) : (node : OutlineEntry) → ∀ line ∈ yamlLines width node, OneLine line
  | ⟨label, detail, kind, range, selection, children⟩ => by
    have below := oneLineAll (width + 2) children
    have head : OneLine ("kind: " ++ kind.word) := oneLine_append.mpr ⟨by decide, kind.oneLine_word⟩
    rw [yamlLines_eq]
    simp only [List.forall_mem_cons, List.forall_mem_append]
    refine ⟨oneLine_item head, oneLine_scalar rfl _, ?_, oneLine_indented.mpr range.oneLine_firstLine,
      range.oneLine_laterLines _, oneLine_list rfl below⟩
    unfold detailLines
    split
    · exact nofun
    · exact List.forall_mem_singleton.mpr (oneLine_scalar rfl _)

theorem oneLineAll (width : Nat) : (nodes : List OutlineEntry) →
    ∀ line ∈ yamlLinesAll width nodes, OneLine line
  | [] => nofun
  | node :: later => by
    rw [yamlLinesAll, List.forall_mem_append]
    exact ⟨oneLine width node, oneLineAll width later⟩

end

mutual

/-- The places of names are not written. -/
theorem yamlLines_unselected (width : Nat) : (node : OutlineEntry) →
    yamlLines width node.unselected = yamlLines width node
  | ⟨label, detail, kind, range, selection, children⟩ => by
    rw [unselected, yamlLines, yamlLines, yamlLinesAll_unselectedAll (width + 2) children]

theorem yamlLinesAll_unselectedAll (width : Nat) : (nodes : List OutlineEntry) →
    yamlLinesAll width (unselectedAll nodes) = yamlLinesAll width nodes
  | [] => rfl
  | node :: later => by
    rw [unselectedAll, yamlLinesAll, yamlLinesAll, yamlLines_unselected width node,
      yamlLinesAll_unselectedAll width later]

end

/-- The lines of a tree tell what is seen of it. -/
def Tells (node : OutlineEntry) : Prop :=
  ∀ width other, node.Fits → other.Fits → yamlLines width node = yamlLines width other →
    node.unselected = other.unselected

theorem all_inj {width : Nat} {nodes others : List OutlineEntry} (tells : ∀ node ∈ nodes, node.Tells)
    (fits : FitsAll nodes) (fits' : FitsAll others)
    (same : yamlLinesAll width nodes = yamlLinesAll width others) :
    unselectedAll nodes = unselectedAll others := by
  rw [yamlLinesAll_eq, yamlLinesAll_eq] at same
  rw [unselectedAll_eq, unselectedAll_eq]
  refine map_eq_of_items (isItem width) (fun node member other member' lines => ?_) same
  exact tells node member width other (fitsAll_iff.mp fits node member) (fitsAll_iff.mp fits' other member')
    lines

theorem detailLines_inj {width : Nat} {detail detail' : String}
    (same : detailLines width detail = detailLines width detail') : detail = detail' := by
  unfold detailLines at same
  by_cases none : detail.isEmpty = true <;> by_cases none' : detail'.isEmpty = true
  · rw [String.isEmpty_iff.mp none, String.isEmpty_iff.mp none']
  · rw [if_pos none, if_neg none'] at same
    cases same
  · rw [if_neg none, if_pos none'] at same
    cases same
  · rw [if_neg none, if_neg none'] at same
    exact scalar_inj (List.cons.inj same).1

/-- Whether there is a detail is seen from the key behind the name. -/
theorem detailLines_append_inj {width : Nat} {detail detail' : String} {range range' : Span}
    {rest rest' : List String}
    (same : detailLines width detail ++ indented width range.firstLine :: rest =
      detailLines width detail' ++ indented width range'.firstLine :: rest') :
    detail = detail' ∧
      indented width range.firstLine :: rest = indented width range'.firstLine :: rest' := by
  have first (detail : String) : Field width "detail" (detailLines width detail) := by
    unfold detailLines
    split
    · exact .inl rfl
    · exact field_single (keyed_plain ..)
  have behind (range : Span) (rest : List String) :
      Begins width ["line"] (indented width range.firstLine :: rest) := by
    rintro line ⟨⟩
    refine ⟨"line", List.mem_cons_self, ?_⟩
    obtain ⟨value, text⟩ := keyed_plain 0 "line" (toString (shown range.start.line))
    exact ⟨value, congrArg (indented width) (text.trans (indented_zero _))⟩
  obtain ⟨details, later⟩ := split_field (first detail) (first detail') (behind range rest)
    (behind range' rest') rfl same
  exact ⟨detailLines_inj details, later⟩

mutual

theorem tells : (node : OutlineEntry) → node.Tells
  | ⟨label, detail, kind, range, selection, children⟩ => by
    have below := tellsAll children
    rintro width ⟨label', detail', kind', range', selection', children'⟩ fits fits' same
    rw [yamlLines_eq, yamlLines_eq] at same
    obtain ⟨kinds, rest⟩ := List.cons.inj same
    obtain ⟨labels, rest⟩ := List.cons.inj rest
    obtain ⟨details, ranges⟩ := detailLines_append_inj rest
    obtain ⟨first, ranges⟩ := List.cons.inj ranges
    obtain ⟨later, lists⟩ := List.append_inj ranges rfl
    obtain rfl : kind = kind' := Kind.word_inj ((String.append_right_inj _).mp (item_inj kinds))
    obtain rfl : label = label' := scalar_inj labels
    obtain rfl : detail = detail' := details
    obtain rfl : range = range' := Span.lines_inj fits.1 fits'.1 (indented_inj first) later
    have nodes := all_inj below fits.2 fits'.2 (list_inj lists)
    rw [unselected, unselected, nodes]

theorem tellsAll : (nodes : List OutlineEntry) → ∀ node ∈ nodes, node.Tells
  | [] => nofun
  | node :: later => List.forall_mem_cons.mpr ⟨tells node, tellsAll later⟩

end

end OutlineEntry

namespace Summary

/-- The line that says that time was up. -/
def timeoutLines (timedOut : Bool) : List String := if timedOut then [plain 2 "timeout" "true"] else []

theorem yamlLines_eq (s : Summary) :
    s.yamlLines = opening 0 "meta" :: (figure 2 "elapsedMs" s.elapsed ++ (timeoutLines s.timedOut ++
      (figure 2 "filesScanned" s.filesScanned ++ (figure 2 "filesMatched" s.filesMatched ++
        (s.totalMatches.map (Yaml.number 2 "totalMatches")).toList)))) := by
  simp [yamlLines, timeoutLines]

/-- The figures stand below their key, on a line each. -/
theorem yamlLines_tail (s : Summary) :
    ∃ body, s.yamlLines = opening 0 "meta" :: body ∧ ∀ line ∈ body, From 1 line ∧ OneLine line := by
  have line (key value : String) (is : isKey key = true) (oneValue : OneLine value) :
      From 1 (plain 2 key value) ∧ OneLine (plain 2 key value) :=
    ⟨from_indented (by omega) _, oneLine_plain is oneValue⟩
  have shown (key : String) (is : isKey key = true) (n : Nat) :
      ∀ line ∈ figure 2 key n, From 1 line ∧ OneLine line := by
    unfold figure
    split
    · exact nofun
    · exact List.forall_mem_singleton.mpr (line key _ is (oneLine_toString n))
  refine ⟨_, s.yamlLines_eq, ?_⟩
  simp only [List.forall_mem_append]
  refine ⟨shown _ rfl _, ?_, shown _ rfl _, shown _ rfl _,
    forall_mem_optional (fun n => line _ _ rfl (oneLine_toString n)) _⟩
  cases s.timedOut with
  | false => exact nofun
  | true => exact List.forall_mem_singleton.mpr (line _ _ rfl (by decide))

theorem field_timeoutLines (timedOut : Bool) : Field 2 "timeout" (timeoutLines timedOut) := by
  cases timedOut with
  | false => exact .inl rfl
  | true => exact field_single (keyed_plain ..)

theorem timeoutLines_inj {timedOut timedOut' : Bool}
    (same : timeoutLines timedOut = timeoutLines timedOut') : timedOut = timedOut' := by
  cases timedOut <;> cases timedOut' <;> first | rfl | cases same

/-- The lines of the figures tell them, zeros included. -/
theorem yamlLines_inj {s s' : Summary} (same : s.yamlLines = s'.yamlLines) : s = s' := by
  obtain ⟨elapsed, timedOut, filesScanned, filesMatched, totalMatches⟩ := s
  obtain ⟨elapsed', timedOut', filesScanned', filesMatched', totalMatches'⟩ := s'
  have total (n : Option Nat) : Begins 2 ["totalMatches"] (n.map (Yaml.number 2 "totalMatches")).toList :=
    (field_optional (fun n => keyed_plain 2 "totalMatches" (toString n)) n).begins_self
  have fromMatched (m : Nat) (n : Option Nat) := (field_figure 2 "filesMatched" m).begins (total n)
  have fromScanned (l m : Nat) (n : Option Nat) :=
    (field_figure 2 "filesScanned" l).begins (fromMatched m n)
  have fromTimeout (b : Bool) (l m : Nat) (n : Option Nat) :=
    (field_timeoutLines b).begins (fromScanned l m n)
  rw [yamlLines_eq, yamlLines_eq] at same
  obtain ⟨first, rest⟩ := split_field (field_figure 2 _ _) (field_figure 2 _ _) (fromTimeout _ _ _ _)
    (fromTimeout _ _ _ _) rfl (List.cons.inj same).2
  obtain ⟨second, rest⟩ := split_field (field_timeoutLines _) (field_timeoutLines _) (fromScanned _ _ _)
    (fromScanned _ _ _) rfl rest
  obtain ⟨third, rest⟩ := split_field (field_figure 2 _ _) (field_figure 2 _ _) (fromMatched _ _)
    (fromMatched _ _) rfl rest
  obtain ⟨fourth, rest⟩ := split_field (field_figure 2 _ _) (field_figure 2 _ _) (total _) (total _)
    rfl rest
  obtain rfl : elapsed = elapsed' := figure_inj first
  obtain rfl : timedOut = timedOut' := timeoutLines_inj second
  obtain rfl : filesScanned = filesScanned' := figure_inj third
  obtain rfl : filesMatched = filesMatched' := figure_inj fourth
  obtain rfl : totalMatches = totalMatches' := optional_inj number_inj rest
  rfl

end Summary

end SymbolIndex
