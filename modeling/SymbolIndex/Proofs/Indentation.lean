import SymbolIndex.Proofs.Declarations
import SymbolIndex.Proofs.Violations

/-! The blanks around lines play no part. Declarations are read from trimmed lines, and a scan of the
whole text forgets blanks at both sides of a newline, so which line closes a block is a function of the
trimmed lines. Two documents with the same trimmed lines are read side by side; what differs are
columns. -/
namespace SymbolIndex

open Document

namespace Text

/-- The lines of a text without the blanks around them. -/
def trimmedLines (s : List Char) : List (List Char) := (splitOn '\n' s).map trim

theorem trimmedLines_of_one_line {raw : List Char} (oneLine : '\n' ∉ raw) :
    trimmedLines raw = [trim raw] := by
  rw [trimmedLines, splitOn_of_not_mem oneLine, List.map_singleton]

theorem trimmedLines_line_append {raw : List Char} (oneLine : '\n' ∉ raw) (s : List Char) :
    trimmedLines (raw ++ '\n' :: s) = trim raw :: trimmedLines s := by
  rw [trimmedLines, splitOn_append oneLine, List.map_cons, trimmedLines]

theorem length_trimmedLines (s : List Char) : (trimmedLines s).length = s.count '\n' + 1 := by
  induction s using lineInduction with
  | last raw oneLine =>
    rw [trimmedLines_of_one_line oneLine, List.count_eq_zero_of_not_mem oneLine]
    rfl
  | line raw s oneLine ih =>
    rw [trimmedLines_line_append oneLine, List.length_cons, ih, List.count_append,
      List.count_eq_zero_of_not_mem oneLine, List.count_cons_self, Nat.zero_add]

/-- A text without blanks does not occur across blanks. -/
theorem occursIn_blanks_append {part lead : List Char} (unblank : ∀ c ∈ part, isBlank c = false)
    (nonempty : part ≠ []) (blank : Blanks lead) (s : List Char) :
    occursIn part (lead ++ s) = occursIn part s := by
  induction lead with
  | nil => rfl
  | cons c lead ih =>
    obtain ⟨first, later⟩ := List.forall_mem_cons.mp blank
    have notHere : startsWith part (c :: (lead ++ s)) = false := by
      obtain ⟨d, more, rfl⟩ := List.exists_cons_of_ne_nil nonempty
      have other : d ≠ c := by
        rintro rfl
        exact Bool.noConfusion (first.symm.trans (unblank d List.mem_cons_self))
      simp [startsWith, afterPrefix?, other]
    rw [List.cons_append, occursIn_cons, notHere, Bool.false_or, ih later]

theorem occursIn_append_blanks {part tail : List Char} (unblank : ∀ c ∈ part, isBlank c = false)
    (nonempty : part ≠ []) (s : List Char) (blank : Blanks tail) :
    occursIn part (s ++ tail) = occursIn part s := by
  rw [Bool.eq_iff_iff]
  constructor
  · intro occurs
    obtain ⟨a, b, whole⟩ := occursIn_iff.mp occurs
    rw [← List.append_assoc] at whole
    rw [occursIn_iff]
    rcases List.append_eq_append_iff.mp whole with ⟨z, inside, behind⟩ | ⟨z, inside, -⟩
    · obtain rfl | ⟨z, c, rfl⟩ := List.eq_nil_or_concat' z
      · exact ⟨a, [], by simpa using inside.symm⟩
      · -- The text would end in a blank behind the line.
        obtain rfl | ⟨more, d, rfl⟩ := List.eq_nil_or_concat' part
        · exact absurd rfl nonempty
        · rw [← List.append_assoc, ← List.append_assoc] at inside
          obtain ⟨-, same⟩ := List.append_inj' inside rfl
          obtain rfl := (List.cons.inj same).1
          have bare := unblank d (by simp)
          have inTail := blank d (by simp [behind])
          rw [bare] at inTail
          cases inTail
    · exact ⟨a, z, by simpa using inside⟩
  · intro occurs
    exact occursIn_append_left occurs tail

/-- A text without blanks occurs in a line just if it occurs in the trimmed line. -/
theorem occursIn_trim {part : List Char} (unblank : ∀ c ∈ part, isBlank c = false) (nonempty : part ≠ [])
    (s : List Char) : occursIn part (trim s) = occursIn part s := by
  obtain ⟨tail, whole, blank⟩ := exists_trim_append s
  calc occursIn part (trim s)
      _ = occursIn part (indent s ++ trim s) :=
        (occursIn_blanks_append unblank nonempty (blanks_indent s) _).symm
      _ = occursIn part (indent s ++ trim s ++ tail) :=
        (occursIn_append_blanks unblank nonempty _ blank).symm
      _ = occursIn part s := by rw [← whole]

end Text

namespace Lexical

/-- The line on which a block is closed, counted from the first of some trimmed lines. -/
def closingLine? (context : Lexical) (depth : Int) : List (List Char) → Option Nat
  | [] => none
  | line :: later =>
    if (closing? context depth 0 line).isSome then some 0
    else
      (closingLine? ((context.after line).next '\n') (depth + (context.scan line).2) later).map (· + 1)

theorem closing?_blanks (context : Lexical) (depth : Int) (index : Nat) {s : List Char}
    (blank : Text.Blanks s) : closing? context depth index s = none := by
  induction s generalizing context index with
  | nil => rfl
  | cons c s ih =>
    obtain ⟨first, later⟩ := List.forall_mem_cons.mp blank
    rw [closing?_cons_blank _ _ _ first, ih _ _ later]

theorem Marked.blanks_next_newline {context : Lexical} (marked : context.Marked) {s : List Char}
    (blank : Text.Blanks s) : (context.after s).next '\n' = context.next '\n' := by
  induction s generalizing context with
  | nil => rfl
  | cons c s ih =>
    obtain ⟨first, later⟩ := List.forall_mem_cons.mp blank
    rw [after_cons, ih (marked.next c) later, marked.blank_next_newline first]

section Trimmed

variable {context : Lexical} (marked : context.Marked)
  (rests : ∀ c, Text.isBlank c = true → context.next c = context)
include rests

/-- A line counts for what it counts for without the blanks around it, -/
theorem scan_trimmed (raw : List Char) : (context.scan raw).2 = (context.scan (Text.trim raw)).2 := by
  obtain ⟨tail, whole, blank⟩ := Text.exists_trim_append raw
  have lead := Text.blanks_indent raw
  calc (context.scan raw).2
      _ = (context.scan (Text.indent raw ++ Text.trim raw ++ tail)).2 := by rw [← whole]
      _ = (context.scan (Text.trim raw)).2 := by
        rw [scan_append, scan_append, scan_blanks _ lead, scan_blanks _ blank,
          after_blanks_of_stays rests lead, Int.zero_add, Int.add_zero]

/-- A block is closed on a line just if it is closed on the trimmed line. -/
theorem isSome_closing?_trimmed (depth : Int) (index : Nat) (raw : List Char) :
    (closing? context depth index raw).isSome = (closing? context depth 0 (Text.trim raw)).isSome := by
  obtain ⟨tail, whole, blank⟩ := Text.exists_trim_append raw
  have lead := Text.blanks_indent raw
  rw [List.append_assoc] at whole
  calc (closing? context depth index raw).isSome
      _ = (closing? context depth index (Text.indent raw ++ (Text.trim raw ++ tail))).isSome := by
        rw [← whole]
      _ = (closing? context depth (0 + (index + (Text.indent raw).length)) (Text.trim raw)).isSome := by
        rw [closing?_append, closing?_blanks _ _ _ lead, Option.none_or, scan_blanks _ lead,
          after_blanks_of_stays rests lead, closing?_append, closing?_blanks _ _ _ blank, Option.or_none,
          Int.add_zero, Nat.zero_add]
      _ = (closing? context depth 0 (Text.trim raw)).isSome := by
        rw [closing?_add, Option.isSome_map]

include marked

/-- and leaves behind its newline what it leaves without them. -/
theorem after_trimmed (raw : List Char) :
    (context.after raw).next '\n' = (context.after (Text.trim raw)).next '\n' := by
  obtain ⟨tail, whole, blank⟩ := Text.exists_trim_append raw
  have lead := Text.blanks_indent raw
  calc (context.after raw).next '\n'
      _ = (context.after (Text.indent raw ++ Text.trim raw ++ tail)).next '\n' := by rw [← whole]
      _ = (context.after (Text.trim raw)).next '\n' := by
        rw [after_append, after_append, after_blanks_of_stays rests lead,
          (marked.after _).blanks_next_newline blank]

end Trimmed

/-- The line on which a block is closed is a function of the trimmed lines. -/
theorem closingLine?_trimmedLines {context : Lexical} (marked : context.Marked)
    (rests : ∀ c, Text.isBlank c = true → context.next c = context) (depth : Int) (s : List Char) :
    closingLine? context depth (Text.trimmedLines s) =
      (closing? context depth 0 s).map fun index => (s.take index).count '\n' := by
  have onLine {raw : List Char} (oneLine : '\n' ∉ raw) (index : Nat) : (raw.take index).count '\n' = 0 :=
    List.count_eq_zero_of_not_mem fun inside => oneLine (List.mem_of_mem_take inside)
  induction s using lineInduction generalizing context depth with
  | last raw oneLine =>
    rw [Text.trimmedLines_of_one_line oneLine, closingLine?, ← isSome_closing?_trimmed rests depth 0]
    cases closing? context depth 0 raw with
    | none => rfl
    | some index => simp [onLine oneLine]
  | line raw s oneLine ih =>
    rw [Text.trimmedLines_line_append oneLine, closingLine?, ← isSome_closing?_trimmed rests depth 0,
      closing?_append]
    cases closes : closing? context depth 0 raw with
    | some index =>
      obtain ⟨u, v, rfl, rfl, -⟩ := closing?_some closes
      have before : '\n' ∉ u := fun inside => oneLine (List.mem_append_left _ inside)
      have none : u.count '\n' = 0 := List.count_eq_zero_of_not_mem before
      simp [List.append_assoc, none]
    | none =>
      have next := marked.after raw
      rw [Option.isSome_none, if_neg Bool.false_ne_true, ← scan_trimmed rests,
        ← after_trimmed marked rests, ih (next.next '\n') fun c => next.newline_next_blank,
        Option.none_or, closing?_cons_blank _ _ _ rfl, Nat.add_assoc, closing?_add, Option.map_map,
        Option.map_map]
      congr 1
      funext index
      have line : (raw ++ '\n' :: s).take (index + (raw.length + 1)) = raw ++ '\n' :: s.take index := by
        rw [Nat.add_comm, Nat.add_assoc, List.take_length_add_append, Nat.add_comm, List.take_succ_cons]
      simp [line, List.count_eq_zero_of_not_mem oneLine]

/-- The line on which a block is closed, counted from the line of its opening brace: the last line, if
none closes it. -/
def lastLine (lines : List (List Char)) : Nat := (closingLine? start 0 lines).getD (lines.length - 1)

end Lexical

/-- The beginning of the line. -/
def Position.flush (p : Position) : Position := ⟨p.line, 0⟩

/-- The same lines, without the columns. -/
def Span.flush (span : Span) : Span := ⟨span.start.flush, span.stop.flush⟩

/-- The same lines, without the columns. -/
def Site.flush (site : Site) : Site := ⟨site.span.flush, site.selection.flush, site.header.flush⟩

namespace Line

theorem constructorName_chars : ∀ c ∈ Shape.constructorName.toList, Text.isNameChar c = true :=
  List.all_eq_true.mp rfl

theorem occursIn_constructorName_trim (s : List Char) :
    Text.occursIn Shape.constructorName.toList (Text.trim s) =
      Text.occursIn Shape.constructorName.toList s :=
  Text.occursIn_trim (fun c member => Text.isBlank_of_isNameChar (constructorName_chars c member))
    (List.cons_ne_nil _ _) s

theorem mentions_eq (l : Line) :
    Container.mentions l = Text.occursIn Shape.constructorName.toList l.trimmed :=
  (occursIn_constructorName_trim l.content).symm

/-- The line on which a block stops is a function of the trimmed lines from its brace on. -/
theorem line_blockStop (l : Line) (braceAt : Nat) :
    (l.blockStop braceAt).line =
      l.number + Lexical.lastLine (Text.trimmedLines (l.onward.drop (l.indent + braceAt))) := by
  have marked : Lexical.start.Marked := trivial
  have closed := Lexical.closingLine?_trimmedLines marked (fun _ => Lexical.code_next_blank .plain) 0
    (l.onward.drop (l.indent + braceAt))
  rw [blockStop, Position.line_after, Lexical.lastLine, closed, Text.length_trimmedLines, block]
  dsimp only
  cases closes : closingBrace? (l.onward.drop (l.indent + braceAt)) with
  | none =>
    rw [show Lexical.start.closing? 0 0 _ = none from closes]
    rfl
  | some index =>
    rw [show Lexical.start.closing? 0 0 _ = some index from closes]
    obtain ⟨u, v, text, rfl, -⟩ := Lexical.closing?_some closes
    rw [text, Nat.zero_add, Option.map_some, Option.getD_some, List.take_left]
    dsimp only
    rw [List.take_length_add_append, List.count_append]
    rfl

theorem onward_of_trimmed {number : Nat} {raw below before behind : List Char}
    (trimmed : (lineOf number raw below).trimmed = before ++ behind) :
    ∃ tail, Text.Blanks tail ∧ (∀ c ∈ behind ++ tail, c ∈ raw) ∧
      (lineOf number raw below).onward.drop ((lineOf number raw below).indent + before.length) =
        behind ++ tail ++ below := by
  obtain ⟨tail, terminator, blank, -, whole⟩ := raw_of_trimmed trimmed
  refine ⟨tail ++ terminator, blank, ?_, ?_⟩
  · intro c member
    rw [whole]
    exact List.mem_append_right _ member
  · have width : (lineOf number raw below).indent + before.length =
        (Text.indent (chomp raw) ++ before).length := List.length_append.symm
    have onward : (lineOf number raw below).onward =
        Text.indent (chomp raw) ++ before ++ (behind ++ (tail ++ terminator) ++ below) := by
      rw [← List.append_assoc, ← whole]
      rfl
    rw [onward, width, List.drop_left]

/-- Lines that are trimmed to the same, above texts that have the same trimmed lines, declare the same
on the same lines. -/
theorem lineOf_matches {raw raw' below below' : List Char} (oneLine : '\n' ∉ raw) (oneLine' : '\n' ∉ raw')
    (same : Text.trim raw = Text.trim raw')
    (alike : ∀ a a', '\n' ∉ a → '\n' ∉ a' → Text.trim a = Text.trim a' →
      Text.trimmedLines (a ++ below) = Text.trimmedLines (a' ++ below')) (number : Nat) :
    (lineOf number raw below).Matches (fun _ site site' => True → site'.flush = site.flush)
      (lineOf number raw' below') := by
  have trimmed : (lineOf number raw below).trimmed = (lineOf number raw' below').trimmed := by
    rw [trimmed_lineOf, trimmed_lineOf, same]
  apply matches_of_bodies trimmed
  · rw [mentions_eq, mentions_eq, trimmed]
  · exact fun _ _ _ _ => rfl
  · -- Only where the block of a body stops is read off the text below the line.
    intro kind braceAt name body _
    obtain ⟨lead, rest, cut, rfl⟩ := brace_of_bodyBrace? body
    obtain ⟨tail, blank, inRaw, onward⟩ := onward_of_trimmed cut
    obtain ⟨tail', blank', inRaw', onward'⟩ := onward_of_trimmed (trimmed ▸ cut)
    have lines : Text.trimmedLines ('\x7b' :: rest ++ tail' ++ below') =
        Text.trimmedLines ('\x7b' :: rest ++ tail ++ below) := by
      symm
      apply alike
      · exact fun newline => oneLine (inRaw _ newline)
      · exact fun newline => oneLine' (inRaw' _ newline)
      · rw [Text.trim_append_blanks _ blank, Text.trim_append_blanks _ blank']
    have stop : ((lineOf number raw' below').blockStop lead.length).line =
        ((lineOf number raw below).blockStop lead.length).line := by
      rw [line_blockStop, line_blockStop, onward, onward', lines]
      rfl
    exact congrArg (fun line => (⟨⟨⟨number, 0⟩, ⟨line, 0⟩⟩, _, _⟩ : Site)) stop

end Line

namespace Document

theorem map_trimmed_linesFrom (number : Nat) (s : List Char) :
    (linesFrom number s).map Line.trimmed = Text.trimmedLines s := by
  induction s using lineInduction generalizing number with
  | last raw oneLine =>
    rw [linesFrom_of_one_line oneLine, Text.trimmedLines_of_one_line oneLine, List.map_singleton,
      Line.trimmed_lineOf]
  | line raw s oneLine ih =>
    rw [linesFrom_line_append oneLine, Text.trimmedLines_line_append oneLine, List.map_cons, ih,
      Line.trimmed_lineOf]

theorem linesFrom_match (number : Nat) {s s' : List Char}
    (same : Text.trimmedLines s = Text.trimmedLines s') :
    List.Forall₂ (Line.Matches fun _ site site' => True → site'.flush = site.flush)
      (linesFrom number s) (linesFrom number s') := by
  have later (s : List Char) : Text.trimmedLines s ≠ [] := by
    intro none
    have lines := Text.length_trimmedLines s
    rw [none] at lines
    cases lines
  induction s using lineInduction generalizing number s' with
  | last raw oneLine =>
    cases s' using lineInduction with
    | last raw' oneLine' =>
      rw [Text.trimmedLines_of_one_line oneLine, Text.trimmedLines_of_one_line oneLine'] at same
      rw [linesFrom_of_one_line oneLine, linesFrom_of_one_line oneLine']
      refine .cons (Line.lineOf_matches oneLine oneLine' (List.cons.inj same).1 ?_ number) .nil
      intro a a' one one' trimmed
      rw [List.append_nil, List.append_nil, Text.trimmedLines_of_one_line one,
        Text.trimmedLines_of_one_line one', trimmed]
    | line raw' s' oneLine' =>
      rw [Text.trimmedLines_of_one_line oneLine, Text.trimmedLines_line_append oneLine'] at same
      exact absurd (List.cons.inj same).2.symm (later s')
  | line raw s oneLine ih =>
    cases s' using lineInduction with
    | last raw' oneLine' =>
      rw [Text.trimmedLines_line_append oneLine, Text.trimmedLines_of_one_line oneLine'] at same
      exact absurd (List.cons.inj same).2 (later s)
    | line raw' s' oneLine' =>
      rw [Text.trimmedLines_line_append oneLine, Text.trimmedLines_line_append oneLine'] at same
      obtain ⟨first, rest⟩ := List.cons.inj same
      rw [linesFrom_line_append oneLine, linesFrom_line_append oneLine']
      refine .cons (Line.lineOf_matches oneLine oneLine' first ?_ number) (ih (number + 1) rest)
      intro a a' one one' trimmed
      rw [Text.trimmedLines_line_append one, Text.trimmedLines_line_append one', trimmed, rest]

end Document

/-- A violation that is reported somewhere else. -/
def Violation.mapSpan (move : Span → Span) (v : Violation) : Violation := { v with span := move v.span }

/-- A diagnostic that is shown somewhere else. -/
def Diagnostic.mapSpan (move : Span → Span) (g : Diagnostic) : Diagnostic := { g with span := move g.span }

namespace Symbol

variable (move : Site → Site)

theorem kind_mapSites (s : Symbol) : (s.mapSites move).kind = s.kind := by
  obtain ⟨name, site, form⟩ := s
  cases form <;> rfl

theorem implements_mapSites (s : Symbol) : (s.mapSites move).implements = s.implements := by
  obtain ⟨name, site, form⟩ := s
  cases form <;> rfl

theorem methods_mapSites (s : Symbol) :
    (s.mapSites move).methods = s.methods.map (Member.mapSites move) := by
  obtain ⟨name, site, form⟩ := s
  cases form with
  | function | constant => rfl
  | interfaceType members | classType _ members =>
    exact List.filter_map

end Symbol

namespace Model

/-- The same model somewhere else. -/
def mapSites (move : Site → Site) (m : Model) : Model := ⟨m.symbols.map (Symbol.mapSites move)⟩

variable (move : Site → Site) (m : Model)

theorem ofKind_mapSites (kind : Kind) :
    (m.mapSites move).ofKind kind = (m.ofKind kind).map (Symbol.mapSites move) := by
  rw [ofKind, mapSites, List.filter_map, ofKind]
  congr 1
  refine List.filter_congr fun s _ => ?_
  rw [Function.comp_apply, Symbol.kind_mapSites]

theorem lastInterface?_mapSites (name : String) :
    (m.mapSites move).lastInterface? name = (m.lastInterface? name).map (Symbol.mapSites move) := by
  rw [lastInterface?, ofKind_mapSites, List.filter_map, List.getLast?_map]
  rfl

variable {move} {header : Span → Span} (heads : ∀ site, (move site).header = header site.header)
include heads

theorem owed_mapSites (c : Symbol) (name : String) :
    (m.mapSites move).owed (c.mapSites move) name = (m.owed c name).map (Violation.mapSpan header) := by
  rw [owed, lastInterface?_mapSites, owed]
  cases m.lastInterface? name with
  | none =>
    exact congrArg (fun span => [(⟨c.name, name, .unknownInterface, span⟩ : Violation)]) (heads c.site)
  | some i =>
    simp only [Option.map_some, Symbol.methods_mapSites, List.filter_map, List.map_map, List.any_map]
    refine List.map_congr_left fun required _ => ?_
    simp [Violation.mapSpan, Member.mapSites, Symbol.mapSites, heads, Member.signature?]

/-- What is violated does not depend on where symbols stand. -/
theorem violations_mapSites :
    (m.mapSites move).violations = m.violations.map (Violation.mapSpan header) := by
  rw [violations_eq_owed, violations_eq_owed, ofKind_mapSites, List.flatMap_map, List.map_flatMap]
  refine List.flatMap_congr fun c _ => ?_
  rw [Symbol.implements_mapSites, List.map_flatMap]
  exact List.flatMap_congr fun name _ => owed_mapSites m heads c name

theorem diagnostics_mapSites :
    (m.mapSites move).diagnostics = m.diagnostics.map (Diagnostic.mapSpan header) := by
  rw [diagnostics, violations_mapSites m heads, diagnostics, List.map_map, List.map_map]
  rfl

end Model

/-- Documents that are the same but for the blanks around their lines declare the same on the same
lines, and the same is reported about them there. -/
theorem model_of_reindented (d d' : Document)
    (same : d.lines.map Line.trimmed = d'.lines.map Line.trimmed) :
    (Model.ofDocument d').mapSites Site.flush = (Model.ofDocument d).mapSites Site.flush ∧
      d'.diagnostics.map (Diagnostic.mapSpan Span.flush) =
        d.diagnostics.map (Diagnostic.mapSpan Span.flush) := by
  rw [lines_eq_linesFrom, lines_eq_linesFrom, map_trimmed_linesFrom, map_trimmed_linesFrom] at same
  obtain ⟨-, symbols⟩ := Reading.symbols_match (r := .start) (Reading.Matches.refl_of_free rfl)
    (linesFrom_match 0 same)
  have model : (Model.ofDocument d').mapSites Site.flush = (Model.ofDocument d).mapSites Site.flush :=
    congrArg Model.mk (map_mapSites_of_matches symbols fun _ _ => ⟨trivial, fun _ _ => trivial⟩)
  refine ⟨model, ?_⟩
  have heads (site : Site) : site.flush.header = site.header.flush := rfl
  rw [diagnostics, diagnostics, ← Model.diagnostics_mapSites _ heads,
    ← Model.diagnostics_mapSites _ heads, model]

/-- A class whose method has a brace in quoted text, one in a comment that ends on the next line, and one
in quoted text that begins there. -/
def flushed : Document :=
  .ofString "Crate : Box \x7b\nlid() \x7b\n\x27\x7b\x27 /* \x7d\n*/ \"\n\x7d\"\x7d\n\n\x7d\nconst W = 2"

/-- The same document with tabs, wide spaces and returns. -/
def ragged : Document :=
  .ofString ("  Crate : Box \x7b\r\n\tlid() \x7b \n\t\x27\x7b\x27 /* \x7d\n\u3000 */ \" \n  \x7d\"\x7d\n\t"
    ++ "\n \x7d \n const W = 2\t")

/-- The method and the class of `ragged` stop on the lines where those of `flushed` stop, and its
missing interface is reported on the line of the class. -/
theorem model_of_indented :
    flushed.lines.map Line.trimmed = ragged.lines.map Line.trimmed ∧
      flushed.lines.map Line.indent ≠ ragged.lines.map Line.indent ∧
      ((Model.ofDocument ragged).mapSites Site.flush).symbols.map (fun s =>
          (s.name, s.site.span.stop.line, s.members.map fun m => (m.name, m.site.span.stop.line))) =
        [("Crate", 6, [("lid", 4)]), ("W", 7, [])] ∧
      (ragged.diagnostics.map (Diagnostic.mapSpan Span.flush)).map Diagnostic.span =
        [⟨⟨0, 0⟩, ⟨0, 0⟩⟩] := by
  have same : flushed.lines.map Line.trimmed = ragged.lines.map Line.trimmed := by decide +kernel
  obtain ⟨model, diagnostics⟩ := model_of_reindented flushed ragged same
  rw [model, diagnostics]
  exact ⟨same, by decide +kernel, by decide +kernel, by decide +kernel⟩

end SymbolIndex
