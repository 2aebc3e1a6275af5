import Mathlib.Data.List.Nodup
import SymbolIndex.Proofs.ByteReading
import SymbolIndex.Proofs.SourceOrder

/-! The three lists of an open container. Of what a container declares, methods without a body wait in one
list, fields and callables with a body in another and callables with wrapped parameters in a third, and a
class that closes puts the last two together and sorts them. What these two hold is what has been read so
far, in some order; all of it starts on lines that ascend, no two of them the same, and above the line at
hand. So there is one order to sort it into, the one in which it was read. -/
namespace SymbolIndex

namespace Record

theorem startsNoLater_iff {a b : Record} :
    a.startsNoLater b = true ↔ a.site.span.start ≤ b.site.span.start := decide_eq_true_iff

theorem pairwise_sorted (records : List Record) :
    (records.mergeSort startsNoLater).Pairwise fun a b => a.startsNoLater b = true := by
  apply List.pairwise_mergeSort
  · intro a b c first second
    exact startsNoLater_iff.mpr
      (Position.le_trans (startsNoLater_iff.mp first) (startsNoLater_iff.mp second))
  · intro a b
    rw [Bool.or_eq_true, startsNoLater_iff, startsNoLater_iff]
    exact Position.le_total ..

/-- Records that start on one line after another are what any order of them is sorted into. -/
theorem mergeSort_eq_of_ascending {records ascending : List Record} (same : records.Perm ascending)
    (ascends : ascending.Pairwise fun a b => a.site.line < b.site.line) :
    records.mergeSort startsNoLater = ascending := by
  have together := (List.mergeSort_perm records startsNoLater).trans same
  have ordered : ascending.Pairwise fun a b => a.startsNoLater b = true :=
    ascends.imp fun above => startsNoLater_iff.mpr (.inl above)
  refine List.Perm.eq_of_pairwise ?_ (pairwise_sorted records) ordered together
  -- Two records that start at one place start on one line, and so are the same.
  intro a b member member' le ge
  have distinct : (ascending.map fun r => r.site.line).Nodup :=
    List.pairwise_map.mpr (ascends.imp Nat.ne_of_lt)
  have line : a.site.line = b.site.line := Nat.le_antisymm
    (Position.line_le (startsNoLater_iff.mp le)) (Position.line_le (startsNoLater_iff.mp ge))
  exact List.inj_on_of_nodup_map distinct (together.mem_iff.mp member) member' line

end Record

/-- A callable member as a record: a leaf of its kind with the parameters and the result. -/
theorem Member.record_callableForm (name : String) (site : Site) (signature : Signature) :
    (Member.mk name site (Container.callableForm name signature)).record =
      { Record.leaf (Bytewise.OpenContainer.callableKind name) name site with
        parameters := signature.parameters, type := signature.result } := by
  unfold Container.callableForm Bytewise.OpenContainer.callableKind
  split <;> rfl

namespace Bytewise

open Text

namespace OpenContainer

/-- A container that is open in both readings. What the one has read of a class in one list, the other has
in two, and what the one knows from a mark, the other tells from the first of them. -/
structure Mirrors (p : OpenContainer) (b : Container) : Prop where
  name : p.name = b.name
  implements : p.implements = b.implements.getD []
  explicitClass : p.explicitClass = b.implements.isSome
  site : p.site = b.site
  depth : p.depth = b.depth
  sawConstructor : p.sawConstructor = b.mentionsConstructor
  signatures : p.signatures = b.signatures.toList.map Member.record
  members : (p.members ++ p.wrapped).Perm (b.members.toList.map Member.record)
  bodiless : p.members.isEmpty = !b.hasBody
  paramsOpen : p.paramsOpen = b.inParameters

variable {p : OpenContainer} {b : Container}

theorem Mirrors.isInterface_eq (mirrors : p.Mirrors b) : p.isInterface = b.isInterface := by
  rw [isInterface, Container.isInterface, mirrors.explicitClass, mirrors.sawConstructor, mirrors.bodiless]
  cases b.implements <;> rfl

/-- Put together and sorted, the members of a class come in the order in which they were read. -/
theorem Mirrors.classMembers_eq (mirrors : p.Mirrors b) {limit : Nat} (ascends : b.Ascends limit) :
    p.classMembers = b.members.toList.map Member.record := by
  apply Record.mergeSort_eq_of_ascending mirrors.members
  have ordered := (List.pairwise_cons.mp (ascending_iff.mp ascends.members).1).2
  exact List.pairwise_map.mpr (List.pairwise_map.mp ordered)

/-- A container that closes is written down as the symbol that it turns out to be. -/
theorem Mirrors.finish_eq (mirrors : p.Mirrors b) {limit : Nat} (ascends : b.Ascends limit) :
    p.finish = b.close.record := by
  rw [finish, mirrors.isInterface_eq, mirrors.classMembers_eq ascends, mirrors.signatures, mirrors.name,
    mirrors.site, mirrors.implements, Container.close]
  cases form : b.isInterface with
  | true =>
    have noClause : b.implements.getD [] = [] := by
      cases clause : b.implements with
      | none => rfl
      | some names => simp [Container.isInterface, clause] at form
    rw [noClause]
    rfl
  | false => rfl

/-- A method without a body joins the signatures. -/
theorem Mirrors.signed (mirrors : p.Mirrors b) (m : Member) :
    Mirrors { p with signatures := p.signatures ++ [m.record] }
      { b with signatures := b.signatures.push m } :=
  { mirrors with signatures := by simp [mirrors.signatures] }

/-- A field or a callable with a body joins the first list of a class, before what is wrapped. -/
theorem Mirrors.bodied (mirrors : p.Mirrors b) (m : Member) :
    Mirrors { p with members := p.members ++ [m.record] }
      { b with members := b.members.push m, hasBody := true } :=
  { mirrors with
    members := by
      have last : (p.members ++ [m.record] ++ p.wrapped).Perm (p.members ++ p.wrapped ++ [m.record]) := by
        rw [List.append_assoc, List.append_assoc]
        exact List.perm_append_comm.append_left p.members
      rw [Array.toList_push, List.map_append]
      exact last.trans (mirrors.members.append_right [m.record])
    bodiless := by simp }

/-- A callable with wrapped parameters joins the second list of a class. -/
theorem Mirrors.wrapping (mirrors : p.Mirrors b) (m : Member) :
    Mirrors { p with wrapped := p.wrapped ++ [m.record], paramsOpen := true }
      { b with members := b.members.push m, inParameters := true } :=
  { mirrors with
    members := by
      rw [Array.toList_push, List.map_append, ← List.append_assoc]
      exact mirrors.members.append_right [m.record]
    paramsOpen := rfl }

section OnLine

variable {d : Document} {l : Line} (member : l ∈ d.lines)
include member

/-- A head opens the same container in both readings. -/
theorem ofHead_mirrors {head : Shape.Head} (heads : Shape.containerHead? l.trimmed = some head) :
    ∃ p, ofHead (Place.ofLine d l) l.content l.trimmed head = .ok p ∧
      p.Mirrors (Container.ofHead l head) := by
  simp only [ofHead, headBrace_eq heads, headStop_eq member heads, site_zero_eq member, balance_bytes,
    ok_bind, pure_eq_ok]
  exact ⟨_, rfl, ⟨rfl, rfl, rfl, rfl, rfl, rfl, rfl, .nil, rfl, rfl⟩⟩

/-- A line in a body adds the same member to both, at the end of one of the lists. -/
theorem Mirrors.collect (mirrors : p.Mirrors b) :
    ∃ p', p.collect (Place.ofLine d l) l.trimmed = .ok p' ∧ p'.Mirrors (b.collect l) := by
  rw [OpenContainer.collect, Container.collect, Container.declared?]
  by_cases continues : p.paramsOpen = true
  · rw [if_pos continues, if_pos (mirrors.paramsOpen ▸ continues)]
    exact ⟨_, rfl, { mirrors with paramsOpen := rfl }⟩
  · rw [if_neg continues, if_neg (mirrors.paramsOpen ▸ continues)]
    cases rule : Shape.memberLine? l.trimmed with
    | none => exact ⟨p, rfl, mirrors⟩
    | some read =>
      cases read with
      | signature name signature =>
        simp only [lineStop_eq member, leaf_zero_eq member, ok_bind, pure_eq_ok]
        exact ⟨_, rfl, mirrors.signed ⟨name, l.site 0 name l.stop, .method signature⟩⟩
      | callable c =>
        have reads := Shape.callable?_of_memberLine? rule
        simp only [callable_eq member _ reads, ok_bind, pure_eq_ok, ← Member.record_callableForm]
        exact ⟨_, rfl, mirrors.bodied _⟩
      | wrapped name parameters =>
        simp only [lineStop_eq member, leaf_zero_eq member, ok_bind, pure_eq_ok]
        have written := Member.record_callableForm name (l.site 0 name l.stop) ⟨parameters, none⟩
        exact ⟨_, rfl, written ▸ mirrors.wrapping _⟩
      | field f =>
        simp only [lineStop_eq member, leaf_zero_eq member, ok_bind, pure_eq_ok]
        exact ⟨_, rfl, mirrors.bodied ⟨f.name, l.site 0 f.name l.stop, .field f.type⟩⟩

end OnLine

end OpenContainer

namespace Extraction

/-- Both readings have read the same, and mirror each other in the container that is open. -/
structure Mirrors (e : Extraction) (r : Reading) : Prop where
  inComment : e.inComment = r.inComment
  container : Option.Rel OpenContainer.Mirrors e.container r.container
  depth : e.depth = r.depth

/-- Reading goes on with no offset out of place: what it completes is a symbol written down, and what it
leaves behind mirrors what is left behind there. -/
def GoesOn (result : Except Breach (Extraction × Option Record)) (next : Reading × Option Symbol) : Prop :=
  ∃ e, result = .ok (e, next.2.map Symbol.record) ∧ e.Mirrors next.1

variable {d : Document} {l : Line} {e : Extraction} {r : Reading}

theorem mirrors_start : start.Mirrors .start := ⟨rfl, .none, rfl⟩

theorem Mirrors.note (mirrors : e.Mirrors r) (l : Line) : (e.note l.content).Mirrors (r.note l) where
  inComment := mirrors.inComment
  container := by
    have same := mirrors.container
    rw [Extraction.note, Reading.note]
    generalize e.container = p, r.container = b at same
    cases same with
    | none => exact .none
    | some same => exact .some { same with sawConstructor := congrArg (· || _) same.sawConstructor }
  depth := mirrors.depth

section OnLine

variable (member : l ∈ d.lines)
include member

theorem Mirrors.bodyStep (mirrors : e.Mirrors r) {p : OpenContainer} {b : Container}
    (containers : p.Mirrors b) {limit : Nat} (ascends : b.Ascends limit) :
    GoesOn (e.bodyStep (Place.ofLine d l) l.trimmed p) (r.bodyStep b l) := by
  rw [Extraction.bodyStep, Reading.bodyStep, balance_bytes, ok_bind, containers.depth,
    containers.finish_eq ascends]
  by_cases closes : b.depth + braceBalance l.trimmed ≤ 0
  · rw [if_pos closes, if_pos closes]
    exact ⟨_, rfl, { mirrors with container := .none }⟩
  · rw [if_neg closes, if_neg closes]
    obtain ⟨p', reads, same⟩ := containers.collect member
    by_cases direct : b.depth = 1
    · rw [if_pos direct, if_pos direct, reads, ok_bind]
      exact ⟨_, rfl, { mirrors with container := .some { same with depth := rfl } }⟩
    · rw [if_neg direct, if_neg direct, ok_bind]
      exact ⟨_, rfl, { mirrors with container := .some { containers with depth := rfl } }⟩

theorem Mirrors.topStep (mirrors : e.Mirrors r) :
    GoesOn (e.topStep (Place.ofLine d l) l.content l.trimmed) (r.topStep l) := by
  have deeper : max 0 (e.depth + braceBalance l.trimmed) = max 0 (r.depth + braceBalance l.trimmed) := by
    rw [mirrors.depth]
  rw [Extraction.topStep, Reading.topStep]
  by_cases deep : e.depth ≠ 0
  · rw [if_pos deep, if_pos (mirrors.depth ▸ deep), balance_bytes, ok_bind]
    exact ⟨_, rfl, { mirrors with depth := deeper }⟩
  · rw [if_neg deep, if_neg (mirrors.depth ▸ deep)]
    cases heads : Shape.containerHead? l.trimmed with
    | none =>
      simp only [topLevel_eq member, balance_bytes, ok_bind]
      exact ⟨_, rfl, { mirrors with depth := deeper }⟩
    | some head =>
      obtain ⟨p, opens, same⟩ := OpenContainer.ofHead_mirrors member heads
      simp only [opens, ok_bind, same.depth]
      split
      · rw [same.finish_eq (Container.ascends_ofHead head (Nat.lt_succ_self _))]
        exact ⟨e, rfl, mirrors⟩
      · exact ⟨_, rfl, { mirrors with container := .some same }⟩

/-- A line of code does the same in both readings. -/
theorem Mirrors.codeStep (mirrors : e.Mirrors r) {limit : Nat}
    (inside : ∀ b, r.container = some b → b.Ascends limit) :
    GoesOn (e.codeStep (Place.ofLine d l) l.content l.trimmed) (r.codeStep l) := by
  have containers := mirrors.container
  rw [Extraction.codeStep, Reading.codeStep]
  cases isOpen : r.container with
  | none =>
    rw [isOpen] at containers
    cases free : e.container with
    | none => exact mirrors.topStep member
    | some p =>
      rw [free] at containers
      cases containers
  | some b =>
    rw [isOpen] at containers
    cases isOpen' : e.container with
    | none =>
      rw [isOpen'] at containers
      cases containers
    | some p =>
      rw [isOpen'] at containers
      cases containers with
      | some same => exact mirrors.bodyStep member same (inside b isOpen)

/-- One more line is read with no offset out of place, and does the same in both readings. -/
theorem Mirrors.step (mirrors : e.Mirrors r)
    (inside : ∀ b, r.container = some b → b.Ascends l.number) :
    GoesOn (e.step (LineIndex.ofText d.chars) l.number) (r.step l) := by
  have line := LineIndex.line_eq d l.number
  rw [Document.lineText_of_mem member] at line
  have trimmed : trim l.content = l.trimmed := rfl
  have noted := mirrors.note l
  have ascends : ∀ b, (r.note l).container = some b → b.Ascends l.number := by
    intro b isOpen
    obtain ⟨b', before, rfl⟩ := Option.map_eq_some_iff.mp isOpen
    exact (inside b' before).noting l
  simp only [Extraction.step, Reading.step, line, trimmed, noted.inComment, readComment_eq,
    indent_eq, ok_bind]
  by_cases blank : l.trimmed.isEmpty = true
  · rw [if_pos blank, if_pos blank]
    exact ⟨_, rfl, noted⟩
  · rw [if_neg blank, if_neg blank]
    by_cases comment : (Comment.read (r.note l).inComment l.trimmed).isComment = true
    · rw [if_pos comment, if_pos comment]
      exact ⟨_, rfl, { noted with inComment := rfl }⟩
    · rw [if_neg comment, if_neg comment]
      have commented : Mirrors
          { e.note l.content with
            inComment := (Comment.read (r.note l).inComment l.trimmed).leavesOpen }
          { r.note l with inComment := (Comment.read (r.note l).inComment l.trimmed).leavesOpen } :=
        { noted with inComment := rfl }
      exact commented.codeStep member ascends

end OnLine

/-- From where both have read the same, some lines complete the same in both readings, as long as what is
open stands above all of them. -/
theorem Mirrors.records_eq {lines : List Line} (mirrors : e.Mirrors r)
    (members : ∀ l ∈ lines, l ∈ d.lines) (ordered : lines.Pairwise fun a b => a.number < b.number)
    (above : r.Above lines) :
    e.records (LineIndex.ofText d.chars) (lines.map Line.number) =
      .ok ((r.symbols lines).map Symbol.record) := by
  induction lines generalizing e r with
  | nil => rfl
  | cons l later ih =>
    obtain ⟨member, members⟩ := List.forall_mem_cons.mp members
    obtain ⟨first, ordered⟩ := List.pairwise_cons.mp ordered
    obtain ⟨e', reads, next⟩ := mirrors.step member above.here
    rw [List.map_cons, records, reads, ok_bind]
    dsimp only
    rw [ih next members ordered (above.step first), Reading.symbols_cons, List.map_append]
    cases (r.step l).2 <;> rfl

end Extraction

/-- The declarations of a text are read with no offset out of place, and each is a symbol of the model
written down. -/
theorem extract_eq (text : List Char) :
    extract text = .ok ((Model.ofDocument ⟨text⟩).symbols.map Symbol.record) := by
  have numbers := Document.numbers_linesFrom 0 text
  rw [← List.range_eq_range', ← (Document.mk text).lines_eq_linesFrom] at numbers
  have ordered := Document.linesFrom_ordered 0 text
  rw [← (Document.mk text).lines_eq_linesFrom] at ordered
  rw [extract, LineIndex.lineCount_eq ⟨text⟩, ← numbers]
  exact Extraction.mirrors_start.records_eq (fun l member => member) ordered (Reading.start_above _)

/-- A text is read with no offset out of place. -/
theorem model_eq (text : List Char) : model text = .ok (Model.ofDocument ⟨text⟩) := by
  have shown (symbols : List Symbol) : (symbols.map Symbol.record).map Record.symbol = symbols := by
    rw [List.map_map]
    exact (List.map_congr_left fun s _ => s.symbol_record).trans (List.map_id symbols)
  rw [model, extract_eq, ok_bind, shown]
  rfl

end Bytewise

/-- The lines that a declaration and its members start on, in the order in which they are listed. -/
def Record.startLines (r : Record) : List Nat := r.site.line :: r.members.map (·.site.line)

theorem Symbol.startLines_record (s : Symbol) : s.record.startLines = s.startLines := by
  rw [Record.startLines, Symbol.startLines, Symbol.record, List.map_map]
  rfl

/-- The declarations of a text come in source order: listed with its members behind every symbol, those of
a class from both of its lists, each starts on a line of the text below that of the one before it, so no
line starts two of them. -/
theorem declarations_in_source_order (text : List Char) :
    ∃ symbols, Bytewise.extract text = .ok symbols ∧
      (symbols.flatMap Record.startLines).Pairwise (· < ·) ∧
      ∀ n ∈ symbols.flatMap Record.startLines, ((Document.mk text).line? n).isSome = true := by
  have same : ((Model.ofDocument ⟨text⟩).symbols.map Symbol.record).flatMap Record.startLines =
      (Model.ofDocument ⟨text⟩).startLines := by
    rw [List.flatMap_map, Model.startLines]
    exact congrArg (List.flatMap · _) (funext Symbol.startLines_record)
  refine ⟨_, Bytewise.extract_eq text, ?_, ?_⟩
  · rw [same]
    exact Model.startLines_ascend ⟨text⟩
  · rw [same]
    exact Model.startLines_exist ⟨text⟩

/-- A field is listed behind a callable with wrapped parameters that stands above it. -/
example : (Bytewise.extract "Box \x7b\n  put(\n    x: int) \x7b\n  \x7d\n  side: float\n\x7d".toList).map
    (·.flatMap Record.startLines) = .ok [0, 1, 4] := by
  rw [Bytewise.extract_eq]
  rfl

end SymbolIndex
