import Mathlib.Data.List.Find
import SymbolIndex.Bytewise.Queries
import SymbolIndex.Proofs.ByteReading
import SymbolIndex.Proofs.Definitions

/-! The queries for a name find by byte offsets what they find by columns. Each of the two offsets of a
match is the length of the text before it, so no offset is searched that lies inside a character, and its
position is that of the match; and a cursor is compared with words in bytes as it is in columns. -/
namespace SymbolIndex

namespace Text

theorem byteOffset_append (a b : List Char) : byteOffset (a ++ b) a.length = byteLength a := by
  rw [byteOffset, List.take_left]

/-- Offsets of a text are ordered as its columns are, those past its end being its end. -/
theorem byteOffset_le_iff {s : List Char} {i j : Nat} :
    byteOffset s i ≤ byteOffset s j ↔ min i s.length ≤ min j s.length := by
  induction s generalizing i j with
  | nil => simp [byteOffset]
  | cons c s ih =>
    have positive := c.utf8Size_pos
    have none : byteLength [] = 0 := rfl
    cases i with
    | zero => simp [byteOffset, none]
    | succ i =>
      cases j with
      | zero =>
        rw [byteOffset, byteOffset, List.take_succ_cons, byteLength_cons, List.take_zero,
          List.length_cons]
        omega
      | succ j =>
        have later := ih (i := i) (j := j)
        rw [byteOffset, byteOffset] at later ⊢
        rw [List.take_succ_cons, List.take_succ_cons, byteLength_cons, byteLength_cons,
          List.length_cons]
        omega

end Text

namespace Bytewise

open Text

theorem mapM_eq_ok {α β : Type} {f : α → Except Breach β} {g : α → β} {items : List α}
    (works : ∀ a ∈ items, f a = .ok (g a)) : items.mapM f = .ok (items.map g) := by
  induction items with
  | nil => rfl
  | cons a items ih =>
    obtain ⟨first, later⟩ := List.forall_mem_cons.mp works
    rw [List.mapM_cons, first, ok_bind, ih later]
    rfl

theorem foldlM_eq_ok {α β : Type} {f : β → α → Except Breach β} {g : β → α → β} {items : List α}
    (works : ∀ a ∈ items, ∀ b, f b a = .ok (g b a)) (b : β) :
    items.foldlM f b = .ok (items.foldl g b) := by
  induction items generalizing b with
  | nil => rfl
  | cons a items ih =>
    obtain ⟨first, later⟩ := List.forall_mem_cons.mp works
    rw [List.foldlM_cons, first, ok_bind, ih later, List.foldl_cons]

theorem newline_not_mem_of_isWord {name : List Char} (word : isWord name = true) : '\n' ∉ name := by
  intro newline
  have inWord := (isWord_iff.mp word).2 _ newline
  cases inWord

section OnLine

variable {d : Document} {l : Line} (member : l ∈ d.lines)
include member

theorem lineStart_of_mem : (LineIndex.ofText d.chars).lineStart l.number = byteLength (d.above l) := by
  have whole := congrArg byteLength (Document.above_append member)
  rw [byteLength_append] at whole
  rw [LineIndex.lineStart_eq, Document.lineStart, Document.line?_of_mem member]
  dsimp only
  rw [Document.byteLength, whole, Nat.add_sub_cancel]

/-- A name on a line has the span of its columns there. -/
theorem span_eq {lead name rest : List Char} (onward : l.onward = lead ++ (name ++ rest))
    (oneLine : '\n' ∉ lead) (single : '\n' ∉ name) :
    let first := (LineIndex.ofText d.chars).lineStart l.number + byteLength lead
    (LineIndex.ofText d.chars).span first (first + byteLength name) =
      .ok (Span.onLine l.number lead.length (lead.length + name.length)) := by
  have before : d.chars = d.above l ++ lead ++ (name ++ rest) := by
    rw [Document.above_append member, onward, List.append_assoc]
  have through : d.chars = d.above l ++ lead ++ name ++ rest := by
    rw [before, ← List.append_assoc]
  have start : Position.origin.after (d.above l ++ lead) = ⟨l.number, lead.length⟩ := by
    rw [Position.after_append, Document.after_above member, Position.after_of_one_line oneLine,
      Nat.zero_add]
  have stop : Position.origin.after (d.above l ++ lead ++ name) =
      ⟨l.number, lead.length + name.length⟩ := by
    rw [Position.after_append, start, Position.after_of_one_line single]
  dsimp only
  rw [lineStart_of_mem member, ← byteLength_append, ← byteLength_append, LineIndex.span,
    LineIndex.position_eq d before, LineIndex.position_eq d through, start, stop]
  rfl

theorem lineReferences_eq (name : List Char) :
    lineReferences (LineIndex.ofText d.chars) name l = .ok (l.references name) := by
  refine mapM_eq_ok fun w inside => ?_
  obtain ⟨isWord, same⟩ := List.mem_filter.mp inside
  obtain rfl := beq_iff_eq.mp same
  obtain ⟨lead, rest, content, place, word⟩ := Word.exists_split_of_mem isWord
  rw [Nat.zero_add] at place
  obtain ⟨tail, onward, oneLine⟩ := Document.content_append member
  rw [content, List.append_assoc, List.append_assoc] at onward
  have single : '\n' ∉ lead := fun newline => oneLine (content ▸ List.mem_append_left _ newline)
  have offset : byteOffset l.content w.column = byteLength lead := by
    rw [content, ← place, byteOffset_append]
  rw [offset, Word.span, Word.stop, ← place]
  exact span_eq member onward single (newline_not_mem_of_isWord word)

end OnLine

theorem matchesIn_eq {d : Document} {form : Definition.Form} {name : List Char}
    (isForm : form ∈ Definition.formsFor name) (word : isWord name = true) {lines : List Line}
    (members : ∀ l ∈ lines, l ∈ d.lines) (skipped : Nat) :
    matchesIn (LineIndex.ofText d.chars) form name skipped lines =
      .ok (form.matchesIn name skipped lines) := by
  induction lines generalizing skipped with
  | nil => cases skipped <;> rfl
  | cons l lines ih =>
    obtain ⟨member, later⟩ := List.forall_mem_cons.mp members
    cases skipped with
    | succ skipped => exact ih later skipped
    | zero =>
      rw [matchesIn, Definition.Form.matchesIn]
      cases matched : form.match? name l.onward with
      | none => exact ih later 0
      | some m =>
        obtain ⟨lead, rest, onward, column, oneLine, -⟩ := Definition.Form.match?_word isForm matched
        have offset : byteOffset l.onward m.column = byteLength lead := by
          rw [onward, ← column, byteOffset_append]
        have spans := span_eq member onward oneLine (newline_not_mem_of_isWord word)
        dsimp only at spans ⊢
        rw [offset, spans, ok_bind, ih later, ← column]
        rfl

/-- Definitions are found with no offset out of place. -/
theorem definitions_eq (d : Document) (name : List Char) :
    definitions d.chars name = .ok (d.definitions name) := by
  rw [definitions, Document.definitions]
  split
  · rename_i word
    refine foldlM_eq_ok (fun form isForm found => ?_) []
    rw [matchesIn_eq isForm word fun l member => member]
    rfl
  · rfl

/-- What is not a word has no references. -/
theorem references_of_not_isWord {name : List Char} (other : ¬ isWord name = true) (d : Document) :
    d.references name = [] := by
  refine List.flatMap_eq_nil_iff.mpr fun l _ => ?_
  rw [Line.references, List.map_eq_nil_iff, List.filter_eq_nil_iff]
  intro w inside same
  obtain ⟨-, -, -, -, word⟩ := Word.exists_split_of_mem inside
  exact other (beq_iff_eq.mp same ▸ word)

theorem references_eq (d : Document) (name : List Char) :
    references d.chars name = .ok (d.references name) := by
  rw [references]
  split
  · dsimp only
    rw [mapM_eq_ok fun l (member : l ∈ d.lines) => lineReferences_eq member name]
    rfl
  · rename_i other
    rw [references_of_not_isWord other]

/-- Whether a span is kept is told by the text of its line. -/
theorem withoutDeclarations_eq_filter (d : Document) (name : List Char) (spans : List Span) :
    d.withoutDeclarations name spans = spans.filter fun span =>
      !(Line.isDeclaration (d.lineText span.start.line) &&
        occursIn name (d.lineText span.start.line)) := by
  refine List.filter_congr fun span _ => ?_
  rw [Document.lineText, Document.line?, List.getElem?_toArray]
  cases d.lines[span.start.line]? <;> rfl

theorem withoutDeclarations_eq (d : Document) (name : List Char) (spans : List Span) :
    withoutDeclarations (LineIndex.ofText d.chars) name spans =
      .ok (d.withoutDeclarations name spans) := by
  rw [withoutDeclarations_eq_filter]
  induction spans with
  | nil => rfl
  | cons span spans ih =>
    rw [withoutDeclarations, LineIndex.line_eq, ok_bind, ih, ok_bind, pure_eq_ok, List.filter_cons]
    cases Line.isDeclaration (d.lineText span.start.line) &&
      occursIn name (d.lineText span.start.line) <;> rfl

/-- References are found with no offset out of place. -/
theorem referencesTo_eq (d : Document) (name : List Char) (keepDeclarations : Bool) :
    referencesTo d.chars name keepDeclarations = .ok (d.referencesTo name keepDeclarations) := by
  rw [referencesTo, references_eq, ok_bind, Document.referencesTo]
  split
  · rfl
  · exact withoutDeclarations_eq d name _

/-- A cursor touches the same word by offsets as by columns. -/
theorem find?_touched (s : List Char) (column : Nat) :
    ((Word.runs 0 s).find? fun w =>
      byteOffset s w.column ≤ byteOffset s column && byteOffset s column ≤ byteOffset s w.stop) =
    (Word.runs 0 s).find? (·.touches (min column s.length)) := by
  refine List.find?_congr fun w inside => ?_
  obtain ⟨lead, rest, text, place, -⟩ := Word.exists_split_of_mem inside
  have size := congrArg List.length text
  rw [List.length_append, List.length_append] at size
  have first : min w.column s.length = w.column := by omega
  have last : min w.stop s.length = w.stop := by
    rw [Word.stop]
    omega
  simp only [Word.touches, byteOffset_le_iff, first, last]

/-- The word under a cursor is found with no offset out of place. -/
theorem wordAt_eq (d : Document) (p : Position) : wordAt d.chars p = .ok (d.wordAt? p) := by
  rw [wordAt, Document.wordAt?]
  dsimp only
  rw [LineIndex.lineCount_eq]
  split
  · rename_i past
    rw [LineIndex.line?_of_le past]
    rfl
  · rename_i inside
    obtain ⟨l, found, line⟩ := LineIndex.exists_line? inside
    have words : l.words = Word.runs 0 l.content := rfl
    rw [found, LineIndex.line_eq, ok_bind, Option.bind_some, line, find?_touched, words]
    cases touched : (Word.runs 0 l.content).find? (·.touches (min p.column l.content.length)) with
    | none => rfl
    | some w =>
      obtain ⟨lead, rest, content, place, -⟩ :=
        Word.exists_split_of_mem (List.mem_of_find?_eq_some touched)
      rw [Nat.zero_add] at place
      have before := LineIndex.columnOf_eq d (line.trans content)
      have through := LineIndex.columnOf_eq d (line.trans (content.trans (List.append_assoc ..).symm))
      have start : byteOffset l.content w.column = byteLength lead := by
        rw [content, ← place, byteOffset_append]
      have stop : byteOffset l.content w.stop = byteLength (lead ++ w.text) := by
        rw [content, Word.stop, ← place, ← List.length_append, ← List.append_assoc, byteOffset_append]
      dsimp only
      rw [start, stop, before, through, place, List.length_append, place]
      rfl

end Bytewise

end SymbolIndex
