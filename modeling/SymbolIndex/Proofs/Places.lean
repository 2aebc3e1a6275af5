import SymbolIndex.Proofs.LineStarts
import SymbolIndex.Proofs.Sites

/-! Offsets and positions are two names for the places of a document. A place is on one line, behind some
of its characters, and both its names count what stands before it, so both grow with it. The one place
that a line does not have is the one behind the carriage return that is cut off its end: it has a position
there, but that position leads back to the end of the line. -/
namespace SymbolIndex

open Bytewise

namespace Document

/-- The place behind a carriage return that a newline or the end of the document follows. -/
def PastReturn (before behind : List Char) : Prop :=
  before.getLast? = some '\r' ∧ (behind = [] ∨ behind.head? = some '\n')

/-- A line is cut off before the carriage return that it ends with, or nowhere. -/
theorem chomp_cases (raw : List Char) :
    raw.getLast? = some '\r' ∧ raw = chomp raw ++ ['\r'] ∨
      raw.getLast? ≠ some '\r' ∧ raw = chomp raw := by
  unfold chomp
  split
  · rename_i returns
    exact .inl ⟨returns, (List.dropLast_append_getLast? _ returns).symm⟩
  · rename_i other
    exact .inr ⟨other, rfl⟩

/-- What is before the end of a line is within its content. -/
theorem prefix_chomp (lead : List Char) (c : Char) (left : List Char) :
    lead <+: chomp (lead ++ c :: left) := by
  have whole : lead <+: lead ++ c :: left := List.prefix_append _ _
  rcases chomp_cases (lead ++ c :: left) with ⟨-, chomped⟩ | ⟨-, kept⟩
  · apply List.prefix_of_prefix_length_le whole ⟨['\r'], chomped.symm⟩
    have shorter := congrArg List.length chomped
    simp only [List.length_append, List.length_cons, List.length_nil] at shorter
    omega
  · exact kept ▸ whole

/-- A return that ends a part of a line is on that line. -/
theorem getLast?_of_above {d : Document} {l : Line} (member : l ∈ d.lines) {lead : List Char}
    (last : (d.above l ++ lead).getLast? = some '\r') : lead.getLast? = some '\r' := by
  rcases List.eq_nil_or_concat' lead with rfl | ⟨front, c, rfl⟩
  · -- Nothing of the line is before the place, so what is ends with a newline.
    rw [List.append_nil] at last
    have start := congrArg Position.column (after_above member)
    have newline := Position.getLast?_of_after start (List.ne_nil_of_mem (List.mem_of_getLast? last))
    rw [newline] at last
    cases last
  · rw [← List.append_assoc, List.getLast?_concat] at last
    exact List.getLast?_concat.trans last

section Places

variable {d : Document} {before behind : List Char} (text : d.chars = before ++ behind)
include text

/-- Every place of a document is on a line: at a column of its content, or behind the return that is cut
off it. -/
theorem exists_place : ∃ l ∈ d.lines, ∃ lead, before = d.above l ++ lead ∧
    Position.origin.after before = ⟨l.number, lead.length⟩ ∧
    (lead <+: l.content ∧ ¬ PastReturn before behind ∨
      lead = l.content ++ ['\r'] ∧ PastReturn before behind) := by
  obtain ⟨earlier, l, later, prior, lead, lines, rfl, onward, oneLine, -⟩ :=
    Bytewise.LineIndex.exists_line_at 0 before behind
  rw [← text, ← d.lines_eq_linesFrom] at lines
  have member : l ∈ d.lines := by simp [lines]
  have above : d.above l = prior := by
    apply above_of_append
    rw [text, onward, List.append_assoc]
  have place : Position.origin.after (prior ++ lead) = ⟨l.number, lead.length⟩ := by
    rw [Position.after_append, ← above, after_above member, Position.after_of_one_line oneLine,
      Nat.zero_add]
  refine ⟨l, member, lead, by rw [above], place, ?_⟩
  obtain ⟨raw, rest, single, ends, same⟩ := lineOf_of_mem (d.lines_eq_linesFrom ▸ member)
  have content : l.content = chomp raw := congrArg Line.content same
  have whole : lead ++ behind = raw ++ rest := onward.symm.trans (congrArg Line.onward same)
  obtain ⟨left, cut, rfl⟩ : ∃ left, raw = lead ++ left ∧ behind = left ++ rest := by
    obtain rfl | ⟨later, rfl⟩ := ends
    · exact ⟨behind, by simpa using whole.symm, by simp⟩
    · exact Text.prefix_of_not_mem whole oneLine
  rw [content]
  cases left with
  | nil =>
    obtain rfl : raw = lead := by simpa using cut
    rcases chomp_cases raw with ⟨returns, chomped⟩ | ⟨other, kept⟩
    · refine .inr ⟨chomped, ?_, ?_⟩
      · rw [List.getLast?_append, returns]
        rfl
      · rcases ends with rfl | ⟨later, rfl⟩
        · exact .inl rfl
        · exact .inr rfl
    · refine .inl ⟨kept ▸ List.prefix_refl raw, ?_⟩
      rintro ⟨last, -⟩
      exact other (getLast?_of_above member (above ▸ last))
  | cons c left =>
    refine .inl ⟨cut ▸ prefix_chomp lead c left, ?_⟩
    rintro ⟨-, none | next⟩
    · cases none
    · obtain rfl : c = '\n' := Option.some.inj next
      exact single (cut ▸ List.mem_append_right lead List.mem_cons_self)

/-- The places behind a return are just those that lines are cut off before. -/
theorem pastReturn_iff :
    PastReturn before behind ↔ ∃ l ∈ d.lines, before = d.above l ++ (l.content ++ ['\r']) := by
  obtain ⟨l, member, lead, rfl, place, inside | past⟩ := exists_place text
  · refine iff_of_false inside.2 ?_
    rintro ⟨l', member', same⟩
    obtain ⟨tail, -, oneLine⟩ := content_append member'
    have single : '\n' ∉ l'.content ++ ['\r'] := by simp [oneLine]
    rw [same, Position.after_append, after_above member', Position.after_of_one_line single] at place
    obtain ⟨number, columns⟩ := Position.mk.inj place
    have found := line?_of_mem member'
    rw [number, line?_of_mem member] at found
    obtain rfl := Option.some.inj found
    have fits := inside.1.length_le
    rw [List.length_append, List.length_singleton] at columns
    omega
  · exact iff_of_true past.2 ⟨l, member, by rw [past.1]⟩

/-- The position of a place leads back to it, or to the end of the line that it is past. -/
theorem offset?_of_place : ∃ p, d.position? (Text.byteLength before) = some p ∧
    (¬ PastReturn before behind → d.offset? p = some (Text.byteLength before)) ∧
    (PastReturn before behind →
      ∃ stop, Text.byteLength before = stop + 1 ∧ d.offset? p = some stop) := by
  obtain ⟨l, member, lead, rfl, place, cases⟩ := exists_place text
  refine ⟨_, position?_of_append text, ?_⟩
  rw [place]
  rcases cases with ⟨inside, notPast⟩ | ⟨rfl, past⟩
  · exact ⟨fun _ => offset?_of_append (line?_of_mem member) (above_append member) inside,
      (absurd · notPast)⟩
  · refine ⟨(absurd past ·), fun _ => ⟨Text.byteLength (d.above l ++ l.content), ?_, ?_⟩⟩
    · rw [← List.append_assoc, Text.byteLength_append (d.above l ++ l.content)]
      rfl
    · have ends := offset?_of_append (line?_of_mem member) (above_append member)
        (List.prefix_refl l.content)
      have whole : l.content.take (l.content ++ ['\r']).length = l.content.take l.content.length := by
        rw [List.take_length, List.take_of_length_le (by simp)]
      rw [← ends, offset?, offset?, line?_of_mem member, Option.map_some, Option.map_some,
        Text.byteOffset, Text.byteOffset, whole]

end Places

/-- Farther in the text is later in the document. -/
theorem position?_ordered {d : Document} {a b a' b' : List Char} (first : d.chars = a ++ b)
    (second : d.chars = a' ++ b') (further : Text.byteLength a < Text.byteLength a') :
    ∃ p p', d.position? (Text.byteLength a) = some p ∧ d.position? (Text.byteLength a') = some p' ∧
      p.Before p' := by
  obtain ⟨more, rfl⟩ : ∃ more, a' = a ++ more := by
    rcases List.append_eq_append_iff.mp (first.symm.trans second) with ⟨more, whole, -⟩ | ⟨more, whole, -⟩
    · exact ⟨more, whole⟩
    · rw [whole, Text.byteLength_append] at further
      omega
  have nonempty : more ≠ [] := by
    rintro rfl
    rw [List.append_nil] at further
    exact Nat.lt_irrefl _ further
  refine ⟨_, _, position?_of_append first, position?_of_append second, ?_⟩
  rw [Position.after_append]
  exact Position.before_after _ nonempty

/-- Every position on a line of the document has an offset, whose position is the same one or, for a
column past the end of the line, that end. -/
theorem position?_of_offset? {d : Document} {p : Position} {l : Line} (found : d.line? p.line = some l) :
    ∃ offset, d.offset? p = some offset ∧
      d.position? offset = some ⟨p.line, min p.column l.content.length⟩ := by
  obtain ⟨member, number⟩ := mem_of_line? found
  obtain ⟨tail, upTo, -⟩ := upTo_prefix member (List.take_append_drop p.column l.content).symm
  refine ⟨_, ?_, upTo.position?.trans ?_⟩
  · rw [← upTo.offset, offset?, offset?, found, line?_of_mem member, number, Option.map_some,
      Option.map_some, Text.byteOffset, Text.byteOffset, List.length_take, ← List.take_eq_take_min]
  · rw [List.length_take, number]

end Document

/-- Byte offsets at which characters meet and positions name the places of a document, in the same order.
The position of an offset leads back to it, and only behind a carriage return that is cut off a line to
the offset before. A position on a line has an offset that leads back to it, or to the end of the line if
its column is past that; below the last line there is none. The starts of lines, searched for an offset,
tell the same. -/
theorem offsets_mirror_positions (d : Document) :
    (∀ a b a' b', d.chars = a ++ b → d.chars = a' ++ b' → Text.byteLength a < Text.byteLength a' →
      ∃ p p', d.position? (Text.byteLength a) = some p ∧ d.position? (Text.byteLength a') = some p' ∧
        p.Before p') ∧
    (∀ before behind, d.chars = before ++ behind →
      (∃ p, d.position? (Text.byteLength before) = some p ∧
        (LineIndex.ofText d.chars).position (Text.byteLength before) = .ok p ∧
        (¬ Document.PastReturn before behind → d.offset? p = some (Text.byteLength before)) ∧
        (Document.PastReturn before behind →
          ∃ stop, Text.byteLength before = stop + 1 ∧ d.offset? p = some stop)) ∧
      (Document.PastReturn before behind ↔
        ∃ l ∈ d.lines, before = d.above l ++ (l.content ++ ['\r']))) ∧
    (∀ p, p.line < d.lines.length → ∃ l offset, d.line? p.line = some l ∧ d.offset? p = some offset ∧
      d.position? offset = some ⟨p.line, min p.column l.content.length⟩) ∧
    (∀ p, d.lines.length ≤ p.line → d.offset? p = none) ∧
    (LineIndex.ofText d.chars).lineCount = d.lines.length ∧
    ∀ p, (LineIndex.ofText d.chars).offset p = .ok (d.offset? p) := by
  refine ⟨fun _ _ _ _ => Document.position?_ordered, ?_, ?_, ?_, LineIndex.lineCount_eq d,
    LineIndex.offset_eq d⟩
  · intro before behind text
    obtain ⟨p, position, back, past⟩ := Document.offset?_of_place text
    refine ⟨⟨p, position, ?_, back, past⟩, Document.pastReturn_iff text⟩
    rw [LineIndex.position_eq d text, ← Option.some.inj (position.symm.trans (Document.position?_of_append text))]
  · intro p inside
    obtain ⟨l, found, -⟩ := LineIndex.exists_line? (Nat.not_le_of_lt inside)
    obtain ⟨offset, place, back⟩ := Document.position?_of_offset? found
    exact ⟨l, offset, found, place, back⟩
  · intro p past
    rw [Document.offset?, LineIndex.line?_of_le past]
    rfl

/-- A text whose first line keeps one of its two carriage returns, and whose last one ends with one. -/
def returning : Document := .ofString "é\r\r\nab\r"

/-- In `returning` the place behind the second return leads back by one, and a column past the end of the
last line to that end. -/
theorem offsets_mirror_positions_returning :
    (∃ p p', returning.position? 3 = some p ∧ returning.position? 4 = some p' ∧ p.Before p') ∧
    (∃ p, returning.position? 3 = some p ∧ returning.offset? p = some 3) ∧
    (∃ p, returning.position? 4 = some p ∧ ∃ stop, 4 = stop + 1 ∧ returning.offset? p = some stop) ∧
    (∃ l offset, returning.line? 1 = some l ∧ returning.offset? ⟨1, 9⟩ = some offset ∧
      returning.position? offset = some ⟨1, min 9 l.content.length⟩) ∧
    returning.offset? ⟨2, 0⟩ = none := by
  obtain ⟨ordered, places, onLine, below, -⟩ := offsets_mirror_positions returning
  have first : returning.chars = "é\r".toList ++ "\r\nab\r".toList := by decide
  have second : returning.chars = "é\r\r".toList ++ "\nab\r".toList := by decide
  refine ⟨ordered _ _ _ _ first second (by decide), ?_, ?_, onLine ⟨1, 9⟩ (by decide),
    below ⟨2, 0⟩ (by decide)⟩
  · obtain ⟨⟨p, position, -, back, -⟩, -⟩ := places _ _ first
    exact ⟨p, position, back (by unfold Document.PastReturn; decide)⟩
  · obtain ⟨⟨p, position, -, -, past⟩, -⟩ := places _ _ second
    exact ⟨p, position, past (by unfold Document.PastReturn; decide)⟩

end SymbolIndex
