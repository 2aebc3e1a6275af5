import Mathlib.Data.List.Basic
import SymbolIndex.Proofs.Braces
import SymbolIndex.Proofs.Occurrence
import SymbolIndex.Proofs.Reading

/-! Lines that can be scanned on their own. A plain line ends outside quoted text and block comments
and does not begin with a block comment, so the scan of a whole text passes its newline as if the
next line were the first, and the depth that the reading of a document keeps line by line is the
depth of the text. -/
namespace SymbolIndex

namespace Text

theorem exists_chomp_append (raw : List Char) :
    ∃ terminator, raw = Document.chomp raw ++ terminator ∧ Blanks terminator := by
  unfold Document.chomp
  split
  · rename_i ends
    refine ⟨['\r'], ?_, by simp [Blanks, isBlank]⟩
    exact (List.dropLast_append_getLast? _ ends).symm
  · exact ⟨[], by simp, by simp [Blanks]⟩

theorem trim_chomp (raw : List Char) : trim (Document.chomp raw) = trim raw := by
  obtain ⟨terminator, whole, blank⟩ := exists_chomp_append raw
  calc trim (Document.chomp raw) = trim (Document.chomp raw ++ terminator) :=
        (trim_append_blanks _ blank).symm
    _ = trim raw := by rw [← whole]

end Text

/-- Outside block comments, a line that begins none is a comment if it begins with the mark of
one. -/
theorem Comment.read_of_unopened {line : List Char} (unopened : Text.startsWith openMark line = false) :
    read false line = ⟨Text.startsWith lineMark line, false⟩ := by
  have closed : Text.afterPrefix? openMark line = none :=
    Option.isSome_eq_false_iff.mp unopened |> Option.isNone_iff_eq_none.mp
  simp [read, closed]

/-- The braces of a comment do not count. -/
theorem braceBalance_of_comment {line : List Char} (oneLine : '\n' ∉ line)
    (comment : Text.startsWith Comment.lineMark line = true) : braceBalance line = 0 := by
  obtain ⟨rest, rfl⟩ := Text.exists_of_startsWith comment
  have later : '\n' ∉ rest := fun member => oneLine (List.mem_append_right _ member)
  rw [braceBalance, Lexical.scan_append]
  exact (Int.zero_add _).trans (Lexical.scan_lineComment later)

namespace Line

/-- A line that leaves neither quoted text nor a block comment open, and that does not begin with
one. -/
structure Plain (l : Line) : Prop where
  settled : (Lexical.start.after l.content).Settled
  unopened : Text.startsWith Comment.openMark l.trimmed = false

instance (l : Line) : Decidable l.Plain :=
  decidable_of_iff ((Lexical.start.after l.content).Settled ∧
    Text.startsWith Comment.openMark l.trimmed = false)
    ⟨fun ⟨settled, unopened⟩ => ⟨settled, unopened⟩, fun plain => ⟨plain.settled, plain.unopened⟩⟩

theorem trimmed_lineOf (number : Nat) (raw rest : List Char) :
    (Document.lineOf number raw rest).trimmed = Text.trim raw := Text.trim_chomp raw

theorem braceBalance_lineOf (number : Nat) (raw rest : List Char) :
    braceBalance (Document.lineOf number raw rest).trimmed = braceBalance raw := by
  rw [trimmed_lineOf, braceBalance_trim]

/-- The scan of a text starts again behind a plain line. -/
theorem Plain.after_newline {number : Nat} {raw rest : List Char}
    (plain : (Document.lineOf number raw rest).Plain) :
    (Lexical.start.after raw).next '\n' = Lexical.start := by
  obtain ⟨terminator, whole, blank⟩ := Text.exists_chomp_append raw
  refine Lexical.next_newline ?_
  rw [whole, Lexical.after_append]
  exact Lexical.Settled.after_blanks plain.settled blank

theorem not_mem_trimmed {raw : List Char} (oneLine : '\n' ∉ raw) (number : Nat)
    (rest : List Char) : '\n' ∉ (Document.lineOf number raw rest).trimmed := by
  rw [trimmed_lineOf]
  exact fun inside => oneLine (Text.mem_of_mem_trim inside)

theorem block_of_closing {l : Line} {braceAt index : Nat} {text : List Char}
    (onward : l.onward.drop (l.indent + braceAt) = text) (closes : closingBrace? text = some index) :
    l.block braceAt = text.take (index + 1) := by
  rw [block, onward]
  simp only [closes]

/-- A trimmed line that is cut in two, in the line that it is trimmed from. -/
theorem raw_of_trimmed {number : Nat} {raw below before behind : List Char}
    (trimmed : (Document.lineOf number raw below).trimmed = before ++ behind) :
    ∃ tail terminator, Text.Blanks (tail ++ terminator) ∧
      Document.chomp raw = Text.indent (Document.chomp raw) ++ before ++ (behind ++ tail) ∧
      raw = Text.indent (Document.chomp raw) ++ before ++ (behind ++ (tail ++ terminator)) := by
  obtain ⟨terminator, whole, ends⟩ := Text.exists_chomp_append raw
  obtain ⟨tail, content, blank⟩ := Text.exists_trim_append (Document.chomp raw)
  have cut : Document.chomp raw =
      Text.indent (Document.chomp raw) ++ before ++ (behind ++ tail) := by
    calc Document.chomp raw =
          Text.indent (Document.chomp raw) ++ Text.trim (Document.chomp raw) ++ tail := content
      _ = Text.indent (Document.chomp raw) ++ (before ++ behind) ++ tail := by
        rw [show Text.trim (Document.chomp raw) = before ++ behind from trimmed]
      _ = _ := by simp
  refine ⟨tail, terminator, Text.blanks_append.mpr ⟨blank, ends⟩, cut, ?_⟩
  calc raw = Document.chomp raw ++ terminator := whole
    _ = Text.indent (Document.chomp raw) ++ before ++ (behind ++ tail) ++ terminator :=
      congrArg (· ++ terminator) cut
    _ = _ := by simp

/-- A brace of a trimmed line, in the line that it is trimmed from. -/
theorem brace_of_trimmed {number : Nat} {raw rest before behind : List Char}
    (trimmed : (Document.lineOf number raw rest).trimmed = before ++ '\x7b' :: behind) :
    ∃ lead body, raw = lead ++ '\x7b' :: body ∧ lead <+: (Document.lineOf number raw rest).content ∧
      lead.length = (Document.lineOf number raw rest).indent + before.length ∧
      lead = Text.indent (Document.lineOf number raw rest).content ++ before := by
  obtain ⟨tail, terminator, -, cut, whole⟩ := raw_of_trimmed trimmed
  exact ⟨Text.indent (Document.chomp raw) ++ before, behind ++ (tail ++ terminator), whole,
    ⟨'\x7b' :: (behind ++ tail), cut.symm⟩, List.length_append, rfl⟩

end Line

namespace Reading

theorem commented_of_unopened {r : Reading} {l : Line} (outside : r.inComment = false)
    (unopened : Text.startsWith Comment.openMark l.trimmed = false) : r.commented l = r := by
  obtain ⟨inComment, container, depth⟩ := r
  obtain rfl : inComment = false := outside
  simp [commented, Comment.read_of_unopened unopened]

/-- Lines that begin no block comment leave none open. -/
theorem after_outside {r : Reading} (outside : r.inComment = false) {lines : List Line}
    (unopened : ∀ l ∈ lines, Text.startsWith Comment.openMark l.trimmed = false) :
    (r.after lines).inComment = false := by
  induction lines generalizing r with
  | nil => exact outside
  | cons l later ih =>
    obtain ⟨here, others⟩ := List.forall_mem_cons.mp unopened
    have quiet : (r.commented l).inComment = false :=
      (congrArg inComment (commented_of_unopened outside here)).trans outside
    have stays : (r.step l).1.inComment = false := by
      generalize next : r.step l = result
      cases next ▸ step_outcome r l with
      | blank => exact outside
      | comment | nested | declared | opened | whole | grown | closed => exact quiet
    exact ih stays others

/-- Inside a container a line adds to the depth what it adds to that of the text, and closes
the container exactly if the depth is no longer positive. Members are only added. -/
theorem step_inside {r : Reading} {l : Line} {b : Container} (outside : r.inComment = false)
    (unopened : Text.startsWith Comment.openMark l.trimmed = false) (oneLine : '\n' ∉ l.trimmed)
    (inside : r.container = some b) (positive : 0 < b.depth) :
    (0 < b.depth + braceBalance l.trimmed ∧ ∃ b',
      r.step l = ({ r with container := some b' }, none) ∧
      b'.depth = b.depth + braceBalance l.trimmed ∧ b'.name = b.name ∧ b'.site = b.site ∧
      ∀ m ∈ b'.collected, m ∈ b.collected ∨ l.Hosts m.site) ∨
    (b.depth + braceBalance l.trimmed ≤ 0 ∧
      r.step l = ({ r with container := none }, some (b.noting l).close)) := by
  have leaves := commented_of_unopened outside unopened
  have noted : r.note l = { r with container := some (b.noting l) } := by
    simp [note, inside, Container.noting]
  generalize next : r.step l = result
  cases next ▸ step_outcome r l with
  | blank empty =>
    have zero : braceBalance l.trimmed = 0 := by rw [empty]; rfl
    rw [zero, Int.add_zero]
    exact .inl ⟨positive, b.noting l, by rw [noted], rfl, rfl, rfl, fun _ => .inl⟩
  | comment is =>
    rw [outside, Comment.read_of_unopened unopened] at is
    have zero : braceBalance l.trimmed = 0 := braceBalance_of_comment oneLine is
    rw [zero, Int.add_zero]
    refine .inl ⟨positive, b.noting l, ?_, rfl, rfl, rfl, fun _ => .inl⟩
    have quiet : (r.note l).commented l = r.note l := commented_of_unopened outside unopened
    rw [quiet, noted]
  | nested _ free | declared _ free | opened _ free | whole _ free =>
    exact absurd (free.symm.trans inside) (by simp)
  | grown _ b' inside' above =>
    obtain rfl := Option.some.inj (inside'.symm.trans inside)
    refine .inl ⟨above, b'.grown l, by rw [leaves], rfl, (b'.grown_site l).1,
      (b'.grown_site l).2, ?_⟩
    intro m member
    rcases Container.mem_collected_grown member with before | ⟨entry, declares, rfl⟩
    · exact .inl before
    · exact .inr (Container.declared?_declares declares).hosts
  | closed _ b' inside' below =>
    obtain rfl := Option.some.inj (inside'.symm.trans inside)
    exact .inr ⟨below, by rw [leaves]⟩

end Reading

end SymbolIndex
