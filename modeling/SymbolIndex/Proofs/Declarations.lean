import SymbolIndex.Proofs.Correspondence
import SymbolIndex.Proofs.Offsets
import SymbolIndex.Proofs.PlainLines
import SymbolIndex.Proofs.Shapes

/-! Where a declaration stands, on its line and in the document. The readers of lines name places by
columns of the trimmed line. `UpTo` ties such a place to the text before it, and with it to a
position and a byte offset of the document, whatever indents the line and whatever ends it. -/
namespace SymbolIndex

namespace Line

/-- The column, in the trimmed line, of the brace that opens the body of a declaration of the
kind. -/
def bodyBrace? (l : Line) (kind : Kind) : Option Nat :=
  if kind.isContainer then (Shape.containerHead? l.trimmed).map (·.braceAt)
  else if kind.isCallable then
    match (Shape.callable? l.trimmed).map Shape.Callable.body with
    | some (.block braceAt) => some braceAt
    | _ => none
  else none

theorem brace_of_bodyBrace? {l : Line} {kind : Kind} {braceAt : Nat}
    (body : l.bodyBrace? kind = some braceAt) :
    ∃ before behind, l.trimmed = before ++ '\x7b' :: behind ∧ before.length = braceAt := by
  unfold bodyBrace? at body
  split at body
  · obtain ⟨head, heads, rfl⟩ := Option.map_eq_some_iff.mp body
    obtain ⟨before, behind, trimmed, width, -⟩ := Shape.containerHead?_brace heads
    exact ⟨before, behind, trimmed, width⟩
  · split at body
    · split at body
      · rename_i column block
        obtain rfl := Option.some.inj body
        obtain ⟨c, reads, same⟩ := Option.map_eq_some_iff.mp block
        exact Shape.callable?_brace reads same
      · cases body
    · cases body

section Bodies

variable {l : Line} {kind : Kind}

theorem bodyBrace?_container (contains : kind.isContainer = true) :
    l.bodyBrace? kind = (Shape.containerHead? l.trimmed).map (·.braceAt) := by
  rw [bodyBrace?, if_pos contains]

theorem bodyBrace?_callable (calls : kind.isCallable = true) :
    l.bodyBrace? kind = match (Shape.callable? l.trimmed).map Shape.Callable.body with
      | some (.block braceAt) => some braceAt
      | _ => none := by
  have leaf : ¬ kind.isContainer = true := by
    cases kind <;> simp_all [Kind.isCallable, Kind.isContainer]
  rw [bodyBrace?, if_neg leaf, if_pos calls]

theorem bodyBrace?_of_not_mem (braceless : '\x7b' ∉ l.trimmed) : l.bodyBrace? kind = none := by
  cases body : l.bodyBrace? kind with
  | none => rfl
  | some braceAt =>
    obtain ⟨before, behind, trimmed, -⟩ := brace_of_bodyBrace? body
    exact absurd (trimmed ▸ List.mem_append_right before List.mem_cons_self) braceless

/-- Lines that read alike match if the bodies that open on them stop at places that correspond. -/
theorem matches_of_bodies {places : Kind → Site → Site → Prop} {l' : Line}
    (trimmed : l.trimmed = l'.trimmed) (mentions : Container.mentions l = Container.mentions l')
    (alone : ∀ kind nameAt name,
      places kind (l.site nameAt name l.stop) (l'.site nameAt name l'.stop))
    (bodies : ∀ kind braceAt name, l.bodyBrace? kind = some braceAt →
      places kind (l.site 0 name (l.blockStop braceAt)) (l'.site 0 name (l'.blockStop braceAt))) :
    l.Matches places l' where
  trimmed := trimmed
  mentions := mentions
  alone := alone
  container kind head contains heads := by
    apply bodies
    rw [bodyBrace?_container contains, heads, Option.map_some]
  callable kind c braceAt calls reads block := by
    apply bodies
    rw [bodyBrace?_callable calls, reads, Option.map_some, block]

/-- A declaration has its name on its line and stops behind its body, or at the end of the line if it
has none. -/
theorem Declares.placed {name : String} {site : Site} (declares : l.Declares kind name site) :
    ∃ column stop, Shape.NameAt l.trimmed column name ∧ site = l.site column name stop ∧
      stop = match l.bodyBrace? kind with
        | some braceAt => l.blockStop braceAt
        | none => l.stop := by
  cases declares with
  | container contains heads =>
    refine ⟨0, _, ((Shape.containerHead?_heads heads).elim (·.nameAt) (·.nameAt)), rfl, ?_⟩
    rw [bodyBrace?_container contains, heads]
    rfl
  | callable calls reads =>
    refine ⟨0, _, (Shape.callable?_heads reads).nameAt, rfl, ?_⟩
    rw [bodyBrace?_callable calls, reads, Option.map_some]
    rename_i c
    cases body : c.body <;> rfl
  | signature reads =>
    have braceless : '\x7b' ∉ l.trimmed := by
      intro brace
      rw [Shape.signature?_of_brace brace] at reads
      cases reads
    exact ⟨0, _, (Shape.signature?_heads reads).nameAt, rfl, by rw [bodyBrace?_of_not_mem braceless]⟩
  | wrapped calls reads =>
    have bodiless : Shape.callable? l.trimmed = none := by
      cases callable : Shape.callable? l.trimmed with
      | none => rfl
      | some c => exact absurd (Shape.callable?_closing callable) (Shape.wrapped?_unclosed reads)
    refine ⟨0, _, (Shape.wrapped?_heads reads).nameAt, rfl, ?_⟩
    rw [bodyBrace?_callable calls, bodiless]
    rfl
  | field reads => exact ⟨0, _, (Shape.field?_heads reads).nameAt, rfl, rfl⟩
  | constant reads => exact ⟨_, _, Shape.constant?_nameAt reads, rfl, rfl⟩

/-- A name stands before every brace of its line. -/
theorem name_before_brace {line before behind : List Char} {column : Nat} {name : String}
    (named : Shape.NameAt line column name) (braced : line = before ++ '\x7b' :: behind) :
    column + name.length ≤ before.length := by
  by_contra reaches
  obtain ⟨part, rest, whole, width, chars⟩ := named.upTo (Nat.lt_of_not_le reaches)
  have both : part ++ rest = before ++ ['\x7b'] ++ behind := by
    rw [← whole, braced, List.append_assoc, List.singleton_append]
  have same : part = before ++ ['\x7b'] := List.append_inj_left both (by simp [width])
  have brace : '\x7b' ∈ part := by simp [same]
  exact absurd (chars _ brace) (by decide)

/-- A name ends on its line. -/
theorem column_le (l : Line) {column : Nat} {name : String}
    (named : Shape.NameAt l.trimmed column name) :
    l.indent + column + name.length ≤ l.content.length := by
  obtain ⟨lead, rest, trimmed, rfl, -⟩ := named
  obtain ⟨blanks, whole, -⟩ := Text.exists_trim_append l.content
  have lengths := congrArg List.length whole
  rw [show Text.trim l.content = lead ++ name.toList ++ rest from trimmed] at lengths
  simp only [List.length_append, String.length_toList] at lengths
  rw [indent]
  omega

end Bodies

end Line

namespace Document

/-- The text above a line. -/
def above (d : Document) (l : Line) : List Char := d.chars.take (d.chars.length - l.onward.length)

/-- A position of a document, by the text before it and the text behind it. -/
structure UpTo (d : Document) (p : Position) (before behind : List Char) : Prop where
  text : d.chars = before ++ behind
  position : Position.origin.after before = p
  offset : d.offset? p = some (Text.byteLength before)

theorem UpTo.position? {d : Document} {p : Position} {before behind : List Char}
    (upTo : d.UpTo p before behind) : d.position? (Text.byteLength before) = some p := by
  rw [position?_of_append upTo.text, upTo.position]

theorem above_of_append {d : Document} {l : Line} {prior : List Char}
    (text : d.chars = prior ++ l.onward) : d.above l = prior := by
  rw [above, text, List.length_append, Nat.add_sub_cancel, List.take_left]

/-- Nothing stands above the first line. -/
theorem above_first {d : Document} {l : Line} {after : List Line} (split : d.lines = l :: after) :
    d.above l = [] := above_of_append (onward_of_first split).symm

/-- Above a line stand what is above the line before it, that line itself and its newline. -/
theorem above_next {d : Document} {l l' : Line} {before after : List Line}
    (split : d.lines = before ++ l' :: l :: after) :
    ∃ raw, d.above l = d.above l' ++ (raw ++ ['\n']) ∧ l'.trimmed = Text.trim raw := by
  obtain ⟨prior, text, -, -, lines⟩ := linesFrom_split (d.lines_eq_linesFrom ▸ split)
  obtain ⟨raw, onward, line⟩ := onward_of_next lines.symm
  refine ⟨raw, ?_, ?_⟩
  · apply above_of_append
    rw [above_of_append text, text, onward]
    simp
  · rw [line, Line.trimmed_lineOf]

theorem UpTo.beginning? {d : Document} {p : Position} {before behind : List Char}
    (upTo : d.UpTo p before behind) :
    Text.beginning? (Text.byteLength before) d.chars = some before := by
  rw [upTo.text, Text.beginning?_byteLength]

section OnLine

variable {d : Document} {l : Line} (member : l ∈ d.lines)
include member

theorem above_append : d.chars = d.above l ++ l.onward := by
  obtain ⟨before, after, split⟩ := List.append_of_mem (d.lines_eq_linesFrom ▸ member)
  obtain ⟨prior, text, -⟩ := linesFrom_split split
  rw [above_of_append text, text]

theorem after_above : Position.origin.after (d.above l) = ⟨l.number, 0⟩ := by
  obtain ⟨before, after, split⟩ := List.append_of_mem (d.lines_eq_linesFrom ▸ member)
  obtain ⟨prior, text, place, -⟩ := linesFrom_split split
  rw [above_of_append text]
  exact place

/-- A line stands before its terminator, and that before the end of the document or a newline. -/
theorem exists_terminator : ∃ terminator rest, l.onward = l.content ++ terminator ++ rest ∧
    '\n' ∉ l.content ++ terminator ∧ Text.Blanks terminator ∧
    (rest = [] ∨ ∃ later, rest = '\n' :: later) := by
  obtain ⟨raw, rest, oneLine, ends, same⟩ := lineOf_of_mem (d.lines_eq_linesFrom ▸ member)
  have onward : l.onward = raw ++ rest := congrArg Line.onward same
  have content : l.content = chomp raw := congrArg Line.content same
  obtain ⟨terminator, whole, blank⟩ := Text.exists_chomp_append raw
  rw [← content] at whole
  exact ⟨terminator, rest, by rw [onward, ← whole], whole ▸ oneLine, blank, ends⟩

theorem content_append : ∃ tail, l.onward = l.content ++ tail ∧ '\n' ∉ l.content := by
  obtain ⟨terminator, rest, onward, oneLine, -⟩ := exists_terminator member
  refine ⟨terminator ++ rest, by rw [onward, List.append_assoc], ?_⟩
  exact fun newline => oneLine (List.mem_append_left terminator newline)

/-- A place on a line is reached over the text above the line and the beginning of the line. -/
theorem upTo_prefix {a b : List Char} (content : l.content = a ++ b) :
    ∃ tail, d.UpTo ⟨l.number, a.length⟩ (d.above l ++ a) (b ++ tail) ∧
      l.onward = a ++ (b ++ tail) := by
  obtain ⟨tail, onward, oneLine⟩ := content_append member
  rw [content, List.append_assoc] at onward
  have single : '\n' ∉ a := fun newline =>
    oneLine (content ▸ List.mem_append_left b newline)
  refine ⟨tail, ⟨?_, ?_, ?_⟩, onward⟩
  · rw [above_append member, onward, List.append_assoc]
  · rw [Position.after_append, after_above member, Position.after_of_one_line single, Nat.zero_add]
  · exact offset?_of_append (line?_of_mem member) (above_append member) ⟨b, content.symm⟩

/-- A column of the trimmed line is a place of the document. -/
theorem upTo_column {lead rest : List Char} (trimmed : l.trimmed = lead ++ rest) :
    ∃ tail, d.UpTo ⟨l.number, l.indent + lead.length⟩
        (d.above l ++ (Text.indent l.content ++ lead)) (rest ++ tail) ∧
      l.onward = Text.indent l.content ++ lead ++ (rest ++ tail) := by
  obtain ⟨blanks, whole, -⟩ := Text.exists_trim_append l.content
  have content : l.content = Text.indent l.content ++ lead ++ (rest ++ blanks) := by
    calc l.content = Text.indent l.content ++ l.trimmed ++ blanks := whole
      _ = _ := by simp [trimmed]
  obtain ⟨tail, upTo, onward⟩ := upTo_prefix member content
  rw [List.length_append] at upTo
  rw [List.append_assoc rest] at upTo onward
  exact ⟨blanks ++ tail, upTo, onward⟩

/-- The brace that opens a body is a place of the document. -/
theorem upTo_brace {kind : Kind} {braceAt : Nat} (body : l.bodyBrace? kind = some braceAt) :
    ∃ before behind, d.UpTo ⟨l.number, l.indent + braceAt⟩ before ('\x7b' :: behind) ∧
      l.onward.drop (l.indent + braceAt) = '\x7b' :: behind := by
  obtain ⟨lead, rest, trimmed, rfl⟩ := Line.brace_of_bodyBrace? body
  obtain ⟨tail, upTo, onward⟩ := upTo_column member trimmed
  refine ⟨_, rest ++ tail, upTo, ?_⟩
  have width : l.indent + lead.length = (Text.indent l.content ++ lead).length :=
    List.length_append.symm
  rw [onward, width, List.drop_left]
  rfl

end OnLine

end Document

end SymbolIndex
