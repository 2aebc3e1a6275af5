import SymbolIndex.Proofs.Declarations

/-! Sites are exact. Names are found on trimmed lines and blocks in the rest of the document, by columns,
positions and byte offsets; every site that a model reports names the same place in all of them. -/
namespace SymbolIndex

namespace Position

theorem le_next (p : Position) (c : Char) : p ≤ p.next c := by
  unfold next
  split
  · exact .inl (Nat.lt_succ_self _)
  · exact .inr ⟨rfl, Nat.le_succ _⟩

protected theorem le_trans {p q r : Position} (first : p ≤ q) (second : q ≤ r) : p ≤ r := by
  have first : p.line < q.line ∨ p.line = q.line ∧ p.column ≤ q.column := first
  have second : q.line < r.line ∨ q.line = r.line ∧ q.column ≤ r.column := second
  show p.line < r.line ∨ p.line = r.line ∧ p.column ≤ r.column
  omega

theorem le_total (p q : Position) : p ≤ q ∨ q ≤ p := by
  show (p.line < q.line ∨ p.line = q.line ∧ p.column ≤ q.column) ∨
    (q.line < p.line ∨ q.line = p.line ∧ q.column ≤ p.column)
  omega

theorem line_le {p q : Position} (before : p ≤ q) : p.line ≤ q.line := by
  rcases before with above | ⟨same, -⟩
  · exact Nat.le_of_lt above
  · exact Nat.le_of_eq same

theorem le_after (p : Position) (s : List Char) : p ≤ p.after s := by
  induction s generalizing p with
  | nil => exact .inr ⟨rfl, Nat.le_refl _⟩
  | cons c s ih => exact Position.le_trans (le_next p c) (ih (p.next c))

/-- Earlier in the document. -/
def Before (p q : Position) : Prop := p ≤ q ∧ p ≠ q

/-- A text takes a position further. -/
theorem before_after (p : Position) {s : List Char} (nonempty : s ≠ []) : p.Before (p.after s) := by
  refine ⟨le_after p s, ?_⟩
  intro stays
  have lines := line_after p s
  rw [← stays, Nat.left_eq_add, List.count_eq_zero] at lines
  have columns := congrArg Position.column (stays.trans (after_of_one_line lines p.line p.column))
  have positive := List.length_pos_of_ne_nil nonempty
  dsimp only at columns
  omega

end Position

namespace Document

/-- The text of a span, from the byte offset where it starts to the one where it stops. -/
def slice? (d : Document) (span : Span) : Option (List Char) := do
  let first ← d.offset? span.start
  let last ← d.offset? span.stop
  let before ← Text.beginning? first d.chars
  let upTo ← Text.beginning? last d.chars
  return upTo.drop before.length

/-- Where a declaration of the kind, with its head on the line, stops. -/
inductive StopsAt (d : Document) (kind : Kind) (l : Line) : Position → Prop where
  /-- Without a body it stops at the end of its line. -/
  | lineEnd (bodiless : l.bodyBrace? kind = none) : StopsAt d kind l (d.lineSpan l.number).stop
  /-- A body stops just past the brace that balances its own. -/
  | brace {braceAt openAt closeAt : Nat} {p : Position} (body : l.bodyBrace? kind = some braceAt)
      (opens : d.offset? ⟨l.number, l.indent + braceAt⟩ = some openAt)
      (closes : matchingClose? d.chars openAt = some closeAt) (behind : openAt ≤ closeAt)
      (isBrace : ∃ u v, d.chars = u ++ '\x7d' :: v ∧ closeAt = Text.byteLength u)
      (past : d.position? (closeAt + 1) = some p) : StopsAt d kind l p
  /-- A body that no brace closes goes on to the end of the document. -/
  | documentEnd {braceAt openAt : Nat} (body : l.bodyBrace? kind = some braceAt)
      (opens : d.offset? ⟨l.number, l.indent + braceAt⟩ = some openAt)
      (unclosed : matchingClose? d.chars openAt = none) : StopsAt d kind l d.stop

/-- A site of a declaration that names exactly the places where the declaration stands. -/
structure Exact (d : Document) (kind : Kind) (name : String) (site : Site) : Prop where
  /-- The selection is the name and nothing else. -/
  selects : d.slice? site.selection = some name.toList
  /-- The header is the whole line that the declaration starts on. -/
  header : site.header = d.lineSpan site.line
  /-- The name stands on that line. -/
  onLine : site.selection.start.line = site.line ∧ site.selection.stop.line = site.line ∧
    site.selection.stop.column ≤ (d.lineText site.line).length
  /-- The name is part of the declaration. -/
  contains : site.span.contains site.selection = true
  /-- The declaration stops where its body does. -/
  stops : ∃ l, d.line? site.line = some l ∧ d.StopsAt kind l site.span.stop
  /-- It stops inside the document. -/
  inside : ∃ offset, d.position? offset = some site.span.stop

theorem slice?_of_upTo {d : Document} {p q : Position} {a b c s : List Char} (first : d.UpTo p a b)
    (last : d.UpTo q (a ++ s) c) : d.slice? ⟨p, q⟩ = some s := by
  simp [slice?, first.offset, last.offset, first.beginning?, last.beginning?]

section OnLine

variable {d : Document} {l : Line} (member : l ∈ d.lines)
include member

theorem lineText_of_mem : d.lineText l.number = l.content := by
  rw [lineText, line?_of_mem member]
  rfl

theorem lineSpan_of_mem : d.lineSpan l.number = l.span := by
  rw [lineSpan, lineText_of_mem member]
  rfl

/-- The end of a line is a place of the document. -/
theorem position?_stop : ∃ offset, d.position? offset = some l.stop := by
  obtain ⟨tail, upTo, -⟩ := upTo_prefix member (List.append_nil l.content).symm
  exact ⟨_, upTo.position?⟩

/-- A block goes from its opening brace to the one that balances it, or to the end of the document. -/
theorem stopsAt_blockStop {kind : Kind} {braceAt : Nat} (body : l.bodyBrace? kind = some braceAt) :
    d.StopsAt kind l (l.blockStop braceAt) ∧
      ∃ offset, d.position? offset = some (l.blockStop braceAt) := by
  obtain ⟨before, behind, upTo, onward⟩ := upTo_brace member body
  have stop : l.blockStop braceAt = Position.origin.after (before ++ l.block braceAt) := by
    rw [Position.after_append, upTo.position]
    rfl
  have found := matchingClose?_brace before behind
  rw [← upTo.text] at found
  cases closes : closingBrace? ('\x7b' :: behind) with
  | none =>
    have block : l.block braceAt = '\x7b' :: behind := by
      rw [Line.block, onward]
      simp only [closes]
    rw [block, ← upTo.text] at stop
    have past : d.position? (Text.byteLength d.chars) = some (l.blockStop braceAt) := by
      rw [position?_of_append (List.append_nil _).symm, stop]
    refine ⟨?_, _, past⟩
    rw [stop]
    exact .documentEnd body upTo.offset (by rw [found, closes, Option.map_none])
  | some index =>
    obtain ⟨u, v, text, place, -⟩ := Lexical.closing?_some closes
    rw [Nat.zero_add] at place
    have block : l.block braceAt = u ++ ['\x7d'] := by
      rw [Line.block_of_closing onward closes, text, place, List.take_length_add_append]
      rfl
    have closeAt : matchingClose? d.chars (Text.byteLength before) =
        some (Text.byteLength (before ++ u)) := by
      rw [found, closes, Option.map_some, text, place, List.take_left]
    have split : d.chars = before ++ u ++ '\x7d' :: v := by
      rw [upTo.text, text, List.append_assoc]
    have past : d.position? (Text.byteLength (before ++ u) + 1) = some (l.blockStop braceAt) := by
      have size : Text.byteLength (before ++ u) + 1 = Text.byteLength (before ++ (u ++ ['\x7d'])) := by
        rw [← List.append_assoc, Text.byteLength_append _ ['\x7d']]
        rfl
      rw [size, position?_of_append (b := v) (by simp [split]), stop, block]
    refine ⟨.brace body upTo.offset closeAt ?_ ⟨_, v, split, rfl⟩ past, _, past⟩
    rw [Text.byteLength_append]
    exact Nat.le_add_right _ _

/-- A name on a line ends before the declaration does, which stops where its body does. -/
theorem stop_of_declared {kind : Kind} {column : Nat} {name : String}
    (named : Shape.NameAt l.trimmed column name) {stop : Position}
    (stops : stop = match l.bodyBrace? kind with
      | some braceAt => l.blockStop braceAt
      | none => l.stop) :
    Position.mk l.number (l.indent + column + name.length) ≤ stop ∧ d.StopsAt kind l stop ∧
      ∃ offset, d.position? offset = some stop := by
  cases body : l.bodyBrace? kind with
  | none =>
    rw [body] at stops
    subst stops
    refine ⟨.inr ⟨rfl, l.column_le named⟩, ?_, position?_stop member⟩
    have ends := StopsAt.lineEnd (d := d) body
    rwa [lineSpan_of_mem member] at ends
  | some braceAt =>
    rw [body] at stops
    subst stops
    obtain ⟨before, behind, trimmed, rfl⟩ := Line.brace_of_bodyBrace? body
    have early := Line.name_before_brace named trimmed
    have opens : Position.mk l.number (l.indent + column + name.length) ≤
        ⟨l.number, l.indent + before.length⟩ := .inr ⟨rfl, by dsimp only; omega⟩
    exact ⟨Position.le_trans opens (Position.le_after _ _), stopsAt_blockStop member body⟩

/-- What a line declares has an exact site. -/
theorem exact_of_declares {kind : Kind} {name : String} {site : Site}
    (declares : l.Declares kind name site) : d.Exact kind name site := by
  obtain ⟨column, stop, named, rfl, stops⟩ := declares.placed
  obtain ⟨behind, stopsAt, reached⟩ := stop_of_declared member named stops
  have fits := l.column_le named
  obtain ⟨lead, rest, trimmed, rfl, -, -⟩ := named
  have upToName := upTo_column member (trimmed.trans (List.append_assoc ..))
  have upToRest := upTo_column member trimmed
  obtain ⟨_, first, -⟩ := upToName
  obtain ⟨_, last, -⟩ := upToRest
  rw [← List.append_assoc (Text.indent l.content), ← List.append_assoc (d.above l),
    List.length_append, ← Nat.add_assoc, String.length_toList] at last
  exact {
    selects := slice?_of_upTo first last
    header := (lineSpan_of_mem member).symm
    onLine := by
      refine ⟨rfl, rfl, ?_⟩
      show _ ≤ (d.lineText l.number).length
      rw [lineText_of_mem member]
      exact fits
    contains := by
      have starts : Position.mk l.number l.indent ≤ ⟨l.number, l.indent + lead.length⟩ :=
        .inr ⟨rfl, Nat.le_add_right _ _⟩
      simpa [Span.contains] using ⟨starts, behind⟩
    stops := ⟨l, line?_of_mem member, stopsAt⟩
    inside := reached }

end OnLine

end Document

/-- Every symbol of a document and every member has an exact site: its selection is its name, its
header the line that it starts on, and it reaches from before its name to the end of that line, to
just past the brace that closes its body, or to the end of the document if none does. -/
theorem sites_exact (d : Document) :
    ∀ s ∈ (Model.ofDocument d).symbols,
      d.Exact s.kind s.name s.site ∧ ∀ m ∈ s.members, d.Exact m.kind m.name m.site := by
  apply Model.throughout_of_declares
  intro l member kind name site declares
  exact Document.exact_of_declares member declares

/-- A document with characters of more than one byte, tabs and carriage returns. -/
def accented : Document :=
  .ofString "// é\r\n\tPair \x7b // é\r\n\t\tsize: int // é\r\n\t\x7d\r\nconst LAST = 1\r\n"

/-- The container of `accented` and its field have exact sites. -/
theorem sites_exact_accented :
    ∃ s ∈ (Model.ofDocument accented).symbols, s.name = "Pair" ∧ accented.Exact s.kind s.name s.site ∧
      ∃ m ∈ s.members, m.name = "size" ∧ accented.Exact m.kind m.name m.site := by
  have reads : ∃ s ∈ (Model.ofDocument accented).symbols, s.name = "Pair" ∧
      ∃ m ∈ s.members, m.name = "size" := by decide +kernel
  obtain ⟨s, member, name, m, inside, named⟩ := reads
  obtain ⟨own, members⟩ := sites_exact accented s member
  exact ⟨s, member, name, own, m, inside, named, members m inside⟩

end SymbolIndex
