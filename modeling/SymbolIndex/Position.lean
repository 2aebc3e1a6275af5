/-!
Positions and spans of a document: lines and columns count from zero, and a column counts
characters.

`Position.next` is where a position goes over one character, so the position after a text is a fold
over it.  Positions are ordered by line, then by column.
-/

namespace SymbolIndex

/-- A place between two characters of a document. -/
structure Position where
  line : Nat
  column : Nat
  deriving DecidableEq, Repr

namespace Position

/-- The beginning of a document. -/
def origin : Position := ⟨0, 0⟩

/-- The position past one more character. -/
def next (p : Position) (c : Char) : Position :=
  if c = '\n' then ⟨p.line + 1, 0⟩ else ⟨p.line, p.column + 1⟩

/-- The position past a text. -/
def after (p : Position) (s : List Char) : Position := s.foldl next p

/-- Earlier in the document, or the same place. -/
protected def le (p q : Position) : Prop := p.line < q.line ∨ p.line = q.line ∧ p.column ≤ q.column

instance : LE Position := ⟨Position.le⟩

instance (p q : Position) : Decidable (p ≤ q) :=
  inferInstanceAs (Decidable (p.line < q.line ∨ p.line = q.line ∧ p.column ≤ q.column))

theorem after_append (p : Position) (a b : List Char) : p.after (a ++ b) = (p.after a).after b := by
  simp [after]

end Position

/-- A stretch of a document, from one position to another. -/
structure Span where
  start : Position
  stop : Position
  deriving DecidableEq, Repr

namespace Span

/-- The stretch between two columns of one line. -/
def onLine (line start stop : Nat) : Span := ⟨⟨line, start⟩, ⟨line, stop⟩⟩

/-- Whether a span holds all of another. -/
def contains (outer inner : Span) : Bool := outer.start ≤ inner.start && inner.stop ≤ outer.stop

end Span

end SymbolIndex
