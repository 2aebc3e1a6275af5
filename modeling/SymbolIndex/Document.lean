import SymbolIndex.Position
import SymbolIndex.Text.Utf8

/-!
Documents and their lines.

A line ends at a newline or at the end of the document, and a carriage return before that end
belongs to the terminator.  Every line knows its number and the whole document from its first
character on, so that a block can be followed past the end of the line that opens it.

Byte offsets and positions are two names for the same places: `position?` goes one way and
`offset?` the other.
-/

namespace SymbolIndex

/-- A line of a document. -/
structure Line where
  number : Nat
  /-- The characters of the line without its terminator. -/
  content : List Char
  /-- The document from the first character of the line on. -/
  onward : List Char
  deriving DecidableEq, Repr

namespace Line

/-- The whole line, from column 0 to its last character. -/
def span (l : Line) : Span := Span.onLine l.number 0 l.content.length

end Line

/-- A document, as the list of its characters. -/
structure Document where
  chars : List Char
  deriving DecidableEq, Repr

namespace Document

/-- The document with a text. -/
def ofString (text : String) : Document := ⟨text.toList⟩

/-- The lines of a text with their terminators cut off at the newline only, each beside the text
from its first character on. -/
def rawLines (s : List Char) : List (List Char × List Char) :=
  s.foldr
    (fun c lines =>
      match lines with
      | [] => []
      | (content, onward) :: later =>
        if c = '\n' then ([], '\n' :: onward) :: lines
        else (c :: content, c :: onward) :: later)
    [([], [])]

theorem rawLines_ne_nil (s : List Char) : rawLines s ≠ [] := by
  induction s with
  | nil => simp [rawLines]
  | cons c s ih =>
    rw [rawLines, List.foldr_cons, ← rawLines]
    split
    · rename_i none
      exact absurd none ih
    · split <;> simp

/-- A line without the carriage return of its terminator. -/
def chomp (content : List Char) : List Char :=
  if content.getLast? = some '\r' then content.dropLast else content

/-- The lines of a document; there is always at least one. -/
def lines (d : Document) : List Line :=
  (rawLines d.chars).zipIdx.map fun ((content, onward), number) =>
    { number, content := chomp content, onward }

theorem lines_ne_nil (d : Document) : d.lines ≠ [] := by
  simp [lines, rawLines_ne_nil]

/-- The line of a number, if the document has so many. -/
def line? (d : Document) (number : Nat) : Option Line := d.lines[number]?

/-- The text of a line (`line`); past the last line there is none. -/
def lineText (d : Document) (number : Nat) : List Char :=
  ((d.line? number).map Line.content).getD []

/-- The number of bytes that the document takes. -/
def byteLength (d : Document) : Nat := Text.byteLength d.chars

/-- The byte offset at which a line starts; past the last line, that of the document's end. -/
def lineStart (d : Document) (number : Nat) : Nat :=
  match d.line? number with
  | some l => d.byteLength - Text.byteLength l.onward
  | none => d.byteLength

/-- The whole line of a number, which may lie past the last line and is empty there (`line_span`). -/
def lineSpan (d : Document) (number : Nat) : Span :=
  Span.onLine number 0 (d.lineText number).length

/-- The position of a byte offset (`position`).  Past the end it is that of the end; inside a
character there is none. -/
def position? (d : Document) (offset : Nat) : Option Position :=
  (Text.beginning? offset d.chars).map Position.origin.after

/-- The position of the document's end (`end`). -/
def stop (d : Document) : Position := Position.origin.after d.chars

/-- The byte offset of a position (`offset`): past the end of a line it is that of the line's end,
and past the last line there is none. -/
def offset? (d : Document) (p : Position) : Option Nat :=
  (d.line? p.line).map fun l => d.lineStart p.line + Text.byteOffset l.content p.column

/-- The column of a byte offset within a line, the line's length past its end and none inside a
character (`column_of`). -/
def columnOf? (d : Document) (number byte : Nat) : Option Nat :=
  (Text.beginning? byte (d.lineText number)).map List.length

end Document

end SymbolIndex
