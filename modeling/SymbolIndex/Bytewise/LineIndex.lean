import SymbolIndex.Bytewise.Scan
import SymbolIndex.Document

/-!
Lines and positions by byte offsets.

An index keeps the offsets at which the lines of a text start.  A line is the slice between two of them,
and a position is found by searching them for the last one that is not past the offset.  A text is cut
only where its characters meet, so a slice at any other offset would show.
-/

namespace SymbolIndex.Bytewise

open Text

/-- A text cut at a byte offset. -/
def cut : (offset : Nat) → List Char → Except Breach (List Char × List Char)
  | 0, s => .ok ([], s)
  | _ + 1, [] => .error .outOfRange
  | n + 1, c :: s =>
    if c.utf8Size ≤ n + 1 then do
      let (before, behind) ← cut (n + 1 - c.utf8Size) s
      return (c :: before, behind)
    else .error .insideCharacter

/-- The text between two byte offsets. -/
def slice (s : List Char) (first last : Nat) : Except Breach (List Char) := do
  let (upTo, _) ← cut last s
  return (← cut first upTo).2

/-- The text from a byte offset on. -/
def sliceFrom (s : List Char) (first : Nat) : Except Breach (List Char) := do
  return (← cut first s).2

/-- The byte offsets past the newlines of a text, `offset` being that of the text itself. -/
def newlineEnds : (offset : Nat) → List Char → List Nat
  | _, [] => []
  | offset, c :: s =>
    if c = '\n' then (offset + 1) :: newlineEnds (offset + 1) s else newlineEnds (offset + c.utf8Size) s

/-- A text and the byte offsets at which its lines start. -/
structure LineIndex where
  text : List Char
  starts : List Nat

namespace LineIndex

/-- The lines of a text start at its beginning and past its newlines. -/
def ofText (text : List Char) : LineIndex := ⟨text, 0 :: newlineEnds 0 text⟩

/-- The number of lines. -/
def lineCount (index : LineIndex) : Nat := index.starts.length

/-- Where a line starts (`line_start`); past the last line, the end of the text. -/
def lineStart (index : LineIndex) (number : Nat) : Nat :=
  (index.starts[number]?).getD (byteLength index.text)

/-- Where a line stops: before the newline that the next line starts behind. -/
def lineStop (index : LineIndex) (number : Nat) : Except Breach Nat :=
  match index.starts[number + 1]? with
  | some next => minus next 1
  | none => .ok (byteLength index.text)

/-- The line of a number; past the last line it is empty. -/
def line (index : LineIndex) (number : Nat) : Except Breach (List Char) :=
  if index.lineCount ≤ number then .ok []
  else do
    let start ← itemAt index.starts number
    return Document.chomp (← slice index.text start (← index.lineStop number))

/-- A binary search for an offset among the starts of lines: the index of the line that starts there,
or else the index at which a line that did would be inserted. -/
def search (index : LineIndex) (offset : Nat) : Except Nat Nat :=
  let place := (index.starts.takeWhile (· < offset)).length
  if index.starts[place]? = some offset then .ok place else .error place

/-- The number of the line that an offset is on: the last one that does not start past it. -/
def lineAt (index : LineIndex) (offset : Nat) : Except Breach Nat :=
  match index.search offset with
  | .ok line => .ok line
  | .error place => minus place 1

/-- The position of an offset; past the end it is that of the end. -/
def position (index : LineIndex) (offset : Nat) : Except Breach Position := do
  let offset := min offset (byteLength index.text)
  let line ← index.lineAt offset
  let start ← itemAt index.starts line
  return ⟨line, (← slice index.text start offset).length⟩

/-- The offset of a position; past the end of a line it is that of the line's end, and past the last
line there is none. -/
def offset (index : LineIndex) (p : Position) : Except Breach (Option Nat) :=
  if index.lineCount ≤ p.line then .ok none
  else do
    let start ← itemAt index.starts p.line
    return some (start + byteOffset (← index.line p.line) p.column)

/-- The position of the end of the text (`end`). -/
def stop (index : LineIndex) : Except Breach Position := index.position (byteLength index.text)

/-- The whole line of a number (`line_span`). -/
def lineSpan (index : LineIndex) (number : Nat) : Except Breach Span := do
  return Span.onLine number 0 (← index.line number).length

/-- The column of an offset within a line (`column_of`); past the end of the line it is the line's
length. -/
def columnOf (index : LineIndex) (number byte : Nat) : Except Breach Nat := do
  let text ← index.line number
  return (← slice text 0 (min byte (byteLength text))).length

/-- The stretch between two offsets. -/
def span (index : LineIndex) (first last : Nat) : Except Breach Span := do
  return ⟨← index.position first, ← index.position last⟩

end LineIndex

end SymbolIndex.Bytewise
