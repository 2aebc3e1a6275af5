import SymbolIndex.Document
import SymbolIndex.Lexical
import SymbolIndex.Symbol

/-!
Where the declaration on a line stands.

A declaration starts at the first character of its line that is not blank.  One that opens a block
reaches to the brace that balances the block's opening brace, or to the end of the document if none
does; any other reaches to the end of its line.
-/

namespace SymbolIndex.Line

/-- The line without the blanks around it, which is what declarations are read from. -/
def trimmed (l : Line) : List Char := Text.trim l.content

/-- The column of the first character that is not blank. -/
def indent (l : Line) : Nat := (Text.indent l.content).length

/-- The position of the line's end. -/
def stop (l : Line) : Position := ⟨l.number, l.content.length⟩

/-- The text of the block whose opening brace stands at a column of the trimmed line: up to the
brace that balances it, or all the rest of the document. -/
def block (l : Line) (braceAt : Nat) : List Char :=
  let text := l.onward.drop (l.indent + braceAt)
  match closingBrace? text with
  | some index => text.take (index + 1)
  | none => text

/-- The position past the block whose opening brace stands at a column of the trimmed line
(`block_span`). -/
def blockStop (l : Line) (braceAt : Nat) : Position :=
  (Position.mk l.number (l.indent + braceAt)).after (l.block braceAt)

/-- The site of the declaration on a line, given the column of its name in the trimmed line and
where it stops. -/
def site (l : Line) (nameAt : Nat) (name : String) (stop : Position) : Site :=
  { span := ⟨⟨l.number, l.indent⟩, stop⟩
    selection := Span.onLine l.number (l.indent + nameAt) (l.indent + nameAt + name.length)
    header := l.span }

end SymbolIndex.Line
