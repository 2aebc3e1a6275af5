import SymbolIndex.Text.Basic

/-!
Comment lines, told apart line by line.

A trimmed line is a comment line when it begins with `//`, begins a block comment, or lies inside
one that an earlier line began.  The line that closes a block comment is still a comment line,
unless code follows the closing mark.  The only thing carried from line to line is whether a block
comment is open.
-/

namespace SymbolIndex.Comment

/-- What begins a comment to the end of its line. -/
def lineMark : List Char := ['/', '/']

/-- What opens a block comment. -/
def openMark : List Char := ['/', '*']

/-- What closes a block comment. -/
def closeMark : List Char := ['*', '/']

/-- What a line turns out to be: whether it is a comment line, and whether it leaves a block
comment open. -/
structure Reading where
  isComment : Bool
  leavesOpen : Bool
  deriving DecidableEq, Repr

/-- Reads a line, given whether a block comment is open before it (`is_comment`). -/
def read (isOpen : Bool) (line : List Char) : Reading :=
  if isOpen then
    match Text.afterFirst? closeMark line with
    | some rest =>
      let code := Text.trim rest
      ⟨code.isEmpty || Text.startsWith lineMark code, false⟩
    | none => ⟨true, true⟩
  else
    match Text.afterPrefix? openMark line with
    | some rest => ⟨true, !Text.occursIn closeMark rest⟩
    | none => ⟨Text.startsWith lineMark line, false⟩

/-- Whether each of the lines in turn is a comment line, given whether a block comment is open
before the first. -/
def readAll (isOpen : Bool) : List (List Char) → List Bool
  | [] => []
  | line :: later =>
    let reading := read isOpen line
    reading.isComment :: readAll reading.leavesOpen later

end SymbolIndex.Comment
