import SymbolIndex.Text.Basic

/-!
Wildcard patterns for file names.

A star stands for any run of bytes, a question mark for any one byte, and any other byte for itself
up to the case of ASCII letters.  Matching keeps, for every rest of the pattern, whether it matches
the rest of the name; a byte more of the name gives the next row of such answers, so the work is
the product of the two lengths whatever the pattern.
-/

namespace SymbolIndex.Glob

/-- The byte that stands for any run of bytes. -/
def star : UInt8 := 42

/-- The byte that stands for any one byte. -/
def questionMark : UInt8 := 63

/-- The lowercase of an ASCII letter; any other byte is its own. -/
def lowerByte (b : UInt8) : UInt8 := if 65 ≤ b && b ≤ 90 then b + 32 else b

/-- Whether a byte of a pattern other than a star stands for a byte of a name. -/
def standsFor (p b : UInt8) : Bool := p == questionMark || lowerByte p == lowerByte b

/-- For every rest of a pattern, longest first, whether it matches the empty name. -/
def emptyRow : List UInt8 → List Bool
  | [] => [true]
  | p :: later =>
    let row := emptyRow later
    (p == star && row.head?.getD false) :: row

/-- For every rest of a pattern, whether it matches a name that begins with `b`, given the answers
for the name without its first byte. -/
def nextRow (b : UInt8) : (pattern : List UInt8) → (row : List Bool) → List Bool
  | [], _ => [false]
  | p :: later, row =>
    let next := nextRow b later row.tail
    let here :=
      if p = star then next.head?.getD false || row.head?.getD false
      else standsFor p b && row.tail.head?.getD false
    here :: next

theorem length_emptyRow (pattern : List UInt8) :
    (emptyRow pattern).length = pattern.length + 1 := by
  induction pattern with
  | nil => rfl
  | cons p later ih => simp [emptyRow, ih]

theorem length_nextRow (b : UInt8) (pattern : List UInt8) (row : List Bool) :
    (nextRow b pattern row).length = pattern.length + 1 := by
  induction pattern generalizing row with
  | nil => rfl
  | cons p later ih => simp [nextRow, ih]

/-- Whether a pattern matches the whole of a name, both as bytes (`glob_match`). -/
def matchesBytes (pattern name : List UInt8) : Bool :=
  (name.foldr (fun b row => nextRow b pattern row) (emptyRow pattern)).head?.getD false

/-- Whether a pattern matches the whole of a name (`matches`). -/
def isMatch (name pattern : String) : Bool :=
  matchesBytes pattern.toUTF8.data.toList name.toUTF8.data.toList

end SymbolIndex.Glob

namespace SymbolIndex

/-- A pattern that selects files. -/
structure Selector where
  pattern : String
  /-- Whether the pattern is for the path below the root and not for the bare name. -/
  onPath : Bool
  deriving DecidableEq, Repr

namespace Selector

/-- The selector that a pattern is for: backslashes count as slashes, one `./` in front is dropped,
and a pattern with a slash in it is for paths. -/
def ofString (pattern : String) : Selector :=
  let slashed := pattern.toList.map fun c => if c = '\\' then '/' else c
  let text := (Text.afterPrefix? ['.', '/'] slashed).getD slashed
  { pattern := String.ofList text, onPath := text.contains '/' }

/-- Whether the selector takes a file of this path and bare name (`is_match`). -/
def selects (s : Selector) (relative name : String) : Bool :=
  Glob.isMatch (if s.onPath then relative else name) s.pattern

end Selector

end SymbolIndex
