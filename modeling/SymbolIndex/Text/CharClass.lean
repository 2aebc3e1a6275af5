import SymbolIndex.Text.Alphabetic
import SymbolIndex.Text.Mark
import SymbolIndex.Text.Numeric
import SymbolIndex.Text.Uppercase

/-!
The classes of characters that a document is read by.

Blanks are the characters with the Unicode property `White_Space`.  A word is made of word
characters: letters, combining marks, decimal digits, connectors and join controls.  Names as they
are declared are ASCII and have a class of their own; each of their characters is a word character,
so a declared name is part of one word.
-/

namespace SymbolIndex.Text

/-- Whether a code point lies in one of the closed ranges. -/
def inRanges (ranges : List (Nat × Nat)) (point : Nat) : Bool :=
  ranges.any fun (low, high) => low ≤ point && point ≤ high

/-- The characters with the Unicode property `White_Space`. -/
def isBlank (c : Char) : Bool :=
  let n := c.toNat
  (9 ≤ n && n ≤ 13) || n == 0x20 || n == 0x85 || n == 0xA0 || n == 0x1680
    || (0x2000 ≤ n && n ≤ 0x200A) || n == 0x2028 || n == 0x2029 || n == 0x202F || n == 0x205F
    || n == 0x3000

/-- The blanks that indent a line and separate its words: space and tab. -/
def isGap (c : Char) : Bool := c == ' ' || c == '\t'

/-- The characters that may begin a declared name. -/
def isNameStart (c : Char) : Bool := c.isAlpha || c == '_'

/-- The characters of a declared name. -/
def isNameChar (c : Char) : Bool := c.isAlphanum || c == '_'

/-- The characters of words: letters, marks, decimal digits, connectors and join controls. -/
def isWordChar (c : Char) : Bool :=
  if c.toNat < 128 then isNameChar c
  else
    inRanges alphabeticRanges c.toNat || inRanges markRanges c.toNat
      || inRanges decimalRanges c.toNat || inRanges connectorRanges c.toNat
      || inRanges joinControlRanges c.toNat

/-- Letters and numbers of any script. -/
def isLetterOrNumber (c : Char) : Bool :=
  if c.toNat < 128 then c.isAlphanum
  else inRanges alphabeticRanges c.toNat || inRanges numberRanges c.toNat

/-- Uppercase characters of any script. -/
def isCapital (c : Char) : Bool :=
  if c.toNat < 128 then c.isUpper else inRanges uppercaseRanges c.toNat

end SymbolIndex.Text
