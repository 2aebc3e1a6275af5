import SymbolIndex.Lexical
import SymbolIndex.Proofs.Lines

/-! Places of a document by what stands before them. A byte offset, a position and a place on a
line name the same place when the text before it is the same, so the byte offset of a brace leads
to the same block as its column on its line does. -/
namespace SymbolIndex

namespace Text

theorem byteLength_cons (c : Char) (s : List Char) :
    byteLength (c :: s) = c.utf8Size + byteLength s := rfl

/-- Going over the first character of a text takes its bytes, of which there are some. -/
theorem exists_byteLength_cons (c : Char) (s : List Char) :
    ∃ n, byteLength (c :: s) = n + 1 ∧ c.utf8Size ≤ n + 1 ∧ n + 1 - c.utf8Size = byteLength s := by
  have positive := c.utf8Size_pos
  refine ⟨byteLength (c :: s) - 1, ?_, ?_, ?_⟩ <;> rw [byteLength_cons] <;> omega

theorem splitAtByte_byteLength (a b : List Char) : splitAtByte (byteLength a) (a ++ b) = (a, b) := by
  induction a with
  | nil => cases b <;> rfl
  | cons c a ih =>
    obtain ⟨n, size, -, less⟩ := exists_byteLength_cons c a
    rw [size, List.cons_append, splitAtByte, less, ih]

theorem beginning?_byteLength (a b : List Char) :
    beginning? (byteLength a) (a ++ b) = some a := by
  induction a with
  | nil => cases b <;> rfl
  | cons c a ih =>
    obtain ⟨n, size, fits, less⟩ := exists_byteLength_cons c a
    rw [size, List.cons_append, beginning?, if_pos fits, less, ih]
    rfl

end Text

namespace Document

/-- The position of a byte offset is found by going over the text before it. -/
theorem position?_of_append {d : Document} {a b : List Char} (text : d.chars = a ++ b) :
    d.position? (Text.byteLength a) = some (Position.origin.after a) := by
  rw [position?, text, Text.beginning?_byteLength]
  rfl

/-- The byte offset of a place on a line counts the text before the line and that on the line. -/
theorem offset?_of_append {d : Document} {l : Line} (isLine : d.line? l.number = some l)
    {prior a : List Char} (text : d.chars = prior ++ l.onward) (inside : a <+: l.content) :
    d.offset? ⟨l.number, a.length⟩ = some (Text.byteLength (prior ++ a)) := by
  have start : d.lineStart l.number = Text.byteLength prior := by
    rw [lineStart, isLine, byteLength, text, Text.byteLength_append]
    exact Nat.add_sub_cancel ..
  have taken : l.content.take a.length = a := List.prefix_iff_eq_take.mp inside |>.symm
  rw [offset?, isLine, Option.map_some, start, Text.byteOffset, taken, Text.byteLength_append]

end Document

/-- From a brace on, the text before it plays no part. -/
theorem matchingClose?_brace (before rest : List Char) :
    matchingClose? (before ++ '\x7b' :: rest) (Text.byteLength before) =
      (closingBrace? ('\x7b' :: rest)).map fun index =>
        Text.byteLength (before ++ ('\x7b' :: rest).take index) := by
  have forgets : (Lexical.following before.getLast?).closing? 0 0 ('\x7b' :: rest) =
      closingBrace? ('\x7b' :: rest) := by
    unfold Lexical.following
    split <;> rfl
  rw [matchingClose?, Text.splitAtByte_byteLength]
  simp only [forgets, Text.byteOffset, Text.byteLength_append]

end SymbolIndex
