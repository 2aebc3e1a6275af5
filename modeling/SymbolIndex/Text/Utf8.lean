/-!
The UTF-8 measure of a text: how many bytes its characters take, and the cut at a byte offset.

A byte offset names a place between two characters only where some beginning of the text has just
that many bytes; `beginning?` finds it, and `splitAtByte` rounds an offset inside a character up to
the end of that character.
-/

namespace SymbolIndex.Text

/-- The bytes of a text in UTF-8. -/
def bytes (s : List Char) : List UInt8 := s.flatMap String.utf8EncodeChar

/-- The number of bytes that a text takes in UTF-8. -/
def byteLength (s : List Char) : Nat := s.foldr (fun c n => c.utf8Size + n) 0

/-- The beginning of a text that takes exactly so many bytes.  An offset past the end means the
whole text; one inside a character has no beginning. -/
def beginning? : (bytes : Nat) → List Char → Option (List Char)
  | 0, _ => some []
  | _ + 1, [] => some []
  | n + 1, c :: s =>
    if c.utf8Size ≤ n + 1 then (beginning? (n + 1 - c.utf8Size) s).map (c :: ·) else none

/-- The first `count` characters of a text take this many bytes. -/
def byteOffset (s : List Char) (count : Nat) : Nat := byteLength (s.take count)

/-- A text cut at the first boundary between characters that is not before the byte offset. -/
def splitAtByte : (bytes : Nat) → List Char → List Char × List Char
  | 0, s => ([], s)
  | _ + 1, [] => ([], [])
  | n + 1, c :: s =>
    let (before, after) := splitAtByte (n + 1 - c.utf8Size) s
    (c :: before, after)

theorem byteLength_append (a b : List Char) :
    byteLength (a ++ b) = byteLength a + byteLength b := by
  induction a with
  | nil => simp [byteLength]
  | cons c a ih =>
    simp only [byteLength, List.cons_append, List.foldr_cons] at ih ⊢
    rw [ih, Nat.add_assoc]

/-- A cut loses nothing. -/
theorem splitAtByte_append (bytes : Nat) (s : List Char) :
    (splitAtByte bytes s).1 ++ (splitAtByte bytes s).2 = s := by
  induction s generalizing bytes with
  | nil => cases bytes <;> rfl
  | cons c s ih =>
    cases bytes with
    | zero => rfl
    | succ n => simpa [splitAtByte] using ih (n + 1 - c.utf8Size)

end SymbolIndex.Text
