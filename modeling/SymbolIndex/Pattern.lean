import SymbolIndex.Text.Basic

/-!
Patterns: texts told piece by piece.

A pattern is a sequence of pieces, and every piece takes as much of the text as it can and never
gives a character back.  So the patterns of this library never let a run be followed by something
that the run could have taken itself.  What a pattern takes and what it leaves make up the text
that it was given (`take?_append`), and a match has one text for every piece (`length_of_take?`).
-/

namespace SymbolIndex

/-- A piece of a pattern. -/
inductive Piece where
  /-- Exactly this text. -/
  | literal (text : List Char)
  /-- The longest run of characters of a class, which may be empty. -/
  | run (allowed : Char → Bool)
  /-- A character of one class and then the longest run of another. -/
  | word (first rest : Char → Bool)

namespace Piece

/-- One or more characters of a class. -/
def some1 (allowed : Char → Bool) : Piece := word allowed allowed

/-- Possibly empty blanks, line breaks included. -/
def blanks : Piece := run Text.isBlank

/-- A declared name. -/
def name : Piece := word Text.isNameStart Text.isNameChar

/-- What the piece takes from the beginning of a text. -/
def take? : Piece → List Char → Option (List Char)
  | literal text, s => if Text.startsWith text s then some text else none
  | run allowed, s => some (s.takeWhile allowed)
  | word _ _, [] => none
  | word first rest, c :: s => if first c then some (c :: s.takeWhile rest) else none

end Piece

/-- A pattern is taken from its first piece to its last. -/
abbrev Pattern := List Piece

namespace Pattern

/-- The text that each piece takes, and what is left after the last. -/
def take? : Pattern → List Char → Option (List (List Char) × List Char)
  | [], s => some ([], s)
  | piece :: later, s =>
    match piece.take? s with
    | none => none
    | some text => (take? later (s.drop text.length)).map fun (texts, rest) => (text :: texts, rest)

/-- The number of characters in the texts that some pieces took. -/
def width (texts : List (List Char)) : Nat := texts.foldr (fun text n => text.length + n) 0

end Pattern

private theorem startsWith_append {text s : List Char} (starts : Text.startsWith text s = true) :
    text ++ s.drop text.length = s := by
  induction text generalizing s with
  | nil => rfl
  | cons a text ih =>
    cases s with
    | nil => simp [Text.startsWith, Text.afterPrefix?] at starts
    | cons c s =>
      by_cases same : a = c
      · subst same
        have later : Text.startsWith text s = true := by
          simpa [Text.startsWith, Text.afterPrefix?] using starts
        simp [ih later]
      · simp [Text.startsWith, Text.afterPrefix?, same] at starts

private theorem takeWhile_append_drop (p : Char → Bool) (s : List Char) :
    s.takeWhile p ++ s.drop (s.takeWhile p).length = s := by
  induction s with
  | nil => rfl
  | cons c s ih => by_cases h : p c <;> simp [h, ih]

/-- What a piece takes is the beginning of the text. -/
theorem Piece.take?_append {piece : Piece} {s text : List Char} (taken : piece.take? s = some text) :
    text ++ s.drop text.length = s := by
  cases piece with
  | literal expected =>
    by_cases starts : Text.startsWith expected s = true
    · have same : expected = text := by simpa [Piece.take?, starts] using taken
      exact same ▸ startsWith_append starts
    · simp [Piece.take?, starts] at taken
  | run allowed =>
    have same : s.takeWhile allowed = text := by simpa [Piece.take?] using taken
    exact same ▸ takeWhile_append_drop allowed s
  | word first rest =>
    cases s with
    | nil => simp [Piece.take?] at taken
    | cons c s =>
      by_cases starts : first c = true
      · have same : c :: s.takeWhile rest = text := by simpa [Piece.take?, starts] using taken
        subst same
        simp [takeWhile_append_drop]
      · simp [Piece.take?, starts] at taken

/-- What the pieces take and what they leave is the whole text. -/
theorem Pattern.take?_append {pattern : Pattern} {s rest : List Char} {texts : List (List Char)}
    (taken : pattern.take? s = some (texts, rest)) : texts.flatten ++ rest = s := by
  induction pattern generalizing s texts with
  | nil =>
    obtain ⟨rfl, rfl⟩ : [] = texts ∧ s = rest := by simpa [Pattern.take?] using taken
    rfl
  | cons piece later ih =>
    unfold Pattern.take? at taken
    split at taken
    · simp at taken
    · rename_i text takes
      obtain ⟨⟨texts', rest'⟩, takenLater, same⟩ := Option.map_eq_some_iff.1 taken
      obtain ⟨rfl, rfl⟩ : text :: texts' = texts ∧ rest' = rest := by simpa using same
      rw [List.flatten_cons, List.append_assoc, ih takenLater, Piece.take?_append takes]

/-- A match has one text for every piece of the pattern. -/
theorem Pattern.length_of_take? {pattern : Pattern} {s rest : List Char} {texts : List (List Char)}
    (taken : pattern.take? s = some (texts, rest)) : texts.length = pattern.length := by
  induction pattern generalizing s texts with
  | nil =>
    obtain ⟨rfl, rfl⟩ : [] = texts ∧ s = rest := by simpa [Pattern.take?] using taken
    rfl
  | cons piece later ih =>
    unfold Pattern.take? at taken
    split at taken
    · simp at taken
    · rename_i text takes
      obtain ⟨⟨texts', rest'⟩, takenLater, same⟩ := Option.map_eq_some_iff.1 taken
      obtain ⟨rfl, rfl⟩ : text :: texts' = texts ∧ rest' = rest := by simpa using same
      simp [ih takenLater]

end SymbolIndex
