import SymbolIndex.Text.CharClass

/-!
Cutting text: trimming blanks, splitting at a separator, and finding one text inside another.

Text under analysis is a list of characters.  Trimming takes nothing away but the blanks around a
text (`indent_append_trimStart`), and splitting gives at least one part, none of which holds the
separator (`splitOn_ne_nil`, `not_mem_of_mem_splitOn`).
-/

namespace SymbolIndex.Text

/-- The blanks that a text begins with. -/
def indent (s : List Char) : List Char := s.takeWhile isBlank

/-- A text without the blanks that it begins with. -/
def trimStart (s : List Char) : List Char := s.dropWhile isBlank

/-- A text without the characters of a class that it ends with. -/
def dropEndWhile (p : Char → Bool) (s : List Char) : List Char := (s.reverse.dropWhile p).reverse

/-- A text without the blanks that it ends with. -/
def trimEnd (s : List Char) : List Char := dropEndWhile isBlank s

/-- A text without the blanks around it. -/
def trim (s : List Char) : List Char := trimEnd (trimStart s)

/-- The parts of a text between the separators; a text without one is its own only part. -/
def splitOn (separator : Char) (s : List Char) : List (List Char) :=
  s.foldr
    (fun c parts =>
      if c = separator then [] :: parts
      else
        match parts with
        | part :: later => (c :: part) :: later
        | [] => [[c]])
    [[]]

/-- What follows a text's given beginning, if it begins so. -/
def afterPrefix? : (start s : List Char) → Option (List Char)
  | [], s => some s
  | _ :: _, [] => none
  | a :: start, c :: s => if a = c then afterPrefix? start s else none

/-- Whether a text begins with another. -/
def startsWith (start s : List Char) : Bool := (afterPrefix? start s).isSome

/-- What follows the first occurrence of `part`, if there is one. -/
def afterFirst? (part : List Char) : List Char → Option (List Char)
  | [] => afterPrefix? part []
  | c :: s =>
    match afterPrefix? part (c :: s) with
    | some rest => some rest
    | none => afterFirst? part s

/-- Whether one text occurs inside another. -/
def occursIn (part s : List Char) : Bool := (afterFirst? part s).isSome

/-- The entries of a comma-separated list, trimmed, without the empty ones. -/
def entries (s : List Char) : List (List Char) :=
  ((splitOn ',' s).map trim).filter (· ≠ [])

theorem indent_append_trimStart (s : List Char) : indent s ++ trimStart s = s :=
  List.takeWhile_append_dropWhile

theorem splitOn_ne_nil (separator : Char) (s : List Char) : splitOn separator s ≠ [] := by
  cases s with
  | nil => simp [splitOn]
  | cons c s =>
    rw [splitOn, List.foldr_cons]
    split
    · simp
    · split <;> simp

theorem not_mem_of_mem_splitOn {separator : Char} {s part : List Char}
    (isPart : part ∈ splitOn separator s) : separator ∉ part := by
  induction s generalizing part with
  | nil =>
    obtain rfl : part = [] := by simpa [splitOn] using isPart
    simp
  | cons c s ih =>
    rw [splitOn, List.foldr_cons, ← splitOn] at isPart
    split at isPart
    · rcases List.mem_cons.mp isPart with rfl | inside
      · simp
      · exact ih inside
    · rename_i different
      split at isPart
      · rename_i first later parts
        rw [parts] at ih
        rcases List.mem_cons.mp isPart with rfl | inside
        · simp [Ne.symm different, ih List.mem_cons_self]
        · exact ih (List.mem_cons_of_mem _ inside)
      · obtain rfl : part = [c] := by simpa using isPart
        simp [Ne.symm different]

end SymbolIndex.Text
