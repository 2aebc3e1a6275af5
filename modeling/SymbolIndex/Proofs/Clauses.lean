import SymbolIndex.Proofs.Headings

/-! Implements clauses with any blanks in them. The reader takes a clause as a capital and the run of
characters behind it, which swallows commas and blanks as well, so what it reads are the entries of all
that stands between the colon and the brace. Only the capital is taken apart from the run, and the one
clause that leaves nothing for the run is a single letter right before the brace. -/
namespace SymbolIndex.Writing

open Shape

/-- A name of an implements clause and the blanks around it. -/
structure ListedName where
  before : List Char
  name : ContainerName
  behind : List Char
  blankBefore : Text.Blanks before
  blankBehind : Text.Blanks behind

/-- The name with its blanks. -/
def ListedName.text (listed : ListedName) : List Char :=
  listed.before ++ (listed.name.text ++ listed.behind)

/-- The names of a clause, with a comma between two of them. -/
def listedText (names : List ListedName) : List Char := [','].intercalate (names.map ListedName.text)

/-- What stands before the brace of a class that lists its interfaces. -/
def implementingText (name : ContainerName) (gap : List Char) (names : List ListedName) : List Char :=
  name.text ++ (gap ++ ':' :: listedText names)

/-- A clause that is one letter, right before the brace. -/
def Cramped : List ListedName → Prop
  | [listed] => listed.name.text.length = 1 ∧ listed.behind = []
  | _ => False

section Names

theorem containerChars (name : ContainerName) : ∀ c ∈ name.text, Text.isNameChar c = true :=
  (containerName_fits name.fits).2

theorem trim_containerName (name : ContainerName) : Text.trim name.text = name.text :=
  Text.trim_of_unblank fun c member => Text.isBlank_of_isNameChar (containerChars name c member)

theorem containerName_ne_nil (name : ContainerName) : name.text ≠ [] := Piece.ne_nil_of_word name.fits

end Names

namespace ListedName

variable (listed : ListedName)

theorem trim_text : Text.trim listed.text = listed.name.text := by
  rw [text, Text.trim_blanks_append listed.blankBefore, Text.trim_append_blanks _ listed.blankBehind,
    trim_containerName]

theorem comma_not_mem : ',' ∉ listed.text := by
  have before : ',' ∉ listed.before := not_mem_of_class listed.blankBefore rfl
  have name : ',' ∉ listed.name.text := not_mem_of_class (containerChars listed.name) rfl
  have behind : ',' ∉ listed.behind := not_mem_of_class listed.blankBehind rfl
  simp [text, before, name, behind]

/-- What stands between commas is written in characters of clauses. -/
theorem chars : ∀ c ∈ listed.text, isClauseChar c = true := by
  have blanks {s : List Char} (blank : Text.Blanks s) : ∀ c ∈ s, isClauseChar c = true :=
    fun c member => by simp [isClauseChar, blank c member]
  have name : ∀ c ∈ listed.name.text, isClauseChar c = true :=
    fun c member => by simp [isClauseChar, containerChars listed.name c member]
  exact List.forall_mem_append.mpr
    ⟨blanks listed.blankBefore, List.forall_mem_append.mpr ⟨name, blanks listed.blankBehind⟩⟩

/-- The same name without the blanks before it. -/
def flush : ListedName := { listed with before := [], blankBefore := Text.blanks_nil }

end ListedName

section Lists

theorem listedText_cons (first second : ListedName) (names : List ListedName) :
    listedText (first :: second :: names) = first.text ++ ',' :: listedText (second :: names) := by
  simp [listedText]

theorem listedText_singleton (listed : ListedName) : listedText [listed] = listed.text := by
  simp [listedText]

/-- The blanks before the first name stand before the whole list. -/
theorem listedText_flush (first : ListedName) (names : List ListedName) :
    listedText (first :: names) = first.before ++ listedText (first.flush :: names) := by
  cases names with
  | nil => simp [listedText, ListedName.flush, ListedName.text]
  | cons second names =>
    rw [listedText_cons, listedText_cons]
    simp [ListedName.flush, ListedName.text]

theorem listedText_chars (names : List ListedName) : ∀ c ∈ listedText names, isClauseChar c = true := by
  match names with
  | [] => exact nofun
  | [listed] =>
    rw [listedText_singleton]
    exact listed.chars
  | first :: second :: names =>
    rw [listedText_cons]
    exact List.forall_mem_append.mpr
      ⟨first.chars, List.forall_mem_cons.mpr ⟨rfl, listedText_chars (second :: names)⟩⟩

/-- The entries of a list are its names, whatever blanks stand around them. -/
theorem entries_listedText (first : ListedName) (names : List ListedName) :
    Text.entries (listedText (first :: names)) = (first :: names).map (·.name.text) := by
  have kept (listed : ListedName) (more : List (List Char)) :
      (listed.name.text :: more).filter (· ≠ []) = listed.name.text :: more.filter (· ≠ []) :=
    List.filter_cons_of_pos (decide_eq_true (containerName_ne_nil listed.name))
  induction names generalizing first with
  | nil =>
    rw [listedText_singleton, Text.entries, Text.splitOn_of_not_mem first.comma_not_mem,
      List.map_singleton, first.trim_text, kept]
    rfl
  | cons second names ih =>
    have later := ih second
    rw [Text.entries] at later
    rw [listedText_cons, Text.entries, Text.splitOn_append first.comma_not_mem, List.map_cons,
      first.trim_text, kept, later]
    rfl

/-- A list begins with blanks and a capital, and unless it is cramped, something follows the
capital. -/
theorem listedText_split (first : ListedName) (names : List ListedName) :
    ∃ c clause, listedText (first :: names) = first.before ++ c :: clause ∧ c.isUpper = true ∧
      (∀ d ∈ clause, isClauseChar d = true) ∧ Text.entries (c :: clause) =
        (first :: names).map (·.name.text) ∧ (clause = [] ↔ Cramped (first :: names)) := by
  obtain ⟨c, later, name, capital, -⟩ := id first.name.fits
  obtain ⟨clause, flush, empty⟩ : ∃ clause, listedText (first.flush :: names) = c :: clause ∧
      (clause = [] ↔ Cramped (first :: names)) := by
    cases names with
    | nil =>
      refine ⟨later ++ first.behind, ?_, ?_⟩
      · simp [listedText_singleton, ListedName.text, ListedName.flush, name]
      · simp [Cramped, name]
    | cons second names =>
      refine ⟨later ++ (first.behind ++ ',' :: listedText (second :: names)), ?_, ?_⟩
      · simp [listedText_cons, ListedName.text, ListedName.flush, name]
      · simp [Cramped]
  have entries := entries_listedText first.flush names
  have chars := listedText_chars (first.flush :: names)
  rw [flush] at entries chars
  refine ⟨c, clause, ?_, capital, (List.forall_mem_cons.mp chars).2, entries, empty⟩
  rw [listedText_flush, flush]

end Lists

section Heads

variable (name : ContainerName) {gap : List Char} (blank : Text.Blanks gap)
include blank

theorem containerName_stops (behind : List Char) : containerName.Stops (gap ++ ([':'] ++ behind)) := by
  cases gap with
  | nil => exact Piece.word_stops rfl
  | cons c gap => exact Piece.word_stops (Text.isNameChar_of_isBlank (blank c List.mem_cons_self))

/-- With a clause a head is none without one. -/
theorem plainHead?_of_colon (behind : List Char) :
    plainHead? (name.text ++ (gap ++ ':' :: behind)) = none := by
  have refused : plainHead.take? (name.text ++ (gap ++ ':' :: behind)) = none :=
    Pattern.take?_of_other name.fits (containerName_stops blank behind) blank rfl (by decide) []
  rw [plainHead?, refused]

/-- Up to the capital of its first interface a head is read whatever follows. -/
theorem take?_implementing (first : ListedName) (pieces : Pattern) (behind : List Char) {c : Char}
    (capital : c.isUpper = true) :
    Pattern.take? (containerName :: .blanks :: .literal [':'] :: .blanks ::
        .word Char.isUpper (fun _ => false) :: pieces)
        (name.text ++ (gap ++ ([':'] ++ (first.before ++ ([c] ++ behind))))) =
      (pieces.take? behind).map fun (texts, left) =>
        (name.text :: gap :: [':'] :: first.before :: [c] :: texts, left) := by
  have filled : Piece.blanks.Fits gap := blank
  have colon : (Piece.literal [':']).Fits [':'] := rfl
  have lead : Piece.blanks.Fits first.before := first.blankBefore
  have letter : (Piece.word Char.isUpper fun _ => false).Fits [c] :=
    ⟨c, [], rfl, capital, List.forall_mem_nil _⟩
  have beforeColon (s : List Char) : Piece.blanks.Stops ([':'] ++ s) := Piece.run_stops rfl
  have beforeLetter (s : List Char) : Piece.blanks.Stops ([c] ++ s) :=
    Piece.run_stops (Text.isBlank_of_isNameChar (Text.isNameChar_of_isUpper capital))
  rw [Pattern.take?_cons_of_fits name.fits (containerName_stops blank _),
    Pattern.take?_cons_of_fits filled (beforeColon _), Pattern.take?_cons_of_fits colon trivial,
    Pattern.take?_cons_of_fits lead (beforeLetter _),
    Pattern.take?_cons_of_fits letter (fun _ _ => rfl)]
  simp only [Option.map_map]
  rfl

section Lines

variable (first : ListedName) (names : List ListedName) (rest : List Char)

theorem plainHead?_implementingText :
    plainHead? (implementingText name gap (first :: names) ++ rest) = none := by
  have line : implementingText name gap (first :: names) ++ rest =
      name.text ++ (gap ++ ':' :: (listedText (first :: names) ++ rest)) := by simp [implementingText]
  exact line ▸ plainHead?_of_colon name blank _

/-- A clause with something behind its first letter is read as the names that it lists. -/
theorem implementingHead?_of_roomy (roomy : ¬ Cramped (first :: names)) :
    implementingHead? (implementingText name gap (first :: names) ++ '\x7b' :: rest) =
      some ⟨String.ofList name.text,
        some ((first :: names).map fun listed => String.ofList listed.name.text),
        (implementingText name gap (first :: names)).length⟩ := by
  obtain ⟨c, clause, list, capital, chars, entries, empty⟩ := listedText_split first names
  have nonempty : clause ≠ [] := fun none => roomy (empty.mp none)
  have filled : (Piece.some1 isClauseChar).Fits clause := Piece.some1_fits_iff.mpr ⟨nonempty, chars⟩
  have behind : Pattern.take? [.some1 isClauseChar, .literal ['\x7b']] (clause ++ '\x7b' :: rest) =
      some ([clause, ['\x7b']], rest) := by
    rw [Pattern.take?_cons_of_fits filled (Piece.word_stops rfl)]
    rfl
  have line : implementingText name gap (first :: names) ++ '\x7b' :: rest =
      name.text ++ (gap ++ ([':'] ++ (first.before ++ ([c] ++ (clause ++ '\x7b' :: rest))))) := by
    simp [implementingText, list]
  have width : Pattern.width [name.text, gap, [':'], first.before, [c], clause] =
      (implementingText name gap (first :: names)).length := by
    rw [width_eq_length_flatten, implementingText, list]
    simp
  rw [implementingHead?, implementingHead, line, take?_implementing name blank first _ _ capital, behind]
  simp [entries, width]

/-- The run behind the capital has to take a character, and the brace is none that it can take. -/
theorem implementingHead?_of_cramped (cramped : Cramped (first :: names)) :
    implementingHead? (implementingText name gap (first :: names) ++ '\x7b' :: rest) = none := by
  obtain ⟨c, clause, list, capital, -, -, empty⟩ := listedText_split first names
  obtain rfl := empty.mpr cramped
  have line : implementingText name gap (first :: names) ++ '\x7b' :: rest =
      name.text ++ (gap ++ ([':'] ++ (first.before ++ ([c] ++ '\x7b' :: rest)))) := by
    simp [implementingText, list]
  rw [implementingHead?, implementingHead, line, take?_implementing name blank first _ _ capital]
  rfl

end Lines

end Heads

/-- A head is read with its clause, whatever blanks are in it and whatever follows the brace, unless the
clause is one letter right before the brace. Then the line is no head at all. -/
theorem head_of_spaced_clause (name : ContainerName) {gap : List Char} (blank : Text.Blanks gap)
    (first : ListedName) (names : List ListedName) (rest : List Char) :
    let text := implementingText name gap (first :: names)
    plainHead? (text ++ '\x7b' :: rest) = none ∧
      Text.byteOffset (text ++ '\x7b' :: rest) text.length = Text.byteLength text ∧
      (¬ Cramped (first :: names) → implementingHead? (text ++ '\x7b' :: rest) =
        some ⟨String.ofList name.text,
          some ((first :: names).map fun listed => String.ofList listed.name.text), text.length⟩) ∧
      (Cramped (first :: names) → implementingHead? (text ++ '\x7b' :: rest) = none) :=
  ⟨plainHead?_implementingText name blank first names _,
    by rw [Text.byteOffset, List.take_left],
    implementingHead?_of_roomy name blank first names rest,
    implementingHead?_of_cramped name blank first names rest⟩

/-- A class. -/
def pen : ContainerName := ⟨['P', 'e', 'n'], 'P', ['e', 'n'], rfl, rfl, List.all_eq_true.mp rfl⟩

/-- An interface of one letter, with the blanks around it. -/
def listedLetter (before behind : List Char) (blank : Text.Blanks before) (blank' : Text.Blanks behind) :
    ListedName := ⟨before, ⟨['I'], 'I', [], rfl, rfl, List.forall_mem_nil _⟩, behind, blank, blank'⟩

/-- The same class as an interface, with a tab behind it. -/
def listedPen : ListedName := ⟨[], pen, ['\t'], Text.blanks_nil, by simp [Text.Blanks, Text.isBlank]⟩

/-- An interface of one letter is read behind another with a tab before the comma, and on its own with a
blank before the brace, but not without it. -/
theorem head_of_spaced_interfaces :
    implementingHead? "Pen :Pen\t, I\x7b \x7d".toList = some ⟨"Pen", some ["Pen", "I"], 12⟩ ∧
      implementingHead? "Pen:I \x7b".toList = some ⟨"Pen", some ["I"], 6⟩ ∧
      implementingHead? "Pen: I\x7b".toList = none := by
  have space := Text.blanks_space
  have nothing := Text.blanks_nil
  refine ⟨?_, ?_, ?_⟩
  · exact (head_of_spaced_clause pen space listedPen [listedLetter [' '] [] space nothing]
      " \x7d".toList).2.2.1 nofun
  · exact (head_of_spaced_clause pen nothing (listedLetter [] [' '] nothing space) [] []).2.2.1 nofun
  · exact (head_of_spaced_clause pen nothing (listedLetter [' '] [] space nothing) [] []).2.2.2 ⟨rfl, rfl⟩

/-- A class that implements an interface of one letter, with no blank before its brace, is not in the
model, and a blank before the brace brings it back. -/
theorem head_lost_to_cramped_clause :
    implementingHead? "Box:I\x7b".toList = none ∧
      (Model.ofString "Box:I\x7b\n\x7d\n").symbols = [] ∧
      (Model.ofString "Box:I \x7b\n\x7d\n").symbols.map (fun s => (s.name, s.implements)) =
        [("Box", ["I"])] := by
  decide +kernel

end SymbolIndex.Writing
