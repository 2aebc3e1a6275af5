import SymbolIndex.Report

/-! What a report shows of itself. Numbers are written in decimal digits, places as 64-bit numbers, which
differ as long as the places lie below the limit, and an entry of an outline shows its range but not
where its name is. -/
namespace SymbolIndex

theorem isDigit_of_mem_toDigits {n : Nat} {c : Char} (member : c ∈ Nat.toDigits 10 n) : c.isDigit = true :=
  Nat.isDigit_of_mem_toDigits (by omega) (by omega) member

theorem toDigits_inj {m n : Nat} (same : Nat.toDigits 10 m = Nat.toDigits 10 n) : m = n :=
  calc m = Nat.ofDigitChars 10 (Nat.toDigits 10 m) 0 := Nat.ofDigitChars_ten_toDigits.symm
    _ = Nat.ofDigitChars 10 (Nat.toDigits 10 n) 0 := by rw [same]
    _ = n := Nat.ofDigitChars_ten_toDigits

/-- A kind is found by its word. -/
theorem Kind.find?_word (kind : Kind) : Kind.all.find? (·.word == kind.word) = some kind := by
  cases kind <;> rfl

theorem Kind.word_inj {kind kind' : Kind} (same : kind.word = kind'.word) : kind = kind' := by
  have found := kind.find?_word
  rw [same, kind'.find?_word] at found
  exact (Option.some.inj found).symm

/-- Every severity. -/
def Severity.all : List Severity := [error, warning]

theorem Severity.find?_word (severity : Severity) :
    Severity.all.find? (·.word == severity.word) = some severity := by
  cases severity <;> rfl

theorem Severity.word_inj {severity severity' : Severity} (same : severity.word = severity'.word) :
    severity = severity' := by
  have found := severity.find?_word
  rw [same, severity'.find?_word] at found
  exact (Option.some.inj found).symm

/-- Whether a place is below the limit of what is shown. -/
def Position.Fits (p : Position) : Prop := p.line + 1 < Text.wordLimit ∧ p.column + 1 < Text.wordLimit

/-- Whether both ends of a stretch are. -/
def Span.Fits (s : Span) : Prop := s.start.Fits ∧ s.stop.Fits

instance (p : Position) : Decidable p.Fits :=
  inferInstanceAs (Decidable (p.line + 1 < Text.wordLimit ∧ p.column + 1 < Text.wordLimit))

instance (s : Span) : Decidable s.Fits := inferInstanceAs (Decidable (s.start.Fits ∧ s.stop.Fits))

theorem shown_of_lt {n : Nat} (below : n + 1 < Text.wordLimit) : shown n = n + 1 :=
  Nat.mod_eq_of_lt below

theorem shown_inj {m n : Nat} (below : m + 1 < Text.wordLimit) (below' : n + 1 < Text.wordLimit)
    (same : shown m = shown n) : m = n := by
  rw [shown_of_lt below, shown_of_lt below'] at same
  omega

namespace OutlineEntry

mutual

/-- Whether the ranges of a tree are below the limit. -/
def Fits : OutlineEntry → Prop
  | ⟨_, _, _, range, _, children⟩ => range.Fits ∧ FitsAll children

/-- Whether the ranges of some trees are. -/
def FitsAll : List OutlineEntry → Prop
  | [] => True
  | node :: later => Fits node ∧ FitsAll later

end

mutual

/-- The tree with the whole range of every entry for the place of its name. -/
def unselected : OutlineEntry → OutlineEntry
  | ⟨label, detail, kind, range, _, children⟩ =>
    ⟨label, detail, kind, range, range, unselectedAll children⟩

/-- Some trees without the places of their names. -/
def unselectedAll : List OutlineEntry → List OutlineEntry
  | [] => []
  | node :: later => unselected node :: unselectedAll later

end

end OutlineEntry

namespace FileEntry

/-- The file with other items. -/
def mapItems {α : Type} (change : List α → List α) (e : FileEntry α) : FileEntry α :=
  { e with items := change e.items }

end FileEntry

namespace Report

/-- The report without the places of names in its outline, which it does not show. -/
def unselected (r : Report) : Report :=
  { r with
    outline := r.outline.map (List.map (FileEntry.mapItems OutlineEntry.unselectedAll)) }

/-- Whether the places that a report shows are below the limit. -/
structure Fits (r : Report) : Prop where
  outline : ∀ files ∈ r.outline, ∀ e ∈ files, OutlineEntry.FitsAll e.items
  diagnostics : ∀ files ∈ r.diagnostics, ∀ e ∈ files, ∀ g ∈ e.items, g.span.Fits
  locations : ∀ files ∈ r.locations, ∀ e ∈ files, ∀ l ∈ e.items, l.span.Fits

end Report

end SymbolIndex
