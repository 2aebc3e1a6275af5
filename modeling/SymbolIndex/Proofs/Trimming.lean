import Mathlib.Data.List.Basic
import Mathlib.Data.List.DropRight
import Mathlib.Data.List.TakeWhile
import SymbolIndex.Text.Basic

/-! Trimming takes away the blanks around a text and nothing else, and blanks that are put around a
text change nothing of what it trims to. -/
namespace SymbolIndex.Text

/-- Only blanks. -/
def Blanks (s : List Char) : Prop := ∀ c ∈ s, isBlank c = true

theorem blanks_append {a b : List Char} : Blanks (a ++ b) ↔ Blanks a ∧ Blanks b :=
  List.forall_mem_append

theorem blanks_nil : Blanks [] := by simp [Blanks]

theorem blanks_space : Blanks [' '] := by simp [Blanks, isBlank]

theorem blanks_indent (s : List Char) : Blanks (indent s) :=
  fun _ member => List.mem_takeWhile_imp member

theorem trimStart_of_unblank {c : Char} (unblank : isBlank c = false) (s : List Char) :
    trimStart (c :: s) = c :: s :=
  List.dropWhile_cons_of_neg (by simp [unblank])

theorem trimStart_blanks_append {lead : List Char} (blank : Blanks lead) (s : List Char) :
    trimStart (lead ++ s) = trimStart s := by
  induction lead with
  | nil => rfl
  | cons c lead ih =>
    obtain ⟨first, later⟩ := List.forall_mem_cons.mp blank
    rw [trimStart, List.cons_append, List.dropWhile_cons_of_pos first]
    exact ih later

theorem trimEnd_append_blanks {tail : List Char} (s : List Char) (blank : Blanks tail) :
    trimEnd (s ++ tail) = trimEnd s := by
  have reversed : Blanks tail.reverse := fun c member => blank c (List.mem_reverse.mp member)
  rw [trimEnd, dropEndWhile, List.reverse_append, ← trimStart, trimStart_blanks_append reversed]
  rfl

/-- The blanks that a text ends with are all that trimming its end takes away. -/
theorem exists_trimEnd_append (s : List Char) : ∃ tail, s = trimEnd s ++ tail ∧ Blanks tail := by
  refine ⟨(indent s.reverse).reverse, ?_, ?_⟩
  · rw [trimEnd, dropEndWhile, ← List.reverse_append, ← trimStart, indent_append_trimStart,
      List.reverse_reverse]
  · exact fun c member => blanks_indent s.reverse c (List.mem_reverse.mp member)

theorem trim_blanks_append {lead : List Char} (blank : Blanks lead) (s : List Char) :
    trim (lead ++ s) = trim s := by
  rw [trim, trimStart_blanks_append blank, ← trim]

theorem trim_append_blanks {tail : List Char} (s : List Char) (blank : Blanks tail) :
    trim (s ++ tail) = trim s := by
  by_cases empty : trimStart s = []
  · have all : Blanks s := List.dropWhile_eq_nil_iff.mp empty
    rw [trim_blanks_append all, trim, trim, empty]
    have whole := trimEnd_append_blanks (trimStart tail) (blanks_append.mpr ⟨all, blank⟩)
    have nothing : trimStart tail = [] := List.dropWhile_eq_nil_iff.mpr blank
    rw [nothing]
  · have starts : trimStart (s ++ tail) = trimStart s ++ tail := by
      have some : (List.dropWhile isBlank s).isEmpty = false :=
        List.isEmpty_eq_false_iff.mpr empty
      rw [trimStart, List.dropWhile_append, some]
      rfl
    rw [trim, starts, trimEnd_append_blanks _ blank, ← trim]

/-- A text is its indentation, what it trims to and some blanks. -/
theorem exists_trim_append (s : List Char) :
    ∃ tail, s = indent s ++ trim s ++ tail ∧ Blanks tail := by
  obtain ⟨tail, ends, blank⟩ := exists_trimEnd_append (trimStart s)
  refine ⟨tail, ?_, blank⟩
  rw [List.append_assoc, trim, ← ends, indent_append_trimStart]

theorem mem_of_mem_trim {s : List Char} {c : Char} (member : c ∈ trim s) : c ∈ s := by
  obtain ⟨tail, whole, -⟩ := exists_trim_append s
  rw [whole]
  exact List.mem_append_left _ (List.mem_append_right _ member)

/-- Trimming takes away blanks only. -/
theorem mem_trim_of_unblank {s : List Char} {c : Char} (member : c ∈ s) (unblank : isBlank c = false) :
    c ∈ trim s := by
  obtain ⟨tail, whole, blank⟩ := exists_trim_append s
  rw [whole, List.mem_append, List.mem_append] at member
  rcases member with (lead | inside) | behind
  · rw [blanks_indent s c lead] at unblank
    cases unblank
  · exact inside
  · rw [blank c behind] at unblank
    cases unblank

theorem trim_trim (s : List Char) : trim (trim s) = trim s := by
  obtain ⟨tail, whole, blank⟩ := exists_trim_append s
  calc trim (trim s) = trim (indent s ++ trim s ++ tail) := by
        rw [trim_append_blanks _ blank, trim_blanks_append (blanks_indent s)]
    _ = trim s := by rw [← whole]

/-- A text that trimming leaves as it is neither begins nor ends with a blank. -/
theorem trimStart_of_trim {s : List Char} (trimmed : trim s = s) : trimStart s = s ∧ trimEnd s = s := by
  obtain ⟨tail, whole, -⟩ := exists_trim_append s
  have lengths := congrArg List.length whole
  rw [List.length_append, List.length_append, trimmed] at lengths
  have none : indent s = [] := List.eq_nil_of_length_eq_zero (by omega)
  have start : trimStart s = s := by
    have both := indent_append_trimStart s
    rwa [none] at both
  refine ⟨start, ?_⟩
  rw [trim, start] at trimmed
  exact trimmed

theorem dropEndWhile_eq_self_iff {p : Char → Bool} {s : List Char} :
    dropEndWhile p s = s ↔ ∀ c, s.getLast? = some c → p c = false := by
  refine List.rdropWhile_eq_self_iff.trans ⟨fun ends c last => ?_, fun ends nonempty => ?_⟩
  · obtain ⟨nonempty, rfl⟩ := List.mem_getLast?_eq_getLast last
    exact Bool.eq_false_iff.mpr (ends nonempty)
  · exact Bool.eq_false_iff.mp (ends _ (List.getLast?_eq_some_getLast nonempty))

/-- What is kept at the beginning of a text is kept whatever follows it. -/
theorem dropEndWhile_cons {p : Char → Bool} {c : Char} (kept : p c = false) (s : List Char) :
    dropEndWhile p (c :: s) = c :: dropEndWhile p s := by
  have alone : [c].dropWhile p = [c] := List.dropWhile_cons_of_neg (by simp [kept])
  rw [dropEndWhile, List.reverse_cons, List.dropWhile_append, alone]
  split
  · next empty =>
    rw [dropEndWhile, List.isEmpty_iff.mp empty]
    rfl
  · rw [List.reverse_append]
    rfl

/-- The text begins with a character that is no blank. -/
def StartsBare (s : List Char) : Prop := ∃ c later, s = c :: later ∧ isBlank c = false

/-- The text ends with a character that is no blank. -/
def EndsBare (s : List Char) : Prop := ∃ before c, s = before ++ [c] ∧ isBlank c = false

theorem StartsBare.append {a : List Char} (starts : StartsBare a) (b : List Char) :
    StartsBare (a ++ b) := by
  obtain ⟨c, later, rfl, bare⟩ := starts
  exact ⟨c, later ++ b, rfl, bare⟩

theorem EndsBare.append {b : List Char} (ends : EndsBare b) (a : List Char) : EndsBare (a ++ b) := by
  obtain ⟨before, c, rfl, bare⟩ := ends
  exact ⟨a ++ before, c, (List.append_assoc ..).symm, bare⟩

theorem EndsBare.of_append {a b : List Char} (ends : EndsBare (a ++ b)) (nonempty : b ≠ []) :
    EndsBare b := by
  obtain ⟨before, c, whole, bare⟩ := ends
  have last := congrArg List.getLast? whole
  rw [List.getLast?_append_of_ne_nil a nonempty, List.getLast?_concat] at last
  obtain ⟨shorter, rfl⟩ := List.getLast?_eq_some_iff.mp last
  exact ⟨shorter, c, rfl, bare⟩

theorem EndsBare.trim_ne_nil {s : List Char} (ends : EndsBare s) : trim s ≠ [] := by
  obtain ⟨before, c, rfl, bare⟩ := ends
  exact List.ne_nil_of_mem (mem_trim_of_unblank (by simp) bare)

/-- What is left of a text without the blanks at its end has none there. -/
theorem endsBare_trimEnd {s : List Char} (nonempty : trimEnd s ≠ []) : EndsBare (trimEnd s) := by
  have stops := List.head?_dropWhile_not isBlank s.reverse
  cases starts : s.reverse.dropWhile isBlank with
  | nil => exact absurd (by rw [trimEnd, dropEndWhile, starts]; rfl) nonempty
  | cons c later =>
    rw [starts] at stops
    exact ⟨later.reverse, c, by rw [trimEnd, dropEndWhile, starts, List.reverse_cons], by simpa using stops⟩

/-- What is left of a text without the blanks around it starts with none. -/
theorem startsBare_trim {s : List Char} (nonempty : trim s ≠ []) : StartsBare (trim s) := by
  obtain ⟨tail, whole, -⟩ := exists_trimEnd_append (trimStart s)
  have stops := List.head?_dropWhile_not isBlank s
  obtain ⟨c, later, starts⟩ := List.exists_cons_of_ne_nil nonempty
  rw [← trim, starts] at whole
  rw [show s.dropWhile isBlank = c :: later ++ tail from whole] at stops
  exact ⟨c, later, starts, by simpa using stops⟩

theorem trim_of_bare {s : List Char} (starts : StartsBare s) (ends : EndsBare s) : trim s = s := by
  have start : trimStart s = s := by
    obtain ⟨c, later, rfl, bare⟩ := starts
    exact trimStart_of_unblank bare later
  obtain ⟨before, c, rfl, bare⟩ := ends
  have reversed : trimStart (before ++ [c]).reverse = (before ++ [c]).reverse := by
    rw [List.reverse_append]
    exact trimStart_of_unblank bare before.reverse
  rw [trim, start, trimEnd, dropEndWhile, ← trimStart, reversed, List.reverse_reverse]

theorem endsBare_of_unblank {s : List Char} (unblank : ∀ c ∈ s, isBlank c = false)
    (nonempty : s ≠ []) : EndsBare s := by
  obtain empty | ⟨before, c, rfl⟩ := List.eq_nil_or_concat' s
  · exact absurd empty nonempty
  · exact ⟨before, c, rfl, unblank c (by simp)⟩

theorem trim_of_unblank {s : List Char} (unblank : ∀ c ∈ s, isBlank c = false) : trim s = s := by
  cases s with
  | nil => rfl
  | cons c later =>
    exact trim_of_bare ⟨c, later, rfl, unblank c List.mem_cons_self⟩
      (endsBare_of_unblank unblank (List.cons_ne_nil c later))

theorem endsBare_of_trim {s : List Char} (trimmed : trim s = s) (nonempty : s ≠ []) :
    EndsBare s := by
  obtain ⟨-, ends⟩ := trimStart_of_trim trimmed
  have left : trimEnd s ≠ [] := by rwa [ends]
  have bare := endsBare_trimEnd left
  rwa [ends] at bare

end SymbolIndex.Text
