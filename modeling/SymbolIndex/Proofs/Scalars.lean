import Mathlib.Data.List.Basic
import Mathlib.Tactic.SplitIfs
import SymbolIndex.Proofs.Lines
import SymbolIndex.Proofs.Occurrence
import SymbolIndex.Proofs.Trimming
import SymbolIndex.Report.Scalar

/-! Scalars can be told apart. Quotes open quoted scalars and the empty one alone, what a backslash
stands before says which character is meant, and the lines of a block are those of its text, so no two
texts are written alike; and none is written with a line break. -/
namespace SymbolIndex

namespace Text

theorem isGap_iff {c : Char} : isGap c = true ↔ c = ' ' ∨ c = '\t' := by simp [isGap]

/-- Only a text that ends with a newline has an empty last part. -/
theorem getLast?_splitOn {s : List Char} (nonempty : s ≠ []) (ends : s.getLast? ≠ some '\n') :
    (splitOn '\n' s).getLast? ≠ some [] := by
  induction s using Document.lineInduction with
  | last raw oneLine =>
    rw [splitOn_of_not_mem oneLine]
    exact fun last => nonempty (Option.some.inj last)
  | line raw s oneLine ih =>
    have further : s ≠ [] := by
      rintro rfl
      exact ends List.getLast?_concat
    have later : s.getLast? ≠ some '\n' := by
      intro last
      apply ends
      rw [List.getLast?_append, List.getLast?_cons, last]
      rfl
    rw [splitOn_append oneLine, List.getLast?_cons]
    intro last
    apply ih further later
    cases behind : (splitOn '\n' s).getLast? with
    | none => exact absurd (List.getLast?_eq_none_iff.mp behind) (splitOn_ne_nil '\n' s)
    | some part => simpa [behind] using last

theorem mem_of_mem_splitOn {separator : Char} {s part : List Char} {c : Char}
    (isPart : part ∈ splitOn separator s) (member : c ∈ part) : c ∈ s := by
  induction s generalizing part with
  | nil =>
    obtain rfl : part = [] := by simpa [splitOn] using isPart
    exact absurd member List.not_mem_nil
  | cons d s ih =>
    obtain ⟨first, later, parts⟩ := List.exists_cons_of_ne_nil (splitOn_ne_nil separator s)
    rw [splitOn, List.foldr_cons, ← splitOn, parts] at isPart
    rw [parts] at ih
    split at isPart
    · rcases List.mem_cons.mp isPart with rfl | inside
      · exact absurd member List.not_mem_nil
      · exact List.mem_cons_of_mem d (ih inside member)
    · rcases List.mem_cons.mp isPart with rfl | inside
      · rcases List.mem_cons.mp member with rfl | further
        · exact List.mem_cons_self
        · exact List.mem_cons_of_mem d (ih List.mem_cons_self further)
      · exact List.mem_cons_of_mem d (ih (List.mem_cons_of_mem first inside) member)

/-- The entries of a list are made of its characters. -/
theorem mem_of_mem_entries {s part : List Char} {c : Char} (isEntry : part ∈ entries s)
    (member : c ∈ part) : c ∈ s := by
  obtain ⟨whole, isPart, rfl⟩ := List.mem_map.mp (List.mem_of_mem_filter isEntry)
  exact mem_of_mem_splitOn isPart (mem_of_mem_trim member)

end Text

namespace Scalar

/-- The character that is written as a backslash and a mark. -/
def meant : Char → Char
  | 'n' => '\n'
  | 'r' => '\r'
  | 't' => '\t'
  | c => c

theorem escaped_cases (c : Char) :
    (escaped c = [c] ∧ c ≠ '\x22' ∧ c ≠ '\\' ∧ c ≠ '\n') ∨
      ∃ mark, escaped c = ['\\', mark] ∧ meant mark = c ∧ mark ≠ '\n' := by
  unfold escaped
  split_ifs with quote backslash newline carriage tab
  · exact .inr ⟨_, rfl, quote.symm, by decide⟩
  · exact .inr ⟨_, rfl, backslash.symm, by decide⟩
  · exact .inr ⟨_, rfl, newline.symm, by decide⟩
  · exact .inr ⟨_, rfl, carriage.symm, by decide⟩
  · exact .inr ⟨_, rfl, tab.symm, by decide⟩
  · exact .inl ⟨rfl, quote, backslash, newline⟩

/-- Escapes of characters can be told apart, whatever follows them. -/
theorem escaped_append_inj {c d : Char} {s t : List Char} (same : escaped c ++ s = escaped d ++ t) :
    c = d ∧ s = t := by
  rcases escaped_cases c with ⟨first, -, other, -⟩ | ⟨mark, first, rfl, -⟩ <;>
    rcases escaped_cases d with ⟨second, -, other', -⟩ | ⟨mark', second, rfl, -⟩ <;>
    rw [first, second] at same
  · exact List.cons.inj same
  · exact absurd (List.cons.inj same).1 other
  · exact absurd (List.cons.inj same).1.symm other'
  · obtain ⟨-, marks⟩ := List.cons.inj same
    obtain ⟨rfl, rest⟩ := List.cons.inj marks
    exact ⟨rfl, rest⟩

theorem flatMap_escaped_inj {s t : List Char} (same : s.flatMap escaped = t.flatMap escaped) : s = t := by
  have nonempty (c : Char) (s : List Char) : [] ≠ escaped c ++ s := by
    rcases escaped_cases c with ⟨first, -⟩ | ⟨mark, first, -⟩ <;> rw [first] <;> exact nofun
  induction s generalizing t with
  | nil =>
    cases t with
    | nil => rfl
    | cons d t => exact absurd same (nonempty d _)
  | cons c s ih =>
    cases t with
    | nil => exact absurd same.symm (nonempty c _)
    | cons d t =>
      obtain ⟨rfl, rest⟩ := escaped_append_inj same
      rw [ih rest]

theorem mustQuote_cons_eq_false_iff {c : Char} {later : List Char} : mustQuote (c :: later) = false ↔
    c ∉ indicators ∧ String.ofList (c :: later) ∉ reservedWords ∧ resemblesNumber (c :: later) = false ∧
      (c :: later).getLast? ≠ some ' ' ∧ ∀ d ∈ c :: later, d ∉ breakers := by
  simp [mustQuote, and_assoc]

/-- What is known of a text that needs no quotes. -/
theorem exists_of_mustQuote {s : List Char} (plain : mustQuote s = false) :
    ∃ c later, s = c :: later ∧ c ∉ indicators ∧ String.ofList s ∉ reservedWords ∧
      resemblesNumber s = false ∧ s.getLast? ≠ some ' ' ∧ ∀ d ∈ s, d ∉ breakers := by
  cases s with
  | nil => exact nomatch plain
  | cons c later => exact ⟨c, later, rfl, mustQuote_cons_eq_false_iff.mp plain⟩

theorem inlined_of_plain {s : List Char} (plain : mustQuote s = false) : inlined s = s := by
  obtain ⟨c, later, rfl, -⟩ := exists_of_mustQuote plain
  rw [inlined, if_neg (by simp), if_neg (Bool.eq_false_iff.mp plain)]

/-- A text is written as two single quotes if it is empty, in double quotes, or as it is. -/
theorem inlined_cases (s : List Char) :
    (s = [] ∧ inlined s = ['\x27', '\x27']) ∨ inlined s = '\x22' :: (s.flatMap escaped ++ ['\x22']) ∨
      (inlined s = s ∧ '\n' ∉ s ∧ ∃ c later, s = c :: later ∧ c ∉ indicators) := by
  cases s with
  | nil => exact .inl ⟨rfl, rfl⟩
  | cons c later =>
    by_cases quoted : mustQuote (c :: later) = true
    · refine .inr (.inl ?_)
      rw [inlined, if_neg (by simp), if_pos quoted, List.cons_append]
    · have plain := Bool.eq_false_iff.mpr quoted
      obtain ⟨first, behind, starts, bare, -, -, -, unbroken⟩ := exists_of_mustQuote plain
      refine .inr (.inr ⟨inlined_of_plain plain, ?_, first, behind, starts, bare⟩)
      exact fun newline => unbroken '\n' newline (by decide)

/-- No two texts are written alike. -/
theorem inlined_inj {s t : List Char} (same : inlined s = inlined t) : s = t := by
  have single : '\x27' ∈ indicators := by decide
  have double : '\x22' ∈ indicators := by decide
  rcases inlined_cases s with ⟨rfl, first⟩ | first | ⟨first, -, c, later, rfl, bare⟩ <;>
    rcases inlined_cases t with ⟨rfl, second⟩ | second | ⟨second, -, d, behind, rfl, bare'⟩
  · rfl
  all_goals rw [first, second] at same
  · exact absurd (List.cons.inj same).1 (by decide)
  · exact absurd ((List.cons.inj same).1 ▸ single) bare'
  · exact absurd (List.cons.inj same).1 (by decide)
  · exact flatMap_escaped_inj (List.append_cancel_right (List.cons.inj same).2)
  · exact absurd ((List.cons.inj same).1 ▸ double) bare'
  · exact absurd ((List.cons.inj same).1 ▸ single) bare
  · exact absurd ((List.cons.inj same).1 ▸ double) bare
  · exact same

theorem inlined_ne_bar (s : List Char) : inlined s ≠ ['|'] := by
  intro bar
  rcases inlined_cases s with ⟨rfl, first⟩ | first | ⟨first, -, c, later, rfl, bare⟩ <;> rw [first] at bar
  · exact absurd bar (by decide)
  · exact absurd (List.cons.inj bar).1 (by decide)
  · obtain ⟨rfl, -⟩ := List.cons.inj bar
    exact bare (by decide)

theorem not_mem_inlined (s : List Char) : '\n' ∉ inlined s := by
  rcases inlined_cases s with ⟨rfl, first⟩ | first | ⟨first, oneLine, -⟩ <;> rw [first]
  · decide
  · intro newline
    have inside : '\n' ∈ s.flatMap escaped := by simpa using newline
    obtain ⟨c, -, member⟩ := List.mem_flatMap.mp inside
    rcases escaped_cases c with ⟨alone, -, -, other⟩ | ⟨mark, marked, -, other⟩
    · rw [alone, List.mem_singleton] at member
      exact other member.symm
    · rw [marked] at member
      simp [Ne.symm other] at member
  · exact oneLine

/-- The lines of a text without returns that does not end in a newline are the parts between its
newlines. -/
theorem blockLines_eq_splitOn {s : List Char} (nonempty : s ≠ []) (free : '\r' ∉ s)
    (ends : s.getLast? ≠ some '\n') : blockLines s = Text.splitOn '\n' s := by
  have full := Text.getLast?_splitOn nonempty ends
  obtain nothing | ⟨before, final, parts⟩ := List.eq_nil_or_concat' (Text.splitOn '\n' s)
  · exact absurd nothing (Text.splitOn_ne_nil '\n' s)
  · have kept : before.map (fun part => if part.getLast? = some '\r' then part.dropLast else part) =
        before := by
      refine (List.map_congr_left fun part member => if_neg fun last => ?_).trans (List.map_id before)
      have isPart : part ∈ Text.splitOn '\n' s := parts ▸ List.mem_append_left [final] member
      exact free (Text.mem_of_mem_splitOn isPart (List.mem_of_getLast? last))
    rw [parts, List.getLast?_concat] at full
    unfold blockLines
    dsimp only
    rw [parts, List.dropLast_concat, List.getLast?_concat, kept]
    cases final with
    | nil => exact absurd rfl full
    | cons c final => rfl

end Scalar

end SymbolIndex
