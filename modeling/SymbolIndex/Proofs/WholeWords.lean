import SymbolIndex.Proofs.ByteQueries
import SymbolIndex.Proofs.Concatenation
import SymbolIndex.Proofs.Sites

/-! References are whole words. A search from left to right for a name between two word breaks passes
over each run of word characters in one piece: no word breaks inside a run, so the name can only be all
of it, and a match that overlaps an earlier one would have to begin inside a run. -/
namespace SymbolIndex

namespace Text

/-- A run of word characters between two texts that do not go on with it. -/
structure MaximalRun (before run behind : List Char) : Prop where
  nonempty : run ≠ []
  chars : ∀ c ∈ run, isWordChar c = true
  ends : ∀ c, before.getLast? = some c → isWordChar c = false
  starts : ∀ c, behind.head? = some c → isWordChar c = false

/-- Two maximal runs of one text that are the same name are the same or keep apart. -/
theorem MaximalRun.apart {name before behind before' behind' : List Char}
    (first : MaximalRun before name behind) (second : MaximalRun before' name behind')
    (same : before ++ (name ++ behind) = before' ++ (name ++ behind'))
    (reaches : before.length ≤ before'.length) :
    before' = before ∨ before.length + name.length < before'.length := by
  obtain ⟨more, rfl, rest⟩ : ∃ more, before' = before ++ more ∧ name ++ behind = more ++ (name ++ behind') := by
    rcases List.append_eq_append_iff.mp same with ⟨more, whole, rest⟩ | ⟨more, whole, rest⟩
    · exact ⟨more, whole, rest⟩
    · have lengths := congrArg List.length whole
      rw [List.length_append] at lengths
      obtain rfl : more = [] := List.eq_nil_of_length_eq_zero (by omega)
      exact ⟨[], by simpa using whole.symm, by simpa using rest.symm⟩
  obtain rfl | ⟨more, c, rfl⟩ := List.eq_nil_or_concat' more
  · exact .inl (List.append_nil before)
  · apply Or.inr
    by_contra overlaps
    have inName : c ∈ name := by
      rcases List.append_eq_append_iff.mp rest with ⟨z, whole, -⟩ | ⟨z, whole, -⟩
      · have lengths := congrArg List.length whole
        simp only [List.length_append, List.length_singleton] at lengths overlaps
        obtain rfl : z = [] := List.eq_nil_of_length_eq_zero (by omega)
        rw [List.append_nil] at whole
        exact whole ▸ List.mem_append_right more List.mem_cons_self
      · rw [whole]
        exact List.mem_append_left z (List.mem_append_right more List.mem_cons_self)
    have outside := second.ends c (by rw [← List.append_assoc, List.getLast?_concat])
    rw [first.chars c inName] at outside
    cases outside

/-- A text is taken apart by its words: characters outside words, and runs before what does not go on
with them. -/
@[elab_as_elim]
theorem runInduction {motive : List Char → Prop} (nil : motive [])
    (other : ∀ c s, isWordChar c = false → motive s → motive (c :: s))
    (run : ∀ run s, isWord run = true → (∀ c, s.head? = some c → isWordChar c = false) →
      motive s → motive (run ++ s)) (s : List Char) : motive s := by
  cases s with
  | nil => exact nil
  | cons c s =>
    cases word : isWordChar c with
    | false => exact other c s word (runInduction nil other run s)
    | true =>
      have whole : c :: s = (c :: s.takeWhile isWordChar) ++ s.dropWhile isWordChar := by
        rw [List.cons_append, List.takeWhile_append_dropWhile]
      rw [whole]
      refine run _ _ ?_ ?_ (runInduction nil other run (s.dropWhile isWordChar))
      · exact isWord_iff.mpr ⟨List.cons_ne_nil _ _,
          List.forall_mem_cons.mpr ⟨word, fun d member => List.mem_takeWhile_imp member⟩⟩
      · intro d first
        exact Bool.eq_false_iff.mpr fun inWord => by
          have stops := List.head?_dropWhile_not isWordChar s
          rw [first] at stops
          simp [inWord] at stops
termination_by s.length
decreasing_by
  · simp
  · exact Nat.lt_succ_of_le (List.dropWhile_suffix isWordChar).length_le

section Named

variable {name : List Char} (word : isWord name = true)
include word

theorem exists_last_of_isWord : ∃ c, name.getLast? = some c ∧ isWordChar c = true := by
  obtain ⟨nonempty, chars⟩ := isWord_iff.mp word
  exact ⟨_, List.getLast?_eq_some_getLast nonempty, chars _ (List.getLast_mem nonempty)⟩

theorem standsBehind_iff {read s : List Char} :
    standsBehind name read s = true ↔ ∃ behind, s = name ++ behind ∧ MaximalRun read name behind := by
  obtain ⟨nonempty, chars⟩ := isWord_iff.mp word
  obtain ⟨first, rest, begins, inWord⟩ := exists_first_of_isWord word
  obtain ⟨last, final, stillWord⟩ := exists_last_of_isWord word
  constructor
  · intro stands
    unfold standsBehind at stands
    split at stands
    · rename_i behind found
      obtain rfl := afterPrefix?_eq_some_iff.mp found
      refine ⟨behind, rfl, nonempty, chars, ?_, ?_⟩
      · intro c isLast
        rw [isLast, begins] at stands
        simp_all [wordBreak]
      · intro c isFirst
        rw [isFirst, final] at stands
        simp_all [wordBreak]
    · cases stands
  · rintro ⟨behind, rfl, maximal⟩
    have breaks : wordBreak read.getLast? (name ++ behind).head? = true := by
      rw [begins]
      cases ends : read.getLast? with
      | none => simp [wordBreak, inWord]
      | some c => simp [wordBreak, inWord, maximal.ends c ends]
    have breaksBehind : wordBreak name.getLast? behind.head? = true := by
      rw [final]
      cases starts : behind.head? with
      | none => simp [wordBreak, stillWord]
      | some c => simp [wordBreak, stillWord, maximal.starts c starts]
    rw [standsBehind, afterPrefix?_eq_some_iff.mpr rfl]
    exact Bool.and_eq_true_iff.mpr ⟨breaks, breaksBehind⟩

theorem standsBehind_of_other {c : Char} (other : isWordChar c = false) (read s : List Char) :
    standsBehind name read (c :: s) = false := by
  rw [← Bool.not_eq_true, standsBehind_iff word]
  rintro ⟨behind, same, -⟩
  obtain ⟨first, rest, rfl, inWord⟩ := exists_first_of_isWord word
  obtain ⟨rfl, -⟩ := List.cons.inj same
  rw [other] at inWord
  cases inWord

/-- No word begins behind a word character. -/
theorem standsBehind_inside {read : List Char} {last : Char} (final : read.getLast? = some last)
    (inside : isWordChar last = true) (s : List Char) : standsBehind name read s = false := by
  rw [← Bool.not_eq_true, standsBehind_iff word]
  rintro ⟨behind, -, maximal⟩
  have ends := maximal.ends last final
  rw [inside] at ends
  cases ends

theorem wholeWords_of_other {c : Char} (other : isWordChar c = false) (read s : List Char) :
    wholeWords name read 0 (c :: s) = wholeWords name (read ++ [c]) 0 s := by
  rw [wholeWords, standsBehind_of_other word other, if_neg Bool.false_ne_true]

theorem Boundary.ends_of_isWord {a b : List Char} (boundary : Boundary a (name ++ b)) :
    ∀ c, a.getLast? = some c → isWordChar c = false := by
  rcases boundary with ends | starts
  · exact ends
  · obtain ⟨first, rest, rfl, inWord⟩ := exists_first_of_isWord word
    have outside := starts first rfl
    rw [inWord] at outside
    cases outside

theorem Boundary.starts_of_isWord {b : List Char} (boundary : Boundary name b) :
    ∀ c, b.head? = some c → isWordChar c = false := by
  rcases boundary with ends | starts
  · obtain ⟨last, final, inWord⟩ := exists_last_of_isWord word
    have outside := ends last final
    rw [inWord] at outside
    cases outside
  · exact starts

/-- Inside a run nothing matches, whether or not a match has taken some of it. -/
theorem wholeWords_inside {read run : List Char} {last : Char} (final : read.getLast? = some last)
    (inside : isWordChar last = true) (chars : ∀ c ∈ run, isWordChar c = true) {taken : Nat}
    (within : taken ≤ run.length) (s : List Char) :
    wholeWords name read taken (run ++ s) = wholeWords name (read ++ run) 0 s := by
  induction run generalizing read last taken with
  | nil =>
    obtain rfl : taken = 0 := Nat.le_zero.mp within
    rw [List.append_nil, List.nil_append]
  | cons c run ih =>
    obtain ⟨inWord, later⟩ := List.forall_mem_cons.mp chars
    have goesOn {taken : Nat} (within : taken ≤ run.length) :
        wholeWords name (read ++ [c]) taken (run ++ s) = wholeWords name (read ++ c :: run) 0 s := by
      rw [ih List.getLast?_concat inWord later within, List.append_assoc, List.singleton_append]
    rw [List.cons_append]
    cases taken with
    | succ taken => exact goesOn (Nat.le_of_succ_le_succ within)
    | zero =>
      rw [wholeWords, standsBehind_inside word final inside, if_neg Bool.false_ne_true]
      exact goesOn (Nat.zero_le _)

/-- A run is passed in one piece: it is a match if it is the name, and nothing else in it is one. -/
theorem wholeWords_run {read run s : List Char} (isRun : isWord run = true)
    (ends : ∀ c, read.getLast? = some c → isWordChar c = false)
    (starts : ∀ c, s.head? = some c → isWordChar c = false) :
    wholeWords name read 0 (run ++ s) =
      (if run = name then [read] else []) ++ wholeWords name (read ++ run) 0 s := by
  obtain ⟨nonempty, chars⟩ := isWord_iff.mp isRun
  have stands : standsBehind name read (run ++ s) = true ↔ run = name := by
    rw [standsBehind_iff word]
    constructor
    · rintro ⟨behind, same, maximal⟩
      rcases List.append_eq_append_iff.mp same with ⟨more, rfl, rest⟩ | ⟨more, rfl, rest⟩
      · cases more with
        | nil => rw [List.append_nil]
        | cons c more =>
          have outside := starts c (by rw [rest]; rfl)
          rw [maximal.chars c (by simp)] at outside
          cases outside
      · cases more with
        | nil => rw [List.append_nil]
        | cons c more =>
          have outside := maximal.starts c (by rw [rest]; rfl)
          rw [chars c (by simp)] at outside
          cases outside
    · rintro rfl
      exact ⟨s, rfl, nonempty, chars, ends, starts⟩
  obtain ⟨first, rest, rfl, inWord⟩ := exists_first_of_isWord isRun
  have passes {taken : Nat} (within : taken ≤ rest.length) :
      wholeWords name (read ++ [first]) taken (rest ++ s) =
        wholeWords name (read ++ first :: rest) 0 s := by
    rw [wholeWords_inside word List.getLast?_concat inWord (List.forall_mem_cons.mp chars).2 within,
      List.append_assoc, List.singleton_append]
  rw [List.cons_append] at stands ⊢
  rw [wholeWords]
  by_cases same : first :: rest = name
  · have width : name.length - 1 ≤ rest.length := by simp [← same]
    rw [if_pos (stands.mpr same), if_pos same, passes width]
    rfl
  · rw [if_neg (mt stands.mp same), if_neg same, passes (Nat.zero_le _)]
    rfl

/-- At a boundary of words the search can be cut. -/
theorem wholeWords_append {read a b : List Char} (free : Boundary read (a ++ b))
    (boundary : Boundary a b) :
    wholeWords name read 0 (a ++ b) = wholeWords name read 0 a ++ wholeWords name (read ++ a) 0 b := by
  induction a using runInduction generalizing read with
  | nil => rw [List.nil_append, List.append_nil, wholeWords, List.nil_append]
  | other c a outside ih =>
    have next : Boundary (read ++ [c]) (a ++ b) := by
      apply Or.inl
      intro d last
      obtain rfl := Option.some.inj (List.getLast?_concat.symm.trans last)
      exact outside
    rw [List.cons_append, wholeWords_of_other word outside, wholeWords_of_other word outside,
      ih next boundary.of_cons, List.append_assoc, List.singleton_append]
  | run run a isRun starts ih =>
    rw [List.append_assoc] at free
    have ends := Boundary.ends_of_isWord isRun free
    have startsBehind : ∀ c, (a ++ b).head? = some c → isWordChar c = false := by
      cases a with
      | nil => exact Boundary.starts_of_isWord isRun (List.append_nil run ▸ boundary)
      | cons d a => exact starts
    rw [List.append_assoc, wholeWords_run word isRun ends startsBehind,
      wholeWords_run word isRun ends starts, ih (.inr startsBehind) boundary.of_append,
      List.append_assoc, List.append_assoc]

/-- The search finds the maximal runs that are the name, behind all that is read or taken. -/
theorem mem_wholeWords_iff {read s before : List Char} {taken : Nat} :
    before ∈ wholeWords name read taken s ↔
      ∃ behind, read ++ s = before ++ (name ++ behind) ∧ read.length + taken ≤ before.length ∧
        MaximalRun before name behind := by
  induction s generalizing read taken with
  | nil =>
    rw [wholeWords]
    constructor
    · exact nofun
    · rintro ⟨behind, same, reaches, maximal⟩
      have nonempty := List.length_pos_of_ne_nil maximal.nonempty
      have lengths := congrArg List.length same
      simp only [List.length_append, List.length_nil] at lengths
      omega
  | cons c s ih =>
    have onward : read ++ c :: s = read ++ [c] ++ s := by rw [List.append_assoc, List.singleton_append]
    have width : (read ++ [c]).length = read.length + 1 := by rw [List.length_append]; rfl
    cases taken with
    | succ taken =>
      rw [wholeWords, ih, onward, width, Nat.add_right_comm, Nat.add_assoc]
    | zero =>
      rw [wholeWords]
      by_cases stands : standsBehind name read (c :: s) = true
      · rw [if_pos stands, List.mem_cons, ih, onward, width]
        obtain ⟨behind, whole, maximal⟩ := (standsBehind_iff word).mp stands
        constructor
        · rintro (rfl | ⟨behind, same, reaches, maximal⟩)
          · exact ⟨behind, by rw [← onward, whole], Nat.le_refl _, maximal⟩
          · exact ⟨behind, same, by omega, maximal⟩
        · rintro ⟨behind', same, reaches, maximal'⟩
          have both : read ++ (name ++ behind) = before ++ (name ++ behind') := by
            rw [← same, ← onward, whole]
          apply (maximal.apart maximal' both reaches).imp_right
          intro beyond
          exact ⟨behind', same, by omega, maximal'⟩
      · rw [if_neg stands, ih, onward, width]
        constructor
        · rintro ⟨behind, same, reaches, maximal⟩
          exact ⟨behind, same, by omega, maximal⟩
        · rintro ⟨behind, same, reaches, maximal⟩
          refine ⟨behind, same, ?_, maximal⟩
          by_contra here
          have size : read.length = before.length := by omega
          obtain ⟨rfl, rest⟩ := List.append_inj (onward.trans same) size
          exact stands ((standsBehind_iff word).mpr ⟨behind, rest, maximal⟩)

/-- The matches come in the order of the text and keep apart. -/
theorem wholeWords_ordered (read s : List Char) (taken : Nat) :
    (wholeWords name read taken s).Pairwise fun a b => a.length + name.length < b.length := by
  induction s generalizing read taken with
  | nil =>
    rw [wholeWords]
    exact List.Pairwise.nil
  | cons c s ih =>
    cases taken with
    | succ taken => exact ih (read ++ [c]) taken
    | zero =>
      rw [wholeWords]
      by_cases stands : standsBehind name read (c :: s) = true
      · rw [if_pos stands]
        refine List.pairwise_cons.mpr ⟨?_, ih (read ++ [c]) (name.length - 1)⟩
        intro before later
        obtain ⟨behind, whole, maximal⟩ := (standsBehind_iff word).mp stands
        obtain ⟨behind', same, reaches, maximal'⟩ := (mem_wholeWords_iff word).mp later
        rw [List.length_append, List.length_singleton] at reaches
        have both : read ++ (name ++ behind) = before ++ (name ++ behind') := by
          rw [← same, ← whole, List.append_assoc, List.singleton_append]
        rcases maximal.apart maximal' both (by omega) with rfl | beyond
        · omega
        · exact beyond
      · rw [if_neg stands]
        exact ih (read ++ [c]) 0

end Named

end Text

namespace Word

/-- Blanks at the end of a text make no words. -/
theorem runs_append_blanks (column : Nat) (s : List Char) {tail : List Char} (blank : Text.Blanks tail) :
    runs column (s ++ tail) = runs column s := by
  have none (column : Nat) : runs column tail = [] := by
    induction tail generalizing column with
    | nil => rfl
    | cons c tail ih =>
      obtain ⟨first, later⟩ := List.forall_mem_cons.mp blank
      rw [runs_of_other (Text.isWordChar_of_isBlank first), ih later]
  rw [runs_append (.inr blank.head?), none, List.append_nil]

end Word

namespace Span

/-- The stretch that a text takes behind another one. -/
def behind (before text : List Char) : Span :=
  ⟨Position.origin.after before, Position.origin.after (before ++ text)⟩

/-- A stretch that ends before the other one starts, with something between them. -/
def Precedes (a b : Span) : Prop := a.stop.Before b.start

/-- Of two places of one text the one with more before it comes later. -/
theorem behind_precedes {s text before rest before' rest' : List Char}
    (first : s = before ++ (text ++ rest)) (second : s = before' ++ rest')
    (apart : before.length + text.length < before'.length) :
    (behind before text).Precedes (behind before' text) := by
  obtain ⟨more, rfl⟩ : ∃ more, before' = before ++ text ++ more := by
    rcases List.append_eq_append_iff.mp
        ((List.append_assoc before text rest).trans (first.symm.trans second)) with
      ⟨more, whole, -⟩ | ⟨more, whole, -⟩
    · exact ⟨more, whole⟩
    · have lengths := congrArg List.length whole
      simp only [List.length_append] at lengths
      omega
  have nonempty : more ≠ [] := by
    rintro rfl
    simp at apart
  rw [Precedes, behind, behind, Position.after_append _ (before ++ text)]
  exact Position.before_after _ nonempty

end Span

namespace Document

section Named

variable {name : List Char} (word : isWord name = true)
include word

/-- On one line the search finds the words that are the name. -/
theorem wholeWords_of_one_line {read s : List Char} (oneLine : '\n' ∉ s) {number column : Nat}
    (place : Position.origin.after read = ⟨number, column⟩) (free : Text.Boundary read s) :
    (Text.wholeWords name read 0 s).map (Span.behind · name) =
      ((Word.runs column s).filter (·.text == name)).map (·.span number) := by
  induction s using Text.runInduction generalizing read column with
  | nil => rfl
  | other c s outside ih =>
    obtain ⟨single, later⟩ := List.ne_and_not_mem_of_not_mem_cons oneLine
    have next : Position.origin.after (read ++ [c]) = ⟨number, column + 1⟩ := by
      rw [Position.after_append, place, Position.after_of_one_line (by simpa using single)]
      rfl
    rw [Text.wholeWords_of_other word outside, Word.runs_of_other outside]
    apply ih later next
    apply Or.inl
    intro d last
    obtain rfl := Option.some.inj (List.getLast?_concat.symm.trans last)
    exact outside
  | run run s isRun starts ih =>
    have single : '\n' ∉ run := fun newline => oneLine (List.mem_append_left s newline)
    have later : '\n' ∉ s := fun newline => oneLine (List.mem_append_right run newline)
    have next : Position.origin.after (read ++ run) = ⟨number, column + run.length⟩ := by
      rw [Position.after_append, place, Position.after_of_one_line single]
    rw [Text.wholeWords_run word isRun (Text.Boundary.ends_of_isWord isRun free) starts, Word.runs_append (.inr starts),
      Word.runs_of_isWord isRun, List.map_append, ih later next (.inr starts), List.filter_append,
      List.map_append]
    congr 1
    by_cases same : run = name
    · subst same
      simp [Span.behind, place, next, Word.span, Word.stop, Span.onLine]
    · simp [same]

/-- The search finds the references of one line after the other. -/
theorem wholeWords_eq_references {read : List Char} {number : Nat}
    (place : Position.origin.after read = ⟨number, 0⟩) (s : List Char) :
    (Text.wholeWords name read 0 s).map (Span.behind · name) =
      (linesFrom number s).flatMap (·.references name) := by
  have ends {read : List Char} {number : Nat} (place : Position.origin.after read = ⟨number, 0⟩) :
      ∀ c, read.getLast? = some c → Text.isWordChar c = false := by
    intro c last
    have newline := Position.getLast?_of_after (congrArg Position.column place)
      (List.ne_nil_of_mem (List.mem_of_getLast? last))
    rw [last] at newline
    cases newline
    rfl
  have line {raw : List Char} (oneLine : '\n' ∉ raw) {read : List Char} {number : Nat}
      (place : Position.origin.after read = ⟨number, 0⟩) (rest : List Char) :
      (Text.wholeWords name read 0 raw).map (Span.behind · name) =
        (lineOf number raw rest).references name := by
    obtain ⟨terminator, whole, blank⟩ := Text.exists_chomp_append raw
    have words : Word.runs 0 raw = (lineOf number raw rest).words :=
      (congrArg (Word.runs 0) whole).trans (Word.runs_append_blanks 0 _ blank)
    rw [wholeWords_of_one_line word oneLine place (.inl (ends place)), words]
    rfl
  induction s using lineInduction generalizing read number with
  | last raw oneLine =>
    rw [linesFrom_of_one_line oneLine, line oneLine place, List.flatMap_singleton]
  | line raw s oneLine ih =>
    have next : Position.origin.after (read ++ raw ++ ['\n']) = ⟨number + 1, 0⟩ := by
      rw [Position.after_append, Position.after_append, place, Position.after_of_one_line oneLine]
      rfl
    have boundary : Text.Boundary raw ('\n' :: s) := by
      apply Or.inr
      rintro c ⟨⟩
      rfl
    rw [linesFrom_line_append oneLine, List.flatMap_cons,
      Text.wholeWords_append word (.inl (ends place)) boundary,
      Text.wholeWords_of_other word rfl, List.map_append, line oneLine place, ih next]

end Named

theorem references_eq_wholeWords {name : List Char} (word : isWord name = true) (d : Document) :
    d.references name = (Text.wholeWords name [] 0 d.chars).map (Span.behind · name) :=
  (wholeWords_eq_references word rfl d.chars).symm

theorem mem_references_iff (d : Document) (name : List Char) (span : Span) :
    span ∈ d.references name ↔
      ∃ before behind, d.chars = before ++ (name ++ behind) ∧ Text.MaximalRun before name behind ∧
        span = Span.behind before name := by
  by_cases word : isWord name = true
  · rw [references_eq_wholeWords word, List.mem_map]
    constructor
    · rintro ⟨before, found, rfl⟩
      obtain ⟨behind, text, -, maximal⟩ := (Text.mem_wholeWords_iff word).mp found
      exact ⟨before, behind, text, maximal, rfl⟩
    · rintro ⟨before, behind, text, maximal, rfl⟩
      exact ⟨before, (Text.mem_wholeWords_iff word).mpr ⟨behind, text, Nat.zero_le _, maximal⟩, rfl⟩
  · rw [Bytewise.references_of_not_isWord word]
    constructor
    · exact nofun
    · rintro ⟨before, behind, -, maximal, -⟩
      exact absurd (isWord_iff.mpr ⟨maximal.nonempty, maximal.chars⟩) word

theorem references_ordered (d : Document) (name : List Char) :
    (d.references name).Pairwise Span.Precedes := by
  by_cases word : isWord name = true
  · rw [references_eq_wholeWords word, List.pairwise_map]
    apply (Text.wholeWords_ordered word [] d.chars 0).imp_of_mem
    intro a b found found' apart
    obtain ⟨behind, text, -⟩ := (Text.mem_wholeWords_iff word).mp found
    obtain ⟨behind', text', -⟩ := (Text.mem_wholeWords_iff word).mp found'
    exact Span.behind_precedes text text' apart
  · rw [Bytewise.references_of_not_isWord word]
    exact List.Pairwise.nil

/-- The references in two texts, one below the other, are those in the first and those in the second,
further down by the lines of the first. -/
theorem references_below (name a b : List Char) :
    references ⟨a ++ '\n' :: b⟩ name =
      references ⟨a⟩ name ++ (references ⟨b⟩ name).map (Span.down (Document.mk a).lines.length) := by
  have above (l : Line) : (l.extend ('\n' :: b)).references name = l.references name := rfl
  have below (l : Line) : (l.down (a.count '\n' + 1)).references name =
      (l.references name).map (Span.down (a.count '\n' + 1)) := by
    rw [Line.references, Line.references, List.map_map]
    rfl
  rw [length_lines, references, lines_eq_linesFrom, linesFrom_append, linesFrom_add,
    List.flatMap_append, List.flatMap_map, List.flatMap_map]
  simp only [above, below]
  rw [← List.map_flatMap]
  rfl

end Document

namespace Bytewise

/-- The search by byte offsets cuts no character, and finds the references. -/
theorem wholeWords_eq (d : Document) (name : List Char) :
    wholeWords d.chars name = .ok (d.references name) := by
  rw [wholeWords]
  by_cases word : isWord name = true
  · rw [if_pos word, Document.references_eq_wholeWords word]
    apply mapM_eq_ok
    intro before found
    obtain ⟨behind, text, -⟩ := (Text.mem_wholeWords_iff word).mp found
    have whole : d.chars = before ++ name ++ behind := by rw [List.append_assoc]; exact text
    dsimp only
    rw [← Text.byteLength_append, LineIndex.span, LineIndex.position_eq d text,
      LineIndex.position_eq d whole]
    rfl
  · rw [if_neg word, references_of_not_isWord word]

end Bytewise

/-- The references to a name are the maximal runs of word characters that equal it, in the order of the
document and each once; a name that is no word has none. They are what a search from left to right
for the name between word breaks finds, with its byte offsets turned into positions. Of texts one
below the other, the references are those in each, further down in the second. -/
theorem references_are_whole_words (d : Document) (name : List Char) :
    (∀ span, span ∈ d.references name ↔
      ∃ before behind, d.chars = before ++ (name ++ behind) ∧ Text.MaximalRun before name behind ∧
        span = Span.behind before name) ∧
    (d.references name).Pairwise Span.Precedes ∧
    (isWord name = false → d.references name = []) ∧
    Bytewise.wholeWords d.chars name = .ok (d.references name) ∧
    ∀ a b, d.chars = a ++ '\n' :: b → d.references name =
      Document.references ⟨a⟩ name ++
        (Document.references ⟨b⟩ name).map (Span.down (Document.mk a).lines.length) := by
  refine ⟨d.mem_references_iff name, d.references_ordered name, ?_, Bytewise.wholeWords_eq d name, ?_⟩
  · intro other
    exact Bytewise.references_of_not_isWord (Bool.not_eq_true _ |>.mpr other) d
  · intro a b text
    obtain ⟨chars⟩ := d
    subst text
    exact Document.references_below name a b

/-- A text where a name overlaps itself and stands inside longer words. -/
def overlapping : Document := .ofString "ana anana\r\nana.ana été"

/-- The longer word is passed over, and a name that is no word is not found although it is there. -/
theorem references_in_overlapping :
    overlapping.references "ana".toList =
      Document.references (.ofString "ana anana\r") "ana".toList ++
        (Document.references (.ofString "ana.ana été") "ana".toList).map (Span.down 1) ∧
    overlapping.references "ana".toList =
      [Span.onLine 0 0 3, Span.onLine 1 0 3, Span.onLine 1 4 7] ∧
    overlapping.references "ana.ana".toList = [] :=
  ⟨(references_are_whole_words overlapping "ana".toList).2.2.2.2 "ana anana\r".toList
      "ana.ana été".toList (by decide +kernel), by decide +kernel,
    (references_are_whole_words overlapping "ana.ana".toList).2.2.1 (by decide +kernel)⟩

end SymbolIndex
