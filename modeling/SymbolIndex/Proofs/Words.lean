import SymbolIndex.Proofs.Declarations
import SymbolIndex.Reference

/-! Words are the maximal runs of word characters. A text can be cut at every boundary of words, and
its words are those of the two parts. So a run between two boundaries is a word of its line; it is a
reference to itself, and a cursor that touches it touches no word before it. -/
namespace SymbolIndex

namespace Text

theorem isWordChar_of_isNameChar {c : Char} (named : isNameChar c = true) : isWordChar c = true := by
  have bounds := bounds_of_isNameChar named
  have ascii : c.toNat < 128 := by omega
  simp [isWordChar, ascii, named]

/-- The blanks beyond ASCII lie between the ranges of word characters. -/
private theorem ranges_miss_blanks :
    (alphabeticRanges ++ (markRanges ++ (decimalRanges ++ (connectorRanges ++ joinControlRanges)))).all
      (fun range => [(0x85, 0x85), (0xA0, 0xA0), (0x1680, 0x1680), (0x2000, 0x200A), (0x2028, 0x2029),
        (0x202F, 0x202F), (0x205F, 0x205F), (0x3000, 0x3000)].all
          fun blanks => range.2 < blanks.1 || blanks.2 < range.1) = true := by
  decide +kernel

theorem isWordChar_of_isBlank {c : Char} (blank : isBlank c = true) : isWordChar c = false := by
  rw [← Bool.not_eq_true]
  intro word
  by_cases ascii : c.toNat < 128
  · rw [isWordChar, if_pos ascii] at word
    rw [isBlank_of_isNameChar word] at blank
    cases blank
  · have inside : ∃ range ∈ alphabeticRanges ++
        (markRanges ++ (decimalRanges ++ (connectorRanges ++ joinControlRanges))),
        range.1 ≤ c.toNat ∧ c.toNat ≤ range.2 := by
      rw [isWordChar, if_neg ascii] at word
      simpa only [inRanges, ← List.any_append, List.any_eq_true, Bool.and_eq_true, decide_eq_true_eq,
        List.append_assoc] using word
    obtain ⟨range, member, low, high⟩ := inside
    have misses := List.all_eq_true.mp ranges_miss_blanks range member
    simp only [List.all_cons, List.all_nil, Bool.and_true, Bool.and_eq_true, Bool.or_eq_true,
      decide_eq_true_eq] at misses
    simp only [isBlank, Bool.or_eq_true, Bool.and_eq_true, decide_eq_true_eq, beq_iff_eq] at blank
    omega

/-- A text with a known character in it begins with that one or with one before it. -/
theorem head?_append_cons {a s : List Char} {c d : Char} (first : (a ++ c :: s).head? = some d) :
    d ∈ a ∨ d = c := by
  cases a with
  | nil => exact .inr (Option.some.inj first).symm
  | cons e a =>
    obtain rfl := Option.some.inj first
    exact .inl List.mem_cons_self

/-- A place between two texts that no word goes over. -/
def Boundary (a b : List Char) : Prop :=
  (∀ c, a.getLast? = some c → isWordChar c = false) ∨
    ∀ c, b.head? = some c → isWordChar c = false

theorem boundary_nil (b : List Char) : Boundary [] b := .inl nofun

theorem Boundary.of_cons {c : Char} {a b : List Char} (boundary : Boundary (c :: a) b) :
    Boundary a b := by
  apply boundary.imp_left
  intro ends d last
  apply ends
  rw [List.getLast?_cons, last]
  rfl

theorem Boundary.of_append {a b c : List Char} (boundary : Boundary (a ++ b) c) : Boundary b c := by
  induction a with
  | nil => exact boundary
  | cons d a ih => exact ih boundary.of_cons

/-- More text before a boundary changes nothing if it ends outside words itself. -/
theorem Boundary.append_left {a b : List Char} (boundary : Boundary a b) {more : List Char}
    (ends : ∀ c, more.getLast? = some c → isWordChar c = false) : Boundary (more ++ a) b := by
  cases a with
  | nil =>
    rw [List.append_nil]
    exact .inl ends
  | cons c a =>
    apply boundary.imp_left
    intro inside d last
    rw [List.getLast?_append] at last
    apply inside
    simpa using last

/-- More text behind a boundary changes nothing if it starts outside words itself. -/
theorem Boundary.append_right {a b : List Char} (boundary : Boundary a b) {more : List Char}
    (starts : ∀ c, more.head? = some c → isWordChar c = false) : Boundary a (b ++ more) := by
  cases b with
  | nil => exact .inr starts
  | cons c b => exact boundary.imp_right id

end Text

theorem isWord_iff {text : List Char} :
    isWord text = true ↔ text ≠ [] ∧ ∀ c ∈ text, Text.isWordChar c = true := by
  simp [isWord]

/-- Declared names are words. -/
theorem isWord_of_nameChars {name : List Char} (nonempty : name ≠ [])
    (chars : ∀ c ∈ name, Text.isNameChar c = true) : isWord name = true :=
  isWord_iff.mpr ⟨nonempty, fun c member => Text.isWordChar_of_isNameChar (chars c member)⟩

namespace Text

theorem exists_first_of_isWord {name : List Char} (word : isWord name = true) :
    ∃ c rest, name = c :: rest ∧ isWordChar c = true := by
  obtain ⟨nonempty, chars⟩ := isWord_iff.mp word
  obtain ⟨c, rest, rfl⟩ := List.exists_cons_of_ne_nil nonempty
  exact ⟨c, rest, rfl, chars c List.mem_cons_self⟩

/-- A name stands at a column of a text, as a word of its own. -/
def HasWord (s : List Char) (column : Nat) (name : List Char) : Prop :=
  ∃ a b, s = a ++ (name ++ b) ∧ a.length = column ∧ isWord name = true ∧ Boundary a name ∧
    Boundary name b

theorem HasWord.le_length {s name : List Char} {column : Nat} (has : HasWord s column name) :
    column + name.length ≤ s.length := by
  obtain ⟨a, b, rfl, rfl, -⟩ := has
  rw [List.length_append, List.length_append]
  omega

/-- A word stays a word behind a text that ends outside words. -/
theorem HasWord.append_left {s name : List Char} {column : Nat} (has : HasWord s column name)
    {more : List Char} (ends : ∀ c, more.getLast? = some c → isWordChar c = false) :
    HasWord (more ++ s) (more.length + column) name := by
  obtain ⟨a, b, rfl, rfl, word, before, behind⟩ := has
  exact ⟨more ++ a, b, (List.append_assoc ..).symm, List.length_append, word, before.append_left ends,
    behind⟩

/-- A word stays a word before a text that starts outside words. -/
theorem HasWord.append_right {s name : List Char} {column : Nat} (has : HasWord s column name)
    {more : List Char} (starts : ∀ c, more.head? = some c → isWordChar c = false) :
    HasWord (s ++ more) column name := by
  obtain ⟨a, b, rfl, rfl, word, before, behind⟩ := has
  exact ⟨a, b ++ more, by simp, rfl, word, before, behind.append_right starts⟩

/-- Blanks end outside words. -/
theorem Blanks.getLast? {s : List Char} (blank : Blanks s) :
    ∀ c, s.getLast? = some c → isWordChar c = false :=
  fun c last => isWordChar_of_isBlank (blank c (List.mem_of_getLast? last))

/-- Blanks start outside words. -/
theorem Blanks.head? {s : List Char} (blank : Blanks s) :
    ∀ c, s.head? = some c → isWordChar c = false :=
  fun c first => isWordChar_of_isBlank (blank c (List.mem_of_head? first))

/-- A word of a trimmed text is one of the text, behind its indentation. -/
theorem HasWord.of_trim {s name : List Char} {column : Nat} (has : HasWord (trim s) column name) :
    HasWord s ((indent s).length + column) name := by
  obtain ⟨tail, whole, blank⟩ := exists_trim_append s
  have behind := (has.append_left (blanks_indent s).getLast?).append_right blank.head?
  rwa [← whole] at behind

end Text

namespace Word

theorem runs_cons (column : Nat) (c : Char) (s : List Char) :
    runs column (c :: s) = extend (c, column) (runs (column + 1) s) := by
  simp [runs, List.zipIdx_cons]

theorem runs_of_other {c : Char} (other : Text.isWordChar c = false) (column : Nat) (s : List Char) :
    runs column (c :: s) = runs (column + 1) s := by
  simp [runs_cons, extend, other]

/-- A word character begins a word, or begins the first word that there was earlier. -/
theorem extend_of_word {c : Char} (word : Text.isWordChar c = true) (column : Nat) (words : List Word) :
    extend (c, column) words = ⟨column, [c]⟩ :: words ∨
      ∃ w later, words = w :: later ∧ w.column = column + 1 ∧
        extend (c, column) words = ⟨column, c :: w.text⟩ :: later := by
  cases words with
  | nil => simp [extend, word]
  | cons w later =>
    by_cases next : w.column = column + 1
    · exact .inr ⟨w, later, rfl, next, by simp [extend, word, next]⟩
    · exact .inl (by simp [extend, word, next])

theorem le_column {column : Nat} {s : List Char} {w : Word} (member : w ∈ runs column s) :
    column ≤ w.column := by
  induction s generalizing column with
  | nil => cases member
  | cons c s ih =>
    cases word : Text.isWordChar c with
    | false =>
      rw [runs_of_other word] at member
      exact Nat.le_of_succ_le (ih member)
    | true =>
      rw [runs_cons] at member
      rcases extend_of_word word column (runs (column + 1) s) with starts | ⟨v, later, rest, _, joins⟩
      · rw [starts] at member
        rcases List.mem_cons.mp member with rfl | member
        · exact Nat.le_refl _
        · exact Nat.le_of_succ_le (ih member)
      · rw [joins] at member
        rcases List.mem_cons.mp member with rfl | member
        · exact Nat.le_refl _
        · exact Nat.le_of_succ_le (ih (rest ▸ List.mem_cons_of_mem v member))

/-- A word of a text is a part of it, at its column. -/
theorem exists_split_of_mem {column : Nat} {s : List Char} {w : Word} (member : w ∈ runs column s) :
    ∃ a b, s = a ++ (w.text ++ b) ∧ column + a.length = w.column ∧ isWord w.text = true := by
  induction s generalizing column w with
  | nil => cases member
  | cons c s ih =>
    have later {v : Word} (inside : v ∈ runs (column + 1) s) :
        ∃ a b, c :: s = a ++ (v.text ++ b) ∧ column + a.length = v.column ∧ isWord v.text = true := by
      obtain ⟨a, b, rfl, place, isRun⟩ := ih inside
      refine ⟨c :: a, b, rfl, ?_, isRun⟩
      rw [List.length_cons]
      omega
    cases word : Text.isWordChar c with
    | false =>
      rw [runs_of_other word] at member
      exact later member
    | true =>
      rw [runs_cons] at member
      rcases extend_of_word word column (runs (column + 1) s) with starts | ⟨v, rest, whole, next, joins⟩
      · rw [starts] at member
        rcases List.mem_cons.mp member with rfl | member
        · exact ⟨[], s, rfl, rfl, by simp [isWord, word]⟩
        · exact later member
      · rw [joins] at member
        rcases List.mem_cons.mp member with rfl | member
        · obtain ⟨a, b, text, place, isRun⟩ := ih (whole ▸ List.mem_cons_self)
          obtain rfl : a = [] := List.eq_nil_of_length_eq_zero (by omega)
          refine ⟨[], b, congrArg (c :: ·) text, rfl, ?_⟩
          exact isWord_iff.mpr ⟨List.cons_ne_nil c v.text,
            List.forall_mem_cons.mpr ⟨word, (isWord_iff.mp isRun).2⟩⟩
        · exact later (whole ▸ List.mem_cons_of_mem v member)

/-- What ends outside words has a place left behind each of its words. -/
theorem stop_lt {column : Nat} {s : List Char}
    (ends : ∀ c, s.getLast? = some c → Text.isWordChar c = false) {w : Word}
    (member : w ∈ runs column s) : w.stop < column + s.length := by
  induction s generalizing column w with
  | nil => cases member
  | cons c s ih =>
    have endsLater (d : Char) (last : s.getLast? = some d) : Text.isWordChar d = false := by
      apply ends
      rw [List.getLast?_cons, last]
      rfl
    have later {v : Word} (inside : v ∈ runs (column + 1) s) : v.stop < column + (c :: s).length := by
      have before := ih endsLater inside
      rw [List.length_cons]
      omega
    cases word : Text.isWordChar c with
    | false =>
      rw [runs_of_other word] at member
      exact later member
    | true =>
      have more : 0 < s.length := by
        cases s with
        | nil =>
          have other := ends c rfl
          rw [word] at other
          cases other
        | cons d s => simp
      rw [runs_cons] at member
      rcases extend_of_word word column (runs (column + 1) s) with starts | ⟨v, rest, whole, next, joins⟩
      · rw [starts] at member
        rcases List.mem_cons.mp member with rfl | member
        · simpa [stop] using more
        · exact later member
      · rw [joins] at member
        rcases List.mem_cons.mp member with rfl | member
        · have before := later (whole ▸ List.mem_cons_self)
          simp only [stop, next, List.length_cons] at before ⊢
          omega
        · exact later (whole ▸ List.mem_cons_of_mem v member)

/-- Behind a boundary the words do not join a word character that stands before it. -/
private theorem lt_column_of_boundary {c : Char} (word : Text.isWordChar c = true) {a b : List Char}
    (boundary : Text.Boundary (c :: a) b) {column : Nat} {w : Word}
    (member : w ∈ runs (column + 1 + a.length) b) : column + 1 < w.column := by
  have least := le_column member
  cases a with
  | cons d a =>
    rw [List.length_cons] at least
    omega
  | nil =>
    cases b with
    | nil => cases member
    | cons d b =>
      have other : Text.isWordChar d = false := by
        rcases boundary with ends | starts
        · have never := ends c rfl
          rw [word] at never
          cases never
        · exact starts d rfl
      rw [runs_of_other other] at member
      exact le_column member

/-- At a boundary a text can be cut, and its words are those of the parts. -/
theorem runs_append {a b : List Char} (boundary : Text.Boundary a b) (column : Nat) :
    runs column (a ++ b) = runs column a ++ runs (column + a.length) b := by
  induction a generalizing column with
  | nil => rfl
  | cons c a ih =>
    have lengths : column + (c :: a).length = column + 1 + a.length := by
      rw [List.length_cons]
      omega
    have both := ih boundary.of_cons (column + 1)
    rw [List.cons_append, lengths]
    cases word : Text.isWordChar c with
    | false => rw [runs_of_other word, runs_of_other word, both]
    | true =>
      rw [runs_cons, runs_cons, both]
      cases inside : runs (column + 1) a with
      | cons v later =>
        by_cases next : v.column = column + 1 <;> simp [extend, word, next]
      | nil =>
        cases behind : runs (column + 1 + a.length) b with
        | nil => simp [extend, word]
        | cons w later =>
          have apart := lt_column_of_boundary word boundary (behind ▸ List.mem_cons_self)
          have other : w.column ≠ column + 1 := by omega
          simp [extend, word, other]

/-- A run of word characters is one word. -/
theorem runs_of_isWord {text : List Char} (word : isWord text = true) (column : Nat) :
    runs column text = [⟨column, text⟩] := by
  obtain ⟨nonempty, chars⟩ := isWord_iff.mp word
  induction text generalizing column with
  | nil => exact absurd rfl nonempty
  | cons c text ih =>
    obtain ⟨first, others⟩ := List.forall_mem_cons.mp chars
    rw [runs_cons]
    cases text with
    | nil => simp [runs, extend, first]
    | cons d text =>
      rw [ih (isWord_iff.mpr ⟨List.cons_ne_nil d text, others⟩) (column + 1)
        (List.cons_ne_nil d text) others]
      simp [extend, first]

/-- Between two boundaries a run of word characters is a word, and the words before it end before
it. -/
theorem runs_of_word {a text b : List Char} (word : isWord text = true)
    (before : Text.Boundary a text) (behind : Text.Boundary text b) (column : Nat) :
    ∃ earlier later, runs column (a ++ (text ++ b)) = earlier ++ ⟨column + a.length, text⟩ :: later ∧
      ∀ w ∈ earlier, w.stop < column + a.length := by
  obtain ⟨nonempty, chars⟩ := isWord_iff.mp word
  obtain ⟨c, text', rfl⟩ := List.exists_cons_of_ne_nil nonempty
  have first := chars c List.mem_cons_self
  have ends : ∀ d, a.getLast? = some d → Text.isWordChar d = false := by
    rcases before with ends | starts
    · exact ends
    · have never := starts c rfl
      rw [first] at never
      cases never
  refine ⟨runs column a, runs (column + a.length + (c :: text').length) b, ?_, fun w => stop_lt ends⟩
  rw [runs_append (.inl ends), runs_append behind, runs_of_isWord word]
  rfl

end Word

namespace Line

section HasWord

variable {l : Line} {column : Nat} {name : List Char} (has : Text.HasWord l.content column name)
include has

theorem words_of_hasWord : ∃ earlier later, l.words = earlier ++ ⟨column, name⟩ :: later ∧
    ∀ w ∈ earlier, w.stop < column := by
  obtain ⟨a, b, content, rfl, word, before, behind⟩ := has
  obtain ⟨earlier, later, words, ends⟩ := Word.runs_of_word word before behind 0
  rw [Nat.zero_add] at words ends
  refine ⟨earlier, later, ?_, ends⟩
  rw [Line.words, content]
  exact words

/-- A name that stands on a line as a word is a reference of the line to it. -/
theorem mem_references_of_hasWord :
    Span.onLine l.number column (column + name.length) ∈ l.references name := by
  obtain ⟨earlier, later, words, -⟩ := words_of_hasWord has
  rw [references, words]
  refine List.mem_map.mpr ⟨⟨column, name⟩, List.mem_filter.mpr ⟨?_, by simp⟩, rfl⟩
  exact List.mem_append_right _ List.mem_cons_self

/-- The first word that a cursor touches is the one that it was put on. -/
theorem find?_of_hasWord {cursor : Nat} (low : column ≤ cursor)
    (high : cursor ≤ column + name.length) :
    l.words.find? (·.touches cursor) = some ⟨column, name⟩ := by
  obtain ⟨earlier, later, words, ends⟩ := words_of_hasWord has
  have untouched : earlier.find? (·.touches cursor) = none := by
    rw [List.find?_eq_none]
    intro w member
    have before := ends w member
    simp only [Word.touches, Bool.and_eq_true, decide_eq_true_eq, not_and, Nat.not_le]
    intro _
    omega
  rw [words, List.find?_append, untouched, Option.none_or, List.find?_cons_of_pos]
  simp [Word.touches, Word.stop, low, high]

end HasWord

end Line

namespace Document

section HasWord

variable {d : Document} {l : Line} (member : l ∈ d.lines) {column : Nat} {name : List Char}
  (has : Text.HasWord l.content column name)
include member has

theorem mem_references_of_hasWord :
    Span.onLine l.number column (column + name.length) ∈ d.references name :=
  List.mem_flatMap.mpr ⟨l, member, Line.mem_references_of_hasWord has⟩

theorem wordAt?_of_hasWord {cursor : Nat} (low : column ≤ cursor)
    (high : cursor ≤ column + name.length) :
    d.wordAt? ⟨l.number, cursor⟩ =
      some (name, Span.onLine l.number column (column + name.length)) := by
  have fits := has.le_length
  have inside : min cursor l.content.length = cursor := by omega
  rw [wordAt?, line?_of_mem member, Option.bind_some]
  dsimp only
  rw [inside, Line.find?_of_hasWord has low high]
  rfl

end HasWord

/-- A whole word of a document that is the name: where it stands, and the text before and behind
it. -/
structure Occurrence (d : Document) (name : List Char) (span : Span) (before behind : List Char) :
    Prop where
  starts : d.UpTo span.start before (name ++ behind)
  stops : d.UpTo span.stop (before ++ name) behind
  word : isWord name = true
  free : Text.Boundary before name
  freeBehind : Text.Boundary name behind

/-- A span covers one occurrence at most. -/
theorem Occurrence.unique {d : Document} {name : List Char} {span : Span}
    {before behind before' behind' : List Char} (first : d.Occurrence name span before behind)
    (second : d.Occurrence name span before' behind') : before = before' := by
  have same := first.starts.offset.symm.trans second.starts.offset
  have found := first.starts.beginning?
  rw [Option.some.inj same, second.starts.beginning?] at found
  exact (Option.some.inj found).symm

section Margins

variable {d : Document} {l : Line} (member : l ∈ d.lines)
include member

/-- The text above a line ends outside words. -/
theorem above_ends : ∀ c, (d.above l).getLast? = some c → Text.isWordChar c = false := by
  intro c last
  have start := congrArg Position.column (after_above member)
  have newline := Position.getLast?_of_after start (List.ne_nil_of_mem (List.mem_of_getLast? last))
  rw [last] at newline
  cases newline
  rfl

/-- What follows the content of a line starts outside words. -/
theorem terminator_starts {tail : List Char} (onward : l.onward = l.content ++ tail) :
    ∀ c, tail.head? = some c → Text.isWordChar c = false := by
  obtain ⟨terminator, rest, whole, -, blank, ends⟩ := exists_terminator member
  rw [onward, List.append_assoc] at whole
  obtain rfl : tail = terminator ++ rest := List.append_cancel_left whole
  intro c first
  cases terminator with
  | cons t terminator =>
    obtain rfl := Option.some.inj first
    exact Text.isWordChar_of_isBlank (blank _ List.mem_cons_self)
  | nil =>
    rcases ends with rfl | ⟨later, rfl⟩
    · cases first
    · cases first
      rfl

/-- What a line begins with is in its content, up to its terminator. -/
theorem content_of_onward {a b : List Char} (onward : l.onward = a ++ b) (oneLine : '\n' ∉ a)
    (bare : ∀ c, a.getLast? = some c → Text.isBlank c = false) :
    ∃ rest tail, l.content = a ++ rest ∧ b = rest ++ tail := by
  obtain ⟨terminator, after, cut, -, blank, ends⟩ := exists_terminator member
  rw [onward] at cut
  obtain ⟨rest, line, behind⟩ : ∃ rest, l.content ++ terminator = a ++ rest ∧ b = rest ++ after := by
    rcases ends with rfl | ⟨later, rfl⟩
    · exact ⟨b, by simpa using cut.symm, by simp⟩
    · exact Text.prefix_of_not_mem cut oneLine
  rcases List.append_eq_append_iff.mp line.symm with ⟨inside, kept, cutOff⟩ | ⟨beyond, text, cutOff⟩
  · exact ⟨inside, terminator ++ after, kept, by rw [behind, cutOff, List.append_assoc]⟩
  · obtain rfl | ⟨beyond, c, rfl⟩ := List.eq_nil_or_concat' beyond
    · exact ⟨[], b, by simpa using text.symm, rfl⟩
    · have inside : c ∈ terminator := by simp [cutOff]
      have last := bare c (by rw [text, ← List.append_assoc, List.getLast?_concat])
      rw [blank c inside] at last
      cases last

/-- A word of a line is one of the document. -/
theorem occurrence_of_hasWord {column : Nat} {name : List Char} (has : Text.HasWord l.content column name) :
    ∃ before behind,
      d.Occurrence name (Span.onLine l.number column (column + name.length)) before behind := by
  obtain ⟨a, b, content, rfl, word, free, freeBehind⟩ := has
  obtain ⟨tail, starts, onward⟩ := upTo_prefix member content
  obtain ⟨tail', stops, onward'⟩ := upTo_prefix member (content.trans (List.append_assoc ..).symm)
  have same : tail = tail' := by
    have both := onward.symm.trans onward'
    simpa using both
  subst same
  rw [List.append_assoc] at starts
  rw [List.length_append, ← List.append_assoc] at stops
  have whole : l.onward = l.content ++ tail := by simp [onward, content]
  have ends := terminator_starts member whole
  exact ⟨d.above l ++ a, b ++ tail, starts, stops, word, free.append_left (above_ends member),
    freeBehind.append_right ends⟩

end Margins

end Document

end SymbolIndex
