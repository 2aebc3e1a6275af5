import SymbolIndex.Proofs.WholeWords

/-! The word under a cursor. The words of a line are the longest runs of word characters on it, and these
are those of the whole document that lie on the line, since no word goes over a terminator. Between two
runs there is a character that belongs to neither, so a cursor touches one run at most: it is the word
found there, it is a reference to itself, and no other way leads to it. -/
namespace SymbolIndex

namespace Text

theorem MaximalRun.boundary {before run behind : List Char} (maximal : MaximalRun before run behind) :
    isWord run = true ∧ Boundary before run ∧ Boundary run behind :=
  ⟨isWord_iff.mpr ⟨maximal.nonempty, maximal.chars⟩, .inl maximal.ends, .inr maximal.starts⟩

/-- More text before a run changes nothing if it ends outside words, or the run does not begin the text. -/
theorem MaximalRun.append_left {before run behind : List Char} (maximal : MaximalRun before run behind)
    {more : List Char}
    (apart : before = [] → ∀ c, more.getLast? = some c → isWordChar c = false) :
    MaximalRun (more ++ before) run behind := by
  refine { maximal with ends := ?_ }
  intro c last
  rcases List.eq_nil_or_concat' before with rfl | ⟨front, d, rfl⟩
  · rw [List.append_nil] at last
    exact apart rfl c last
  · rw [← List.append_assoc, List.getLast?_concat] at last
    exact maximal.ends c (List.getLast?_concat.trans last)

end Text

namespace Word

/-- The words of a text are longest runs of word characters. -/
theorem maximal_of_mem {column : Nat} {s : List Char} {w : Word} (member : w ∈ runs column s) :
    ∃ before behind, s = before ++ (w.text ++ behind) ∧ column + before.length = w.column ∧
      Text.MaximalRun before w.text behind := by
  induction s using Text.runInduction generalizing column with
  | nil => cases member
  | other c s outside ih =>
    rw [runs_of_other outside] at member
    obtain ⟨before, behind, rfl, place, maximal⟩ := ih member
    refine ⟨c :: before, behind, rfl, by rw [List.length_cons]; omega, ?_⟩
    have apart : before = [] → ∀ d, [c].getLast? = some d → Text.isWordChar d = false := by
      rintro - d ⟨⟩
      exact outside
    exact maximal.append_left apart
  | run run s isRun starts ih =>
    obtain ⟨nonempty, chars⟩ := isWord_iff.mp isRun
    rw [runs_append (.inr starts), runs_of_isWord isRun, List.singleton_append] at member
    rcases List.mem_cons.mp member with rfl | later
    · exact ⟨[], s, rfl, rfl, nonempty, chars, nofun, starts⟩
    · obtain ⟨before, behind, rfl, place, maximal⟩ := ih later
      refine ⟨run ++ before, behind, by rw [List.append_assoc], ?_, maximal.append_left ?_⟩
      · rw [List.length_append]
        omega
      · -- The run would go on with this word.
        rintro rfl
        obtain ⟨first, rest, begins, inWord⟩ := Text.exists_first_of_isWord maximal.boundary.1
        have outside := starts first (by rw [begins]; rfl)
        rw [inWord] at outside
        cases outside

end Word

namespace Line

/-- A longest run of word characters on a line that a cursor touches, with what stands before it and
behind it there. -/
structure RunAt (l : Line) (cursor : Nat) (before run behind : List Char) : Prop where
  content : l.content = before ++ (run ++ behind)
  maximal : Text.MaximalRun before run behind
  low : before.length ≤ cursor
  high : cursor ≤ before.length + run.length

theorem RunAt.hasWord {l : Line} {cursor : Nat} {before run behind : List Char}
    (touches : l.RunAt cursor before run behind) : Text.HasWord l.content before.length run :=
  ⟨before, behind, touches.content, rfl, touches.maximal.boundary⟩

/-- A cursor touches one run at most. -/
theorem RunAt.unique {l : Line} {cursor : Nat} {before run behind before' run' behind' : List Char}
    (touches : l.RunAt cursor before run behind) (touches' : l.RunAt cursor before' run' behind') :
    before = before' ∧ run = run' ∧ behind = behind' := by
  have found := find?_of_hasWord touches.hasWord touches.low touches.high
  rw [find?_of_hasWord touches'.hasWord touches'.low touches'.high] at found
  obtain ⟨place, rfl⟩ := Word.mk.inj (Option.some.inj found)
  have same := touches.content.symm.trans touches'.content
  obtain ⟨rfl, rest⟩ := List.append_inj same place.symm
  exact ⟨rfl, rfl, List.append_cancel_left rest⟩

end Line

namespace Document

variable {d : Document} {name : List Char} {span : Span}

/-- A reference is a longest run of word characters on a line. -/
theorem maximal_of_mem_references (member : span ∈ d.references name) :
    ∃ l ∈ d.lines, ∃ before behind, l.content = before ++ (name ++ behind) ∧
      Text.MaximalRun before name behind ∧
      span = Span.onLine l.number before.length (before.length + name.length) := by
  obtain ⟨l, inside, found⟩ := List.mem_flatMap.mp member
  obtain ⟨w, named, rfl⟩ := List.mem_map.mp found
  obtain ⟨among, same⟩ := List.mem_filter.mp named
  obtain rfl : w.text = name := eq_of_beq same
  obtain ⟨before, behind, content, place, maximal⟩ := Word.maximal_of_mem among
  rw [Nat.zero_add] at place
  refine ⟨l, inside, before, behind, content, maximal, ?_⟩
  rw [Word.span, Word.stop, place]

/-- The word under a cursor is the run that the cursor touches. -/
theorem wordAt?_eq_some_iff {p : Position} :
    d.wordAt? p = some (name, span) ↔ ∃ l before behind, d.line? p.line = some l ∧
      l.RunAt (min p.column l.content.length) before name behind ∧
      span = Span.onLine p.line before.length (before.length + name.length) := by
  constructor
  · intro found
    obtain ⟨l, line, found⟩ := Option.bind_eq_some_iff.mp found
    obtain ⟨w, touched, same⟩ := Option.map_eq_some_iff.mp found
    obtain ⟨rfl, rfl⟩ := Prod.mk.inj same
    obtain ⟨before, behind, content, place, maximal⟩ :=
      Word.maximal_of_mem (List.mem_of_find?_eq_some touched)
    have touches := List.find?_some touched
    rw [Nat.zero_add] at place
    rw [Word.touches, Word.stop, ← place, Bool.and_eq_true, decide_eq_true_eq,
      decide_eq_true_eq] at touches
    refine ⟨l, before, behind, line, ⟨content, maximal, touches.1, touches.2⟩, ?_⟩
    rw [Word.span, Word.stop, place]
  · rintro ⟨l, before, behind, line, touches, rfl⟩
    rw [wordAt?, line, Option.bind_some]
    rw [Line.find?_of_hasWord touches.hasWord touches.low touches.high]
    rfl

/-- There is no word under a cursor just if there is no line or no run that it touches. -/
theorem wordAt?_eq_none_iff {p : Position} :
    d.wordAt? p = none ↔ d.line? p.line = none ∨ ∃ l, d.line? p.line = some l ∧
      ∀ before run behind, ¬ l.RunAt (min p.column l.content.length) before run behind := by
  constructor
  · intro nothing
    cases line : d.line? p.line with
    | none => exact .inl rfl
    | some l =>
      refine .inr ⟨l, rfl, ?_⟩
      intro before run behind touches
      have found := wordAt?_eq_some_iff.mpr ⟨l, before, behind, line, touches, rfl⟩
      rw [nothing] at found
      cases found
  · intro nowhere
    cases found : d.wordAt? p with
    | none => rfl
    | some word =>
      obtain ⟨l, before, behind, line, touches, -⟩ := wordAt?_eq_some_iff.mp found
      rcases nowhere with none | ⟨l', line', untouched⟩
      · rw [line] at none
        cases none
      · rw [line] at line'
        obtain rfl := Option.some.inj line'
        exact absurd touches (untouched before word.1 behind)

/-- The word under a cursor is a reference to itself. -/
theorem mem_references_of_wordAt? {p : Position} (found : d.wordAt? p = some (name, span)) :
    span ∈ d.references name := by
  obtain ⟨l, before, behind, line, touches, rfl⟩ := wordAt?_eq_some_iff.mp found
  obtain ⟨member, number⟩ := mem_of_line? line
  rw [← number]
  exact mem_references_of_hasWord member touches.hasWord

/-- Wherever a cursor touches a reference, the reference is the word under it. -/
theorem wordAt?_of_mem_references (member : span ∈ d.references name) {column : Nat}
    (low : span.start.column ≤ column) (high : column ≤ span.stop.column) :
    d.wordAt? ⟨span.start.line, column⟩ = some (name, span) := by
  obtain ⟨l, inside, before, behind, content, maximal, rfl⟩ := maximal_of_mem_references member
  exact wordAt?_of_hasWord inside ⟨before, behind, content, rfl, maximal.boundary⟩ low high

end Document

/-- Words under cursors and references are the same places. The word under a cursor is a reference to
itself that the cursor touches on its line; a reference is the word under every cursor that touches it;
there is no word just where there is no line, or no longest run of word characters that the cursor
touches, of which there is one at most. A search of the line and one of the whole text, both by byte
offsets, find just these. -/
theorem cursors_meet_references (d : Document) :
    (∀ p name span, d.wordAt? p = some (name, span) →
      span ∈ d.references name ∧ ∃ l, d.line? p.line = some l ∧
        span.start.line = p.line ∧ span.stop.line = p.line ∧
        span.start.column ≤ min p.column l.content.length ∧
        min p.column l.content.length ≤ span.stop.column) ∧
    (∀ name, ∀ span ∈ d.references name, span.stop.line = span.start.line ∧
      ∀ column, span.start.column ≤ column → column ≤ span.stop.column →
        d.wordAt? ⟨span.start.line, column⟩ = some (name, span)) ∧
    (∀ p, d.wordAt? p = none ↔ d.line? p.line = none ∨ ∃ l, d.line? p.line = some l ∧
      ∀ before run behind, ¬ l.RunAt (min p.column l.content.length) before run behind) ∧
    (∀ l ∈ d.lines, ∀ cursor before run behind before' run' behind',
      l.RunAt cursor before run behind → l.RunAt cursor before' run' behind' →
        before = before' ∧ run = run' ∧ behind = behind') ∧
    (∀ p, Bytewise.wordAt d.chars p = .ok (d.wordAt? p)) ∧
    ∀ name, Bytewise.wholeWords d.chars name = .ok (d.references name) := by
  refine ⟨?_, ?_, fun p => Document.wordAt?_eq_none_iff, ?_, Bytewise.wordAt_eq d,
    Bytewise.wholeWords_eq d⟩
  · intro p name span found
    refine ⟨Document.mem_references_of_wordAt? found, ?_⟩
    obtain ⟨l, before, behind, line, touches, rfl⟩ := Document.wordAt?_eq_some_iff.mp found
    exact ⟨l, line, rfl, rfl, touches.low, touches.high⟩
  · intro name span member
    refine ⟨?_, fun column => Document.wordAt?_of_mem_references member⟩
    obtain ⟨l, -, before, behind, -, -, rfl⟩ := Document.maximal_of_mem_references member
    rfl
  · intro l _ cursor before run behind before' run' behind' touches touches'
    exact touches.unique touches'

/-- A text whose first line is shorter in columns than in bytes and ends with a carriage return. -/
def clamped : Document := .ofString "été x\r\nx"

/-- A column past the end of the first line of `clamped` means the word at that end, which is the first
reference to itself; nothing is under a cursor below the last line. -/
theorem cursors_meet_references_clamped :
    Span.onLine 0 4 5 ∈ clamped.references ['x'] ∧
    (∀ column, 4 ≤ column → column ≤ 5 →
      clamped.wordAt? ⟨0, column⟩ = some (['x'], Span.onLine 0 4 5)) ∧
    clamped.wordAt? ⟨2, 0⟩ = none := by
  obtain ⟨forward, backward, nowhere, -⟩ := cursors_meet_references clamped
  have found : clamped.wordAt? ⟨0, 9⟩ = some (['x'], Span.onLine 0 4 5) := by decide +kernel
  obtain ⟨member, -⟩ := forward _ _ _ found
  obtain ⟨-, under⟩ := backward _ _ member
  exact ⟨member, under, (nowhere ⟨2, 0⟩).mpr (.inl (by decide))⟩

end SymbolIndex
