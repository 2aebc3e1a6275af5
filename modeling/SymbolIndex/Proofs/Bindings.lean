import SymbolIndex.Proofs.OneLineForms

/-! The names that a `let` binds, and the search for their definitions. The reader of bindings takes a
whole line apart and lets a type stand behind its last name; the forms of variables look for one name at
a time, each before a mark that has to follow it. Where all blanks are spaces and tabs both take the same
texts from a line, piece by piece, so a form fits the one name that the reader has in its place, and it
is the mark behind a name that decides: a type keeps it from being found. -/
namespace SymbolIndex

namespace Shape

/-- The word that variables are declared with. -/
def letText : List Char := ['l', 'e', 't']

/-- Whether a type is written right behind a bound name. -/
def Binding.annotated (b : Binding) (line : List Char) : Bool :=
  (Text.trimStart (line.drop (b.nameAt + b.name.length))).head? == some ':'

/-- The definition of a bound name in a text of one line. -/
def Binding.definition (b : Binding) : Definition :=
  ⟨.binding, Span.onLine 0 b.nameAt (b.nameAt + b.name.length)⟩

end Shape

namespace Definition
open Shape (letText)

/-- A `let` and the word behind it, as the forms of variables take them. -/
def letPattern : Pattern := [gaps, letWord, someGaps, .some1 Text.isWordChar, gaps]

/-- The second of two words that are declared together. -/
def secondPattern : Pattern := [.literal [','], gaps, .some1 Text.isWordChar, gaps]

/-- The form of a variable that is declared as the second of two. -/
def secondForm : Form :=
  { kind := .binding, lead := letPattern ++ [.literal [','], gaps], tails := [[gaps, .literal ['=']]] }

/-- The form of a variable that is declared as the first of two, with all that it asks of the second. -/
def firstForm : Form :=
  { kind := .binding
    lead := [gaps, letWord, someGaps]
    tails := [[gaps, .literal [',']] ++ [gaps, .some1 Text.isWordChar, gaps, .literal ['=']]] }

theorem valueForms_eq : valueForms = [bindingForm, constantForm, secondForm, firstForm] := rfl

/-- A form fits a name somewhere on a line, behind a given text. -/
def Form.FitsOn (form : Form) (before name line : List Char) : Prop :=
  ∃ rest, line = before ++ (name ++ rest) ∧ form.FitsAt before name rest

/-- A form finds a definition of a name in a text that is one line. -/
def Form.Finds (form : Form) (name line : List Char) (x : Definition) : Prop :=
  isWord name = true ∧ ∃ before, form.FitsOn before name line ∧
    x = ⟨form.kind, Span.onLine 0 before.length (before.length + name.length)⟩

/-- A word and the blanks behind it are taken up to a mark. -/
theorem word_takes {allowed : Char → Bool} {name gap later : List Char} {mark : Char}
    (blank : ∀ c, allowed c = true → Text.isBlank c = true) (word : isWord name = true)
    (gapped : ∀ c ∈ gap, allowed c = true) (stops : allowed mark = false)
    (outside : Text.isWordChar mark = false) :
    Pattern.Takes [.some1 Text.isWordChar, .run allowed] [name, gap] (mark :: later) := by
  have ends : (Piece.some1 Text.isWordChar).Stops (gap ++ mark :: later) := by
    intro c first
    rcases Text.head?_append_cons first with inGap | rfl
    · exact Text.isWordChar_of_isBlank (blank c (gapped c inGap))
    · exact outside
  refine .cons (Piece.some1_fits_iff.mpr (isWord_iff.mp word)) ?_
    (.cons gapped (Piece.run_stops stops) .nil)
  rw [List.flatten_singleton]
  exact ends

/-- A form of variables that asks for one of some marks behind the name. -/
structure Form.Asks (form : Form) (marks : List Char) : Prop where
  kind : form.kind = .binding
  tails : form.tails = marks.map fun mark => [gaps, .literal [mark]]
  bare : ∀ mark ∈ marks, Text.isGap mark = false ∧ Text.isWordChar mark = false

theorem asks_bindingForm : bindingForm.Asks ['=', ','] where
  kind := rfl
  tails := rfl
  bare := List.forall_mem_cons.mpr ⟨⟨rfl, rfl⟩, List.forall_mem_singleton.mpr ⟨rfl, rfl⟩⟩

theorem asks_secondForm : secondForm.Asks ['='] where
  kind := rfl
  tails := rfl
  bare := List.forall_mem_singleton.mpr ⟨rfl, rfl⟩

section Marks

variable {form : Form} {marks name before rest line : List Char} (asks : form.Asks marks)
  (word : isWord name = true)
include asks word

/-- A form that asks for a mark behind the name takes its lead, the name as a word, and the gaps before
the mark. -/
theorem takes_of_fitsAt (fits : form.FitsAt before name rest) : ∃ lead gap mark later, mark ∈ marks ∧
    Pattern.Takes (form.lead ++ [.some1 Text.isWordChar, gaps]) (lead ++ [name, gap]) (mark :: later) ∧
      before = lead.flatten ∧ rest = gap ++ mark :: later := by
  obtain ⟨lead, tail, texts, behind, leads, rfl, isTail, takes, rfl⟩ := fits
  rw [asks.tails] at isTail
  obtain ⟨mark, among, rfl⟩ := List.mem_map.mp isTail
  obtain ⟨gapless, outside⟩ := asks.bare mark among
  obtain _ | ⟨gapped, -, _ | ⟨marked, -, _ | _⟩⟩ := takes
  rename_i gap marks
  obtain rfl : marks = [mark] := marked
  have follows : Pattern.Takes [.some1 Text.isWordChar, gaps] [name, gap] (mark :: behind) :=
    word_takes (fun _ => Text.isBlank_of_isGap) word gapped gapless outside
  refine ⟨lead, gap, mark, behind, among, ?_, rfl, by simp⟩
  exact (Pattern.takes_append_append_iff rfl).mpr ⟨by simpa using leads, follows⟩

/-- Where a line is read as such a form takes it, the form fits the name that is read and no other, if
one of its marks follows. -/
theorem fitsOn_iff_of_take? {lead : List (List Char)} {gap name' later : List Char} {mark : Char}
    (reads : Pattern.take? (form.lead ++ [.some1 Text.isWordChar, gaps]) line =
      some (lead ++ [name', gap], mark :: later)) :
    form.FitsOn before name line ↔ name = name' ∧ before = lead.flatten ∧ mark ∈ marks := by
  constructor
  · rintro ⟨rest, rfl, fits⟩
    obtain ⟨lead', gap', mark', later', among, takes, rfl, rfl⟩ := takes_of_fitsAt asks word fits
    obtain ⟨texts, rest⟩ := takes.unique (by simp) reads
    obtain ⟨rfl, last⟩ := List.append_inj' texts rfl
    obtain ⟨rfl, -⟩ := List.cons.inj rest
    obtain ⟨rfl, -⟩ := List.cons.inj last
    exact ⟨rfl, rfl, among⟩
  · rintro ⟨rfl, rfl, among⟩
    obtain ⟨rfl, takes⟩ := Pattern.take?_eq_some_iff.mp reads
    obtain ⟨leads, follows⟩ := (Pattern.takes_append_append_iff rfl).mp takes
    obtain _ | ⟨-, -, _ | ⟨gapped, stops, _ | _⟩⟩ := follows
    refine ⟨gap ++ mark :: later, by simp, lead, [gaps, .literal [mark]], [gap, [mark]], later, ?_, rfl, ?_⟩
    · simpa using leads
    · rw [asks.tails]
      exact ⟨List.mem_map_of_mem among, .cons gapped stops (.cons rfl trivial .nil), by simp⟩

end Marks

/-- Gaps and a mark that a pattern begins with. -/
theorem mark_of_takes {mark : Char} {more : Pattern} {texts : List (List Char)} {behind : List Char}
    (takes : Pattern.Takes (gaps :: .literal [mark] :: more) texts behind) :
    ∃ gap later, Text.Blanks gap ∧ texts.flatten ++ behind = gap ++ mark :: later := by
  obtain _ | ⟨gapped, -, takes⟩ := takes
  obtain ⟨later, whole⟩ := takes.begins
  refine ⟨_, later, Text.blanks_of_gaps gapped, ?_⟩
  rw [List.flatten_cons, List.append_assoc, whole]

/-- Around the name of a container there are blanks only, and then a mark. -/
theorem mark_of_containerForm {before name rest : List Char} (fits : containerForm.FitsAt before name rest) :
    Text.Blanks before ∧ ∃ gap mark later, Text.Blanks gap ∧ rest = gap ++ mark :: later ∧
      Text.isBlank mark = false ∧ Text.isWordChar mark = false := by
  obtain ⟨_, tail, _, behind, leads, rfl, isTail, takes, rfl⟩ := fits
  refine ⟨Text.blanks_of_gaps (gaps_of_takes leads), ?_⟩
  rcases List.mem_pair.mp isTail with rfl | rfl
  · obtain ⟨gap, later, blank, whole⟩ := mark_of_takes takes
    exact ⟨gap, '\x7b', later, blank, whole, rfl, rfl⟩
  · obtain ⟨gap, later, blank, whole⟩ := mark_of_takes takes
    exact ⟨gap, ':', later, blank, whole, rfl, rfl⟩

section Let

variable {form : Form} {line gap first gap' rest name before : List Char}
  (reads : letPattern.take? line = some ([[], letText, gap, first, gap'], rest))
include reads

/-- The first word of such a line is its `let`, and a word follows that. -/
theorem words_of_letPattern : ∃ c later, Text.isWordChar c = true ∧
    Pattern.take? [.blanks, .some1 Text.isWordChar, .blanks] line =
      some ([[], letText, gap], c :: later) := by
  obtain ⟨rfl, takes⟩ := Pattern.take?_eq_some_iff.mp reads
  obtain _ | ⟨-, -, _ | ⟨-, -, _ | ⟨gapped, -, _ | ⟨named, -, -⟩⟩⟩⟩ := takes
  obtain ⟨nonempty, gapChars⟩ := Piece.some1_fits_iff.mp gapped
  obtain ⟨d, gap, rfl⟩ := List.exists_cons_of_ne_nil nonempty
  obtain ⟨c, later, rfl, word, -⟩ := named
  have letters : (Piece.some1 Text.isWordChar).Fits letText := ⟨'l', _, rfl, rfl, List.all_eq_true.mp rfl⟩
  have blank := Text.blanks_of_gaps gapChars
  have takes : Pattern.Takes [.blanks, .some1 Text.isWordChar, .blanks] [[], letText, d :: gap]
      (c :: (later ++ (gap' ++ rest))) := by
    refine .cons nofun (Piece.run_stops rfl) (.cons letters (Piece.word_stops ?_) (.cons blank ?_ .nil))
    · exact Text.isWordChar_of_isBlank (blank d List.mem_cons_self)
    · exact Piece.run_stops (Text.isBlank_of_isWordChar word)
  refine ⟨c, _, word, Pattern.take?_eq_some_iff.mpr ⟨?_, takes⟩⟩
  simp

/-- No mark follows the first word of the line. -/
theorem ne_of_letPattern (word : isWord name = true) (blank : Text.Blanks before) {gap₀ later : List Char}
    (blank₀ : Text.Blanks gap₀) {mark : Char} (unblank : Text.isBlank mark = false)
    (outside : Text.isWordChar mark = false) : line ≠ before ++ (name ++ (gap₀ ++ mark :: later)) := by
  rintro rfl
  obtain ⟨c, later', inWord, words⟩ := words_of_letPattern reads
  obtain ⟨d, others, rfl, begins⟩ := Text.exists_first_of_isWord word
  have follows : Pattern.Takes [.some1 Text.isWordChar, .blanks] [d :: others, gap₀] (mark :: later) :=
    word_takes (fun _ => id) word blank₀ unblank outside
  have takes : Pattern.Takes [.blanks, .some1 Text.isWordChar, .blanks] [before, d :: others, gap₀]
      (mark :: later) := .cons blank (Piece.run_stops (Text.isBlank_of_isWordChar begins)) follows
  obtain ⟨-, behind⟩ := takes.unique (by simp) words
  obtain ⟨rfl, -⟩ := List.cons.inj behind
  rw [inWord] at outside
  cases outside

/-- No constant is declared on the line. -/
theorem ne_of_constantForm {rest' : List Char} (fits : constantForm.FitsAt before name rest') :
    line ≠ before ++ (name ++ rest') := by
  rintro rfl
  obtain ⟨lead, -, -, -, leads, rfl, -⟩ := fits
  obtain _ | ⟨gapped, -, _ | ⟨worded, -, -⟩⟩ := leads
  rename_i gap₀ letters texts
  obtain rfl : letters = ['c', 'o', 'n', 's', 't'] := worded
  obtain ⟨whole, -⟩ := Pattern.take?_eq_some_iff.mp reads
  have cut : gap₀ ++ 'c' :: ('o' :: 'n' :: 's' :: 't' :: (texts.flatten ++ (name ++ rest'))) =
      [] ++ 'l' :: ('e' :: 't' :: (gap ++ (first ++ (gap' ++ rest)))) := by
    simpa [letText] using whole
  obtain ⟨-, same, -⟩ := Text.run_unique (Text.blanks_of_gaps gapped) Text.blanks_nil rfl rfl cut
  cases same

/-- On such a line only variables are declared, and the first two forms of them find all. -/
theorem fitsOn_of_letPattern (word : isWord name = true) (among : form ∈ formsFor name)
    (fits : form.FitsOn before name line) : form.kind = .binding ∧
      (bindingForm.FitsOn before name line ∨ secondForm.FitsOn before name line) := by
  obtain ⟨rest', whole, fits⟩ := fits
  rcases mem_formsFor among with ⟨more, -, rfl⟩ | value | rfl
  · obtain ⟨blank, gap₀, later, blank₀, rfl⟩ := opening_of_fitsAt fits
    exact absurd whole (ne_of_letPattern reads word blank blank₀ (by decide) (by decide))
  · rw [valueForms_eq] at value
    simp only [List.mem_cons, List.not_mem_nil, or_false] at value
    rcases value with rfl | rfl | rfl | rfl
    · exact ⟨rfl, .inl ⟨rest', whole, fits⟩⟩
    · exact absurd whole (ne_of_constantForm reads fits)
    · exact ⟨rfl, .inr ⟨rest', whole, fits⟩⟩
    · refine ⟨rfl, .inl ⟨rest', whole, ?_⟩⟩
      obtain ⟨lead, tail, texts, behind, leads, rfl, isTail, takes, rfl⟩ := fits
      obtain rfl := List.mem_singleton.mp isTail
      obtain ⟨texts, more, rfl, takes, -⟩ := Pattern.takes_append_iff.mp takes
      exact ⟨lead, _, texts, _, leads, rfl, List.mem_cons_of_mem _ List.mem_cons_self, takes, by simp⟩
  · obtain ⟨blank, gap₀, mark, later, blank₀, rfl, unblank, outside⟩ := mark_of_containerForm fits
    exact absurd whole (ne_of_letPattern reads word blank blank₀ unblank outside)

end Let

/-- Of two words that are declared together the first is read before a comma. -/
theorem letPattern_of_take? {line gap first gap₁ gap₂ second gap₃ rest : List Char}
    (reads : Pattern.take? (letPattern ++ secondPattern) line =
      some ([[], letText, gap, first, gap₁] ++ [[','], gap₂, second, gap₃], rest)) :
    letPattern.take? line =
      some ([[], letText, gap] ++ [first, gap₁], ',' :: (gap₂ ++ (second ++ (gap₃ ++ rest)))) := by
  obtain ⟨whole, takes⟩ := Pattern.take?_eq_some_iff.mp reads
  obtain ⟨leads, -⟩ := (Pattern.takes_append_append_iff rfl).mp takes
  refine Pattern.take?_eq_some_iff.mpr ⟨by simpa using whole, ?_⟩
  simpa using leads

/-- Only behind a comma there is a second word. -/
theorem comma_of_fitsOn_secondForm {line name before later : List Char} {texts : List (List Char)}
    {mark : Char} (word : isWord name = true) (reads : letPattern.take? line = some (texts, mark :: later))
    (fits : secondForm.FitsOn before name line) : mark = ',' := by
  obtain ⟨rest, rfl, fits⟩ := fits
  obtain ⟨lead, gap, mark', later', -, takes, rfl, rfl⟩ := takes_of_fitsAt asks_secondForm word fits
  have both : Pattern.Takes (letPattern ++ secondPattern) (lead ++ [name, gap]) (mark' :: later') := takes
  obtain ⟨first, behind, same, leads, follows⟩ := Pattern.takes_append_iff.mp both
  obtain ⟨more, separates⟩ := follows.begins
  have whole := congrArg (fun texts => texts.flatten ++ mark' :: later') same
  obtain ⟨-, rest⟩ := leads.unique (by simpa using whole) reads
  exact (List.cons.inj (rest.trans separates)).1

end Definition

namespace Shape
open Definition

/-- Only the mark of a value or of a type ends the names that a `let` binds. -/
theorem exists_mark_of_isBound {s : List Char} (bound : isBound s = true) :
    ∃ mark later, s = mark :: later ∧ (mark = '=' ∨ mark = ':') := by
  rw [isBound, Bool.or_eq_true, Pattern.isSome_take?_iff, Pattern.isSome_take?_iff] at bound
  rcases bound with ⟨_, rest, rfl, takes⟩ | ⟨_, rest, rfl, takes⟩
  · obtain ⟨later, whole⟩ := takes.begins
    exact ⟨'=', later, whole, .inl rfl⟩
  · obtain ⟨later, whole⟩ := takes.begins
    exact ⟨':', later, whole, .inr rfl⟩

theorem bare_of_mark {mark : Char} (marks : mark = '=' ∨ mark = ':') :
    Text.isGap mark = false ∧ Text.isWordChar mark = false ∧ Text.isBlank mark = false := by
  rcases marks with rfl | rfl
  · exact ⟨rfl, rfl, rfl⟩
  · exact ⟨rfl, rfl, rfl⟩

/-- The names that a line binds, by the texts that the forms of variables take from it: one name, or two
with a comma between them. -/
inductive Binds (line : List Char) : List Binding → Prop where
  | one {gap name gap₁ later : List Char} {mark : Char}
      (reads : letPattern.take? line = some ([[], letText, gap, name, gap₁], mark :: later))
      (marks : mark = '=' ∨ mark = ':') :
      Binds line [⟨String.ofList name, [letText, gap].flatten.length⟩]
  | two {gap name gap₁ gap₂ second gap₃ later : List Char} {mark : Char}
      (reads : Pattern.take? (letPattern ++ secondPattern) line =
        some ([[], letText, gap, name, gap₁] ++ [[','], gap₂, second, gap₃], mark :: later))
      (marks : mark = '=' ∨ mark = ':') :
      Binds line [⟨String.ofList name, [letText, gap].flatten.length⟩,
        ⟨String.ofList second, [letText, gap, name, gap₁, [','], gap₂].flatten.length⟩]

section Plain

variable {line : List Char} (plain : ∀ c ∈ line, Text.isBlank c = true → Text.isGap c = true)
include plain

/-- A name and the blanks up to a mark are a word and the gaps up to it. -/
theorem word_of_name {name gap later : List Char} {mark : Char} (inside : ∀ c ∈ gap, c ∈ line)
    (gapless : Text.isGap mark = false) (outside : Text.isWordChar mark = false)
    (takes : Pattern.Takes [.name, .blanks] [name, gap] (mark :: later)) :
    isWord name = true ∧ Pattern.Takes [.some1 Text.isWordChar, gaps] [name, gap] (mark :: later) := by
  obtain _ | ⟨named, -, _ | ⟨blank, -, _ | _⟩⟩ := takes
  have word := isWord_of_nameChars (Piece.ne_nil_of_word named) (nameChars_of_name named)
  have gapped : ∀ c ∈ gap, Text.isGap c = true := fun c member => plain c (inside c member) (blank c member)
  exact ⟨word, word_takes (fun _ => Text.isBlank_of_isGap) word gapped gapless outside⟩

/-- The beginning of a `let` is read in the same pieces by the forms of variables. -/
theorem letPattern_takes {word gap name gap₁ later : List Char} {mark : Char}
    (whole : line = [word, gap, name, gap₁].flatten ++ mark :: later)
    (gapless : Text.isGap mark = false) (outside : Text.isWordChar mark = false)
    (takes : letHead.Takes [word, gap, name, gap₁] (mark :: later)) :
    word = letText ∧ letPattern.Takes [[], letText, gap, name, gap₁] (mark :: later) := by
  obtain _ | ⟨worded, -, _ | ⟨separates, -, takes⟩⟩ := takes
  obtain rfl : word = letText := worded
  obtain ⟨nonempty, blank⟩ := Piece.some1_fits_iff.mp separates
  have gapped : someGaps.Fits gap := by
    refine Piece.some1_fits_iff.mpr ⟨nonempty, fun c member => plain c ?_ (blank c member)⟩
    simp [whole, member]
  obtain ⟨isWord, named⟩ := word_of_name plain (fun c member => by simp [whole, member]) gapless outside takes
  have stops : someGaps.Stops (name ++ (gap₁ ++ mark :: later)) := gaps_stops_of_isWord isWord _
  refine ⟨rfl, .cons nofun (Piece.run_stops rfl) (.cons rfl trivial (.cons gapped ?_ named))⟩
  simpa using stops

/-- The second of two names is read in the same pieces by the forms of variables. -/
theorem secondPattern_takes {comma gap name gap₁ later before : List Char} {mark : Char}
    (whole : line = before ++ ([comma, gap, name, gap₁].flatten ++ mark :: later))
    (gapless : Text.isGap mark = false) (outside : Text.isWordChar mark = false)
    (takes : secondName.Takes [comma, gap, name, gap₁] (mark :: later)) :
    comma = [','] ∧ secondPattern.Takes [[','], gap, name, gap₁] (mark :: later) := by
  obtain _ | ⟨separates, -, _ | ⟨blank, -, takes⟩⟩ := takes
  obtain rfl : comma = [','] := separates
  have gapped : gaps.Fits gap := fun c member => plain c (by simp [whole, member]) (blank c member)
  obtain ⟨isWord, named⟩ := word_of_name plain (fun c member => by simp [whole, member]) gapless outside takes
  have stops : gaps.Stops (name ++ (gap₁ ++ mark :: later)) := gaps_stops_of_isWord isWord _
  refine ⟨rfl, .cons rfl trivial (.cons gapped ?_ named)⟩
  simpa using stops

/-- What a line binds is read in the same pieces by the forms of variables. -/
theorem binds_of_plain {bs : List Binding} (binds : bindings line = bs) (nonempty : bs ≠ []) :
    Binds line bs := by
  unfold bindings at binds
  split at binds
  · rename_i word gap name gap₁ rest taken
    obtain ⟨whole, takes⟩ := Pattern.take?_eq_some_iff.mp taken
    dsimp only at binds
    split at binds
    · rename_i comma gap₂ second gap₃ rest' taken'
      split at binds
      · rename_i bound
        subst binds
        obtain ⟨mark, later, rfl, marks⟩ := exists_mark_of_isBound bound
        obtain ⟨gapless, outside, -⟩ := bare_of_mark marks
        obtain ⟨rfl, takes'⟩ := Pattern.take?_eq_some_iff.mp taken'
        obtain ⟨rfl, follows⟩ := secondPattern_takes plain whole gapless outside takes'
        obtain ⟨rfl, leads⟩ := letPattern_takes plain whole rfl rfl takes
        have both := Pattern.takes_append_iff.mpr ⟨_, _, rfl, leads, follows⟩
        rw [width_eq_length_flatten, width_eq_length_flatten]
        exact .two (Pattern.take?_eq_some_iff.mpr ⟨by simpa using whole, both⟩) marks
      · exact absurd binds.symm nonempty
    · split at binds
      · rename_i bound
        subst binds
        obtain ⟨mark, later, rfl, marks⟩ := exists_mark_of_isBound bound
        obtain ⟨gapless, outside, -⟩ := bare_of_mark marks
        obtain ⟨rfl, leads⟩ := letPattern_takes plain whole gapless outside takes
        rw [width_eq_length_flatten]
        exact .one (Pattern.take?_eq_some_iff.mpr ⟨whole, leads⟩) marks
      · exact absurd binds.symm nonempty
  · exact absurd binds.symm nonempty

end Plain

end Shape

namespace Document
open Definition
open Shape (letText)

variable {line name : List Char}

/-- Where all forms that find anything are of one kind, it makes no difference which of them is the first
to find a place. -/
theorem mem_definitions_iff_of_kind {d : Document} {kind : Kind} {x : Definition}
    (only : isWord name = true → ∀ form ∈ formsFor name, ∀ span ∈ form.matchesIn name 0 d.lines,
      form.kind = kind) :
    x ∈ d.definitions name ↔ isWord name = true ∧ x.kind = kind ∧
      ∃ form ∈ formsFor name, x.span ∈ form.matchesIn name 0 d.lines := by
  rw [mem_definitions_iff]
  apply and_congr_right
  intro word
  constructor
  · rintro ⟨form, isFirst, same⟩
    have among := List.mem_of_find?_eq_some isFirst
    have found : x.span ∈ form.matchesIn name 0 d.lines := by simpa using List.find?_some isFirst
    exact ⟨same.trans (only word form among _ found), form, among, found⟩
  · rintro ⟨same, form, among, found⟩
    have some : ((formsFor name).find? (fun form => x.span ∈ form.matchesIn name 0 d.lines)).isSome := by
      rw [List.find?_isSome]
      exact ⟨form, among, by simpa using found⟩
    obtain ⟨first, isFirst⟩ := Option.isSome_iff_exists.mp some
    have found' : x.span ∈ first.matchesIn name 0 d.lines := by simpa using List.find?_some isFirst
    exact ⟨first, isFirst, same.trans (only word first (List.mem_of_find?_eq_some isFirst) _ found').symm⟩

section OneLine

variable {form : Form} (oneLine : '\n' ∉ line)
include oneLine

/-- In a text of one line a form finds the names that it fits there. -/
theorem mem_matchesIn_iff_fitsOn {span : Span} : span ∈ form.matchesIn name 0 (Document.mk line).lines ↔
    ∃ before, form.FitsOn before name line ∧
      span = Span.onLine 0 before.length (before.length + name.length) := by
  have split : (Document.mk line).lines = [] ++ lineOf 0 line [] :: [] := linesFrom_of_one_line oneLine 0
  constructor
  · intro found
    obtain ⟨l, inside, m, matched, rfl⟩ := Form.mem_matchesIn found
    rw [split] at inside
    obtain rfl := List.mem_singleton.mp inside
    obtain ⟨lead, tail, texts, behind, whole, leads, isTail, takes, rfl⟩ := Form.match?_some matched
    refine ⟨lead.flatten, ⟨texts.flatten ++ behind, ?_, ?_⟩, rfl⟩
    · exact (List.append_nil line).symm.trans whole
    · exact ⟨lead, tail, texts, behind, leads, rfl, isTail, takes, rfl⟩
  · rintro ⟨before, ⟨rest, whole, fits⟩, rfl⟩
    have onward : (lineOf 0 line []).onward = before ++ (name ++ rest) := (List.append_nil line).trans whole
    exact (mem_matchesIn_iff_fitsAt onward split).mpr ⟨rfl, fits⟩

/-- The definitions on a line of a `let` are what the first two forms of variables find. -/
theorem mem_definitions_iff_of_letPattern {gap first gap' rest : List Char}
    (reads : letPattern.take? line = some ([[], letText, gap, first, gap'], rest)) {x : Definition} :
    x ∈ (Document.mk line).definitions name ↔
      bindingForm.Finds name line x ∨ secondForm.Finds name line x := by
  have only : isWord name = true → ∀ form ∈ formsFor name,
      ∀ span ∈ form.matchesIn name 0 (Document.mk line).lines, form.kind = .binding := by
    intro word form among span found
    obtain ⟨before, fits, -⟩ := (mem_matchesIn_iff_fitsOn oneLine).mp found
    exact (fitsOn_of_letPattern reads word among fits).1
  rw [mem_definitions_iff_of_kind only]
  constructor
  · rintro ⟨word, kind, form, among, found⟩
    obtain ⟨before, fits, place⟩ := (mem_matchesIn_iff_fitsOn oneLine).mp found
    obtain ⟨-, either⟩ := fitsOn_of_letPattern reads word among fits
    have same : x = ⟨.binding, Span.onLine 0 before.length (before.length + name.length)⟩ := by
      rw [← place, ← kind]
    exact either.imp (fun fits => ⟨word, before, fits, same⟩) (fun fits => ⟨word, before, fits, same⟩)
  · rintro (⟨word, before, fits, rfl⟩ | ⟨word, before, fits, rfl⟩)
    · refine ⟨word, rfl, bindingForm, by simp [formsFor, valueForms_eq], ?_⟩
      exact (mem_matchesIn_iff_fitsOn oneLine).mpr ⟨before, fits, rfl⟩
    · refine ⟨word, rfl, secondForm, by simp [formsFor, valueForms_eq], ?_⟩
      exact (mem_matchesIn_iff_fitsOn oneLine).mpr ⟨before, fits, rfl⟩

end OneLine

section Reads

variable {front : Pattern} {lead : List (List Char)} {gap rest : List Char}

/-- What is read as a word and gaps is a word and blanks. -/
theorem word_of_take? (reads : Pattern.take? (front ++ [.some1 Text.isWordChar, gaps]) line =
    some (lead ++ [name, gap], rest)) : isWord name = true ∧ Text.Blanks gap := by
  obtain ⟨-, takes⟩ := Pattern.take?_eq_some_iff.mp reads
  obtain ⟨-, follows⟩ := (Pattern.takes_append_append_iff rfl).mp takes
  obtain _ | ⟨named, -, _ | ⟨gapped, -, _ | _⟩⟩ := follows
  exact ⟨isWord_iff.mpr (Piece.some1_fits_iff.mp named), Text.blanks_of_gaps gapped⟩

/-- A bound name is annotated if the mark behind it is that of a type. -/
theorem annotated_of_take? {mark : Char} {later : List Char} (unblank : Text.isBlank mark = false)
    (reads : Pattern.take? (front ++ [.some1 Text.isWordChar, gaps]) line =
      some (lead ++ [name, gap], mark :: later)) :
    Shape.Binding.annotated ⟨String.ofList name, lead.flatten.length⟩ line = (mark == ':') := by
  obtain ⟨-, blank⟩ := word_of_take? reads
  obtain ⟨rfl, -⟩ := Pattern.take?_eq_some_iff.mp reads
  have whole : (lead ++ [name, gap]).flatten ++ mark :: later =
      lead.flatten ++ name ++ (gap ++ mark :: later) := by simp
  rw [Shape.Binding.annotated, String.length_ofList, whole, ← List.length_append, List.drop_left,
    Text.trimStart_blanks_append blank, Text.trimStart_of_unblank unblank]
  rfl

variable (lead) in
/-- A form of variables finds the name that is read in its place, unless it is annotated. -/
theorem finds_iff_of_take? {form : Form} {marks first later : List Char} {mark : Char}
    (asks : form.Asks marks) (decides : mark ∈ marks ↔ mark ≠ ':') (unblank : Text.isBlank mark = false)
    (reads : Pattern.take? (form.lead ++ [.some1 Text.isWordChar, gaps]) line =
      some (lead ++ [first, gap], mark :: later)) {b : Shape.Binding}
    (reading : b = ⟨String.ofList first, lead.flatten.length⟩) {x : Definition} :
    form.Finds name line x ↔ b.name.toList = name ∧ b.annotated line = false ∧ x = b.definition := by
  have annotated := annotated_of_take? unblank reads
  obtain ⟨isWord, -⟩ := word_of_take? reads
  subst reading
  rw [Shape.Binding.definition, String.toList_ofList, String.length_ofList, annotated, beq_eq_false_iff_ne,
    ← decides]
  constructor
  · rintro ⟨word, before, fits, rfl⟩
    obtain ⟨rfl, rfl, among⟩ := (fitsOn_iff_of_take? asks word reads).mp fits
    exact ⟨rfl, among, by rw [asks.kind]⟩
  · rintro ⟨rfl, among, rfl⟩
    exact ⟨isWord, _, (fitsOn_iff_of_take? asks isWord reads).mpr ⟨rfl, rfl, among⟩, by rw [asks.kind]⟩

end Reads

/-- On a line that binds names, exactly these are defined, apart from one with a type behind it. -/
theorem mem_definitions_iff_of_binds {bs : List Shape.Binding} (binds : Shape.Binds line bs)
    (oneLine : '\n' ∉ line) {x : Definition} : x ∈ (Document.mk line).definitions name ↔
      ∃ b ∈ bs, b.name.toList = name ∧ b.annotated line = false ∧ x = b.definition := by
  cases binds with
  | @one gap first gap₁ later mark reads marks =>
    obtain ⟨-, -, unblank⟩ := Shape.bare_of_mark marks
    have decides : mark ∈ ['=', ','] ↔ mark ≠ ':' := by rcases marks with rfl | rfl <;> decide
    have single : ¬ secondForm.Finds name line x := by
      rintro ⟨word, before, fits, -⟩
      have comma := comma_of_fitsOn_secondForm word reads fits
      rcases marks with rfl | rfl <;> cases comma
    rw [mem_definitions_iff_of_letPattern oneLine reads, or_iff_left single,
      finds_iff_of_take? [[], letText, gap] asks_bindingForm decides unblank reads rfl]
    simp
  | @two gap first gap₁ gap₂ second gap₃ later mark reads marks =>
    obtain ⟨-, -, unblank⟩ := Shape.bare_of_mark marks
    have decides : mark ∈ ['='] ↔ mark ≠ ':' := by rcases marks with rfl | rfl <;> decide
    have reads₁ := letPattern_of_take? reads
    rw [mem_definitions_iff_of_letPattern oneLine reads₁,
      finds_iff_of_take? [[], letText, gap] asks_bindingForm (by decide) rfl reads₁ rfl,
      finds_iff_of_take? [[], letText, gap, first, gap₁, [','], gap₂] asks_secondForm decides unblank reads rfl]
    simp

/-- Of two names that are bound together only the second can be annotated. -/
theorem not_annotated_of_binds {first second : Shape.Binding} (binds : Shape.Binds line [first, second]) :
    first.annotated line = false := by
  cases binds with
  | two reads =>
    have leads : Pattern.take? (bindingForm.lead ++ [.some1 Text.isWordChar, gaps]) line = _ :=
      letPattern_of_take? reads
    exact annotated_of_take? rfl leads

end Document

theorem Shape.Binding.eq_of_definition {b b' : Binding} (named : b.name = b'.name)
    (same : b.definition = b'.definition) : b = b' := by
  have start : b.nameAt = b'.nameAt := congrArg (·.span.start.column) same
  cases b
  cases b'
  cases named
  cases start
  rfl

/-- On a line whose blanks are spaces and tabs, a bound name is defined as a variable where it stands just
if no type is written right behind it, and on a line that binds names nothing else is defined. Of two
names the first is always found. -/
theorem bindings_defined_iff {line : List Char}
    (plain : ∀ c ∈ line, Text.isBlank c = true → Text.isGap c = true) :
    (∀ b ∈ Shape.bindings line,
      (b.definition ∈ (Document.mk line).definitions b.name.toList ↔ b.annotated line = false)) ∧
    (∀ first second, Shape.bindings line = [first, second] → first.annotated line = false) ∧
    (Shape.bindings line ≠ [] → ∀ name, ∀ x ∈ (Document.mk line).definitions name,
      ∃ b ∈ Shape.bindings line, b.name.toList = name ∧ x = b.definition) := by
  have oneLine : '\n' ∉ line := by
    intro newline
    have never := plain _ newline rfl
    cases never
  refine ⟨?_, ?_, ?_⟩
  · intro b member
    have binds := Shape.binds_of_plain plain rfl (List.ne_nil_of_mem member)
    rw [Document.mem_definitions_iff_of_binds binds oneLine]
    constructor
    · rintro ⟨b', -, named, unannotated, same⟩
      rw [Shape.Binding.eq_of_definition (String.toList_injective named).symm same]
      exact unannotated
    · intro unannotated
      exact ⟨b, member, rfl, unannotated, rfl⟩
  · intro first second binds
    apply Document.not_annotated_of_binds
    exact Shape.binds_of_plain plain binds (List.cons_ne_nil _ _)
  · intro nonempty name x found
    have binds := Shape.binds_of_plain plain rfl nonempty
    obtain ⟨b, member, named, -, same⟩ := (Document.mem_definitions_iff_of_binds binds oneLine).mp found
    exact ⟨b, member, named, same⟩

theorem Text.isGap_of_all {line : List Char} (all : line.all (fun c => isBlank c == isGap c) = true) :
    ∀ c ∈ line, isBlank c = true → isGap c = true := by
  intro c member blank
  rw [← eq_of_beq (List.all_eq_true.mp all c member)]
  exact blank

/-- A line that binds two names, the second with a type. -/
def typedError : List Char := "let data,\terr: error = load(path)".toList

/-- Both names of `typedError` are bound, and only the first is found. -/
theorem bindings_defined_typed :
    Shape.bindings typedError = [⟨"data", 4⟩, ⟨"err", 10⟩] ∧
    ⟨.binding, Span.onLine 0 4 8⟩ ∈ (Document.mk typedError).definitions "data".toList ∧
    ⟨.binding, Span.onLine 0 10 13⟩ ∉ (Document.mk typedError).definitions "err".toList := by
  have plain := Text.isGap_of_all (show typedError.all _ = true by decide +kernel)
  have binds : Shape.bindings typedError = [⟨"data", 4⟩, ⟨"err", 10⟩] := by decide +kernel
  obtain ⟨defined, firsts, -⟩ := bindings_defined_iff plain
  rw [binds] at defined
  refine ⟨binds, (defined ⟨"data", 4⟩ (by simp)).mpr (firsts _ _ binds), ?_⟩
  intro found
  have unannotated := (defined ⟨"err", 10⟩ (by simp)).mp found
  exact absurd unannotated (by decide +kernel)

/-- A line that binds one name, with a type. -/
def typedCount : List Char := "let count: int = 3".toList

/-- Not every bound name can be found: a type between the name and the value hides it. -/
theorem binding_undefined : ¬ ∀ line : List Char, (∀ c ∈ line, c.toNat < 128) →
    (∀ c ∈ line, Text.isBlank c = true → Text.isGap c = true) →
      ∀ b ∈ Shape.bindings line, b.definition ∈ (Document.mk line).definitions b.name.toList := by
  intro every
  have ascii : typedCount.all (fun c => c.toNat < 128) = true := by decide +kernel
  have plain := Text.isGap_of_all (show typedCount.all _ = true by decide +kernel)
  have found := every typedCount (by simpa using ascii) plain ⟨"count", 4⟩ (by decide +kernel)
  exact absurd found (by decide +kernel)

end SymbolIndex
