import SymbolIndex.Proofs.Headings
import SymbolIndex.Proofs.OneLineForms

/-! Functions are looked for over several lines at once, from the name to the body, and no two matches
share a line. A match that begins above a function runs over its line just if it is a call of the
same name that nothing closes in between, because what follows a closing parenthesis ends in a mark
before another name can open one. And a result type is only looked for as one word. So it is known
exactly which functions are defined where they are declared. -/
namespace SymbolIndex

namespace Text

/-- The first of some character is in the same place of equal texts. -/
theorem first_unique {a b s t : List Char} {c : Char} (absent : c ∉ a) (absent' : c ∉ b)
    (same : a ++ c :: s = b ++ c :: t) : a = b ∧ s = t := by
  have inside := Piece.run_ne_fits_iff.mpr absent
  have inside' := Piece.run_ne_fits_iff.mpr absent'
  obtain ⟨whole, -, rest⟩ := run_unique inside inside' (by simp) (by simp) same
  exact ⟨whole, rest⟩

end Text

namespace Definition

section Calls

variable {name s lead arguments : List Char}

/-- A text begins, behind some gaps, with a call of a name; what follows its opening parenthesis is
given. -/
def BeginsCall (lead name s arguments : List Char) : Prop :=
  (∀ c ∈ lead, Text.isGap c = true) ∧
    ∃ gap, Text.Blanks gap ∧ s = lead ++ (name ++ gap) ++ '(' :: arguments

/-- A text begins with a call of a name that is still open where the text ends. -/
def LeavesOpen (name s : List Char) : Prop :=
  ∃ lead arguments, BeginsCall lead name s arguments ∧ ')' ∉ arguments

variable (word : isWord name = true)
include word

/-- Before its parenthesis a call has only blanks and word characters. -/
theorem chars_before_call {gap : List Char} (gaps : ∀ c ∈ lead, Text.isGap c = true)
    (blank : Text.Blanks gap) : ∀ c ∈ lead ++ (name ++ gap), (Text.isBlank c || Text.isWordChar c) = true := by
  obtain ⟨-, chars⟩ := isWord_iff.mp word
  intro c member
  simp only [List.mem_append] at member
  rcases member with inLead | inName | inGap
  · simp [Text.isBlank_of_isGap (gaps c inLead)]
  · simp [chars c inName]
  · simp [blank c inGap]

theorem not_mem_before_call {gap : List Char} (gaps : ∀ c ∈ lead, Text.isGap c = true)
    (blank : Text.Blanks gap) {c : Char} (outside : (Text.isBlank c || Text.isWordChar c) = false) :
    c ∉ lead ++ (name ++ gap) := Shape.not_mem_of_class (chars_before_call word gaps blank) outside

theorem LeavesOpen.not_mem (isOpen : LeavesOpen name s) : ')' ∉ s := by
  obtain ⟨lead, arguments, ⟨gaps, gap, blank, rfl⟩, closing⟩ := isOpen
  rw [List.mem_append, List.mem_cons, not_or, not_or]
  exact ⟨not_mem_before_call word gaps blank (by decide), by decide, closing⟩

omit word in
theorem LeavesOpen.append (isOpen : LeavesOpen name s) {more : List Char} (closing : ')' ∉ more) :
    LeavesOpen name (s ++ more) := by
  obtain ⟨lead, arguments, ⟨gaps, gap, blank, rfl⟩, inside⟩ := isOpen
  refine ⟨lead, arguments ++ more, ⟨gaps, gap, blank, by simp⟩, ?_⟩
  rw [List.mem_append, not_or]
  exact ⟨inside, closing⟩

/-- What stands at the beginning of a call, before its parenthesis, has blanks and word characters
only. -/
theorem BeginsCall.chars_of_prefix (begins : BeginsCall lead name s arguments) {a b : List Char}
    (split : s = a ++ b) (unopened : '(' ∉ a) : ∀ c ∈ a, (Text.isBlank c || Text.isWordChar c) = true := by
  obtain ⟨gaps, gap, blank, rfl⟩ := begins
  obtain ⟨z, whole, -⟩ := Text.prefix_of_not_mem split.symm unopened
  have chars := chars_before_call word gaps blank
  rw [whole] at chars
  exact fun c member => chars c (List.mem_append_left z member)

/-- A call does not begin with its parenthesis. -/
theorem BeginsCall.not_blanks (begins : BeginsCall lead name s arguments) {gap rest : List Char}
    (blank : Text.Blanks gap) : s ≠ gap ++ '(' :: rest := by
  intro same
  obtain ⟨gaps, gap', -, rfl⟩ := begins
  obtain ⟨nonempty, chars⟩ := isWord_iff.mp word
  obtain ⟨c, later, rfl⟩ := List.exists_cons_of_ne_nil nonempty
  have first := chars c List.mem_cons_self
  have blanks := Text.blanks_of_gaps gaps
  have cut : lead ++ c :: (later ++ gap' ++ '(' :: arguments) = gap ++ '(' :: rest := by simpa using same
  obtain ⟨-, rfl, -⟩ := Text.run_unique blanks blank (Text.isBlank_of_isWordChar first) rfl cut
  exact absurd first (by decide)

end Calls

section Matches

variable {name s : List Char} {more : Pattern}

/-- What a form of a function matches: a call, closed by the first closing parenthesis, and what
follows its parameters. -/
theorem functionForm_match?_some {m : Match} (matched : (functionForm more).match? name s = some m) :
    ∃ lead gap arguments texts behind, (∀ c ∈ lead, Text.isGap c = true) ∧ Text.Blanks gap ∧
      ')' ∉ arguments ∧ Pattern.Takes (.blanks :: more) texts behind ∧
      s = lead ++ (name ++ gap) ++ '(' :: (arguments ++ ')' :: (texts.flatten ++ behind)) ∧
      m.breaks = (gap ++ '(' :: (arguments ++ ')' :: texts.flatten)).count '\n' := by
  obtain ⟨lead, tail, _, behind, rfl, leads, isTail, tails, rfl⟩ := Form.match?_some matched
  obtain rfl := List.mem_singleton.mp isTail
  obtain ⟨gap, arguments, texts, text, blank, closing, follows⟩ := takes_parameters tails
  refine ⟨lead.flatten, gap, arguments, texts, behind, gaps_of_takes leads, blank, closing, follows, ?_, ?_⟩
  · simp [text]
  · rw [text]

/-- A form of a function fits a name behind gaps if what follows its parameters does. -/
theorem fitsAt_functionForm_iff (word : isWord name = true) {before gap arguments behind : List Char}
    (blank : Text.Blanks gap) (closing : ')' ∉ arguments) :
    (functionForm more).FitsAt before name (gap ++ '(' :: (arguments ++ ')' :: behind)) ↔
      (∀ c ∈ before, Text.isGap c = true) ∧ (Pattern.take? (.blanks :: more) behind).isSome = true := by
  constructor
  · rintro ⟨lead, tail, _, left, leads, rfl, isTail, tails, cut⟩
    obtain rfl := List.mem_singleton.mp isTail
    obtain ⟨gap', arguments', texts, text, blank', closing', follows⟩ := takes_parameters tails
    have cut' : gap' ++ '(' :: (arguments' ++ ')' :: (texts.flatten ++ left)) =
        gap ++ '(' :: (arguments ++ ')' :: behind) := by simpa [text] using cut
    obtain ⟨-, -, rest⟩ := Text.run_unique blank' blank rfl rfl cut'
    obtain ⟨-, rfl⟩ := Text.first_unique closing' closing rest
    exact ⟨gaps_of_takes leads, Pattern.isSome_take?_iff.mpr ⟨texts, left, rfl, follows⟩⟩
  · rintro ⟨gaps, follows⟩
    obtain ⟨texts, left, rfl, takes⟩ := Pattern.isSome_take?_iff.mp follows
    have inside := Piece.run_ne_fits_iff.mpr closing
    have leads (rest : List Char) : (functionForm more).lead.Takes [before] (name ++ rest) :=
      .cons gaps (gaps_stops_of_isWord word rest) .nil
    have tails : (parameters ++ more).Takes (gap :: ['('] :: arguments :: [')'] :: texts) left :=
      .cons blank (Piece.run_stops rfl) (.cons rfl trivial (.cons inside (Piece.run_stops rfl)
        (.cons rfl trivial takes)))
    exact ⟨[before], _, _, left, leads _, by simp, List.mem_cons_self, tails, by simp⟩

/-- Up to the blanks behind its name a call stays on its line. -/
theorem count_before_call (word : isWord name = true) {lead : List Char}
    (gaps : ∀ c ∈ lead, Text.isGap c = true) (gap : List Char) :
    (lead ++ (name ++ gap)).count '\n' = gap.count '\n' := by
  have before : '\n' ∉ lead := Shape.not_mem_of_class gaps rfl
  have inside : '\n' ∉ name := Shape.not_mem_of_class (isWord_iff.mp word).2 rfl
  rw [List.count_append, List.count_append, List.count_eq_zero_of_not_mem before,
    List.count_eq_zero_of_not_mem inside, Nat.zero_add, Nat.zero_add]

/-- A match that begins with a call which is open at some place runs over all lines up to there. -/
theorem count_le_breaks (word : isWord name = true) {text : List Char} (isOpen : LeavesOpen name text)
    {m : Match} (matched : (functionForm more).match? name (text ++ s) = some m) :
    text.count '\n' ≤ m.breaks := by
  obtain ⟨lead, arguments, ⟨gaps, gap, blank, rfl⟩, closing⟩ := isOpen
  obtain ⟨lead', gap', arguments', texts, behind, gaps', blank', -, -, whole, breaks⟩ :=
    functionForm_match?_some matched
  have unopened := not_mem_before_call word gaps blank (c := '(') (by decide)
  have unopened' := not_mem_before_call word gaps' blank' (c := '(') (by decide)
  rw [List.append_assoc, List.cons_append] at whole
  obtain ⟨same, rest⟩ := Text.first_unique unopened unopened' whole
  obtain ⟨more, rfl, -⟩ := Text.prefix_of_not_mem rest closing
  have newlines := congrArg (List.count '\n') same
  rw [count_before_call word gaps, count_before_call word gaps'] at newlines
  rw [breaks, List.count_append, count_before_call word gaps, newlines]
  simp only [List.count_append, List.count_cons]
  omega

theorem mem_functionTails_iff : more ∈ functionTails ↔
    ∃ mark ∈ Shape.bodyMarks, more = [.literal mark] ∨ more = resultWord ++ [.literal mark] := by
  simp only [functionTails, arrow, brace, Shape.bodyMarks, List.mem_cons, List.not_mem_nil, or_false,
    exists_eq_or_imp, exists_eq_left]
  tauto

/-- What may follow the parameters of a function opens no call, and it ends in a mark. -/
theorem ends_of_functionTails (among : more ∈ functionTails) {texts : List (List Char)} {behind : List Char}
    (takes : Pattern.Takes (.blanks :: more) texts behind) :
    '(' ∉ texts.flatten ∧
      ∃ c, texts.flatten.getLast? = some c ∧ (Text.isBlank c || Text.isWordChar c) = false := by
  have avoids : ∀ more ∈ functionTails, List.all (.blanks :: more) (Piece.avoids '(') = true := by decide
  refine ⟨Pattern.not_mem_of_avoids (avoids more among) takes, ?_⟩
  have lasts : ∀ mark ∈ Shape.bodyMarks,
      ∃ c, mark.getLast? = some c ∧ (Text.isBlank c || Text.isWordChar c) = false := by
    simp only [Shape.bodyMarks, List.forall_mem_cons, List.not_mem_nil, false_imp_iff, implies_true, and_true]
    exact ⟨⟨'>', rfl, rfl⟩, '\x7b', rfl, rfl⟩
  obtain ⟨mark, begins, tail⟩ := mem_functionTails_iff.mp among
  have ends : Pattern.Ends [.literal mark] fun c => (Text.isBlank c || Text.isWordChar c) = false := by
    rintro _ rest (_ | ⟨marked, -, _ | _⟩)
    rename_i text
    obtain rfl : text = mark := marked
    rw [List.flatten_singleton]
    exact lasts text begins
  rcases tail with rfl | rfl
  · exact ends.cons .blanks texts behind takes
  · have typed := ((((ends.cons .blanks).cons (.some1 Text.isWordChar)).cons .blanks).cons (.literal [':']))
    exact typed.cons .blanks texts behind takes

/-- Where a call begins a line, a match that runs over the beginning of the line has opened its own. -/
theorem opened_of_begins (word : isWord name = true) {text lead lead' arguments gap rest : List Char}
    (ends : text.getLast? = some '\n') (begins : BeginsCall lead name s arguments)
    (gaps : ∀ c ∈ lead', Text.isGap c = true) (blank : Text.Blanks gap)
    (whole : text ++ s = lead' ++ (name ++ gap) ++ '(' :: rest) : '(' ∈ text := by
  by_contra unopened
  obtain ⟨z, split, follows⟩ := Text.prefix_of_not_mem whole unopened
  obtain ⟨raw, rfl⟩ := List.getLast?_eq_some_iff.mp ends
  have oneLine : '\n' ∉ lead' ++ name := by
    rw [List.mem_append, not_or]
    exact ⟨Shape.not_mem_of_class gaps rfl, Shape.not_mem_of_class (isWord_iff.mp word).2 rfl⟩
  have cut : (lead' ++ name) ++ gap = raw ++ '\n' :: z := by simpa using split
  obtain ⟨y, -, rfl⟩ := Text.prefix_of_not_mem cut oneLine
  exact begins.not_blanks word (fun c member => blank c (by simp [member])) follows

/-- Where a call begins a line, what follows the parameters of a function has ended further up. -/
theorem count_lt_of_begins (word : isWord name = true) {text taken behind lead arguments : List Char}
    (ends : text.getLast? = some '\n') (begins : BeginsCall lead name s arguments)
    (unopened : '(' ∉ taken) {mark : Char} (last : taken.getLast? = some mark)
    (outside : (Text.isBlank mark || Text.isWordChar mark) = false)
    (whole : text ++ s = taken ++ behind) : taken.count '\n' < text.count '\n' := by
  have apart : mark ≠ '\n' := by
    rintro rfl
    cases outside
  rcases List.append_eq_append_iff.mp whole with ⟨x, rfl, follows⟩ | ⟨x, rfl, -⟩
  · -- The line cannot begin within what is taken: the mark at the end would stand before the call.
    exfalso
    obtain rfl | ⟨x, c, rfl⟩ := List.eq_nil_or_concat' x
    · rw [List.append_nil, ends] at last
      exact apart (Option.some.inj last).symm
    · rw [List.mem_append, not_or] at unopened
      have inside := begins.chars_of_prefix word follows unopened.2 c (by simp)
      rw [← List.append_assoc, List.getLast?_concat] at last
      rw [Option.some.inj last, outside] at inside
      cases inside
  · obtain rfl | ⟨x, c, rfl⟩ := List.eq_nil_or_concat' x
    · rw [List.append_nil, last] at ends
      exact absurd (Option.some.inj ends) apart
    · rw [← List.append_assoc, List.getLast?_concat] at ends
      rw [Option.some.inj ends, List.count_append, List.count_append, List.count_singleton_self]
      omega

/-- A match that runs over the beginning of a line where the name is called begins with a call that
is still open there. -/
theorem leavesOpen_of_match? (word : isWord name = true) (among : more ∈ functionTails)
    {text lead arguments : List Char} (ends : text.getLast? = some '\n')
    (begins : BeginsCall lead name s arguments) {m : Match}
    (matched : (functionForm more).match? name (text ++ s) = some m)
    (reaches : text.count '\n' ≤ m.breaks) : LeavesOpen name text := by
  obtain ⟨lead', gap, arguments', texts, behind, gaps, blank, closing, follows, whole, breaks⟩ :=
    functionForm_match?_some matched
  obtain ⟨unopened, mark, last, outside⟩ := ends_of_functionTails among follows
  obtain ⟨a, b, rfl, first⟩ := List.eq_append_cons_of_mem (opened_of_begins word ends begins gaps blank whole)
  have before := not_mem_before_call word gaps blank (c := '(') (by decide)
  rw [List.append_assoc, List.cons_append] at whole
  obtain ⟨rfl, rest⟩ := Text.first_unique first before whole
  refine ⟨lead', b, ⟨gaps, gap, blank, rfl⟩, ?_⟩
  -- Behind its closing parenthesis the match would have to end before the line begins.
  intro closed
  obtain ⟨a, z, rfl, first⟩ := List.eq_append_cons_of_mem closed
  rw [List.append_assoc, List.cons_append] at rest
  obtain ⟨rfl, beyond⟩ := Text.first_unique first closing rest
  have ends' : z.getLast? = some '\n' := by
    rw [List.getLast?_append, List.getLast?_cons, List.getLast?_append, List.getLast?_cons] at ends
    cases last : z.getLast? with
    | none => simp [last] at ends
    | some c => simpa [last] using ends
  have under := count_lt_of_begins word ends' begins unopened last outside beyond
  rw [breaks, List.count_append, count_before_call word gaps] at reaches
  simp only [List.count_append, List.count_cons] at reaches
  omega

/-- Above a call that a form matches, another one that is still open makes the form match as well. -/
theorem match?_of_leavesOpen (word : isWord name = true) {text : List Char} (isOpen : LeavesOpen name text)
    {m : Match} (matched : (functionForm more).match? name s = some m) :
    ∃ m, (functionForm more).match? name (text ++ s) = some m := by
  obtain ⟨lead, gap, arguments, texts, behind, gaps, blank, closing, follows, rfl, -⟩ :=
    functionForm_match?_some matched
  have unclosed := isOpen.not_mem word
  obtain ⟨lead', arguments', ⟨gaps', gap', blank', rfl⟩, -⟩ := isOpen
  have before := not_mem_before_call word gaps blank (c := ')') (by decide)
  have closing' : ')' ∉ arguments' ++ (lead ++ (name ++ gap) ++ '(' :: arguments) := by
    rw [List.mem_append, List.mem_append, List.mem_cons, not_or, not_or, not_or]
    refine ⟨?_, before, by decide, closing⟩
    exact fun inside => unclosed (List.mem_append_right _ (List.mem_cons_of_mem _ inside))
  have taken := Pattern.isSome_take?_iff.mpr ⟨texts, behind, rfl, follows⟩
  have fits := (fitsAt_functionForm_iff word blank' closing').mpr ⟨gaps', taken⟩
  obtain ⟨m, found, -⟩ := Form.match?_iff_fitsAt.mpr fits
  refine ⟨m, ?_⟩
  rw [← found]
  simp

end Matches

section Tails

theorem head_of_bodyMarks {mark : List Char} (begins : mark ∈ Shape.bodyMarks) :
    ∃ c later, mark = c :: later ∧ Text.isBlank c = false ∧ Shape.isTypeChar c = false ∧
      Text.isWordChar c = false ∧ c ≠ ':' := by
  simp only [Shape.bodyMarks, List.mem_cons, List.not_mem_nil, or_false] at begins
  rcases begins with rfl | rfl
  · exact ⟨'=', ['>'], rfl, by decide⟩
  · exact ⟨'\x7b', [], rfl, by decide⟩

/-- Types and words stop before a body. -/
theorem stops_of_bodyMarks {gap mark : List Char} (blank : Text.Blanks gap) (begins : mark ∈ Shape.bodyMarks)
    (s : List Char) : ∀ c, (gap ++ (mark ++ s)).head? = some c →
      Shape.isTypeChar c = false ∧ Text.isWordChar c = false := by
  intro c first
  obtain ⟨d, later, rfl, -, typeless, wordless, -⟩ := head_of_bodyMarks begins
  rcases Text.head?_append_cons first with inGap | rfl
  · refine ⟨?_, Text.isWordChar_of_isBlank (blank c inGap)⟩
    rw [← Bool.not_eq_true]
    intro typed
    have never := Shape.isBlank_of_isTypeChar typed
    rw [blank c inGap] at never
    cases never
  · exact ⟨typeless, wordless⟩

/-- A word that is read where a type stands is all of the type. -/
theorem word_of_type {word type s t : List Char} (words : ∀ c ∈ word, Text.isWordChar c = true)
    (types : ∀ c ∈ type, Shape.isTypeChar c = true)
    (stop : ∀ c, s.head? = some c → Shape.isTypeChar c = false) (same : word ++ s = type ++ t) :
    ∀ c ∈ type, Text.isWordChar c = true := by
  rcases List.append_eq_append_iff.mp same with ⟨z, rfl, behind⟩ | ⟨z, rfl, -⟩
  · cases z with
    | nil => simpa using words
    | cons c z =>
      have never := stop c (by rw [behind]; rfl)
      rw [types c (by simp)] at never
      cases never
  · exact fun c member => words c (List.mem_append_left z member)

section Result

variable {gap type gap' mark : List Char} (blank : Text.Blanks gap)
  (typed : (Piece.some1 Shape.isTypeChar).Fits type) (blank' : Text.Blanks gap')
  (begins : mark ∈ Shape.bodyMarks) (rest : List Char)
include blank typed

include blank' begins in
/-- A result type that is a word is one for the forms of functions. -/
theorem take?_of_word (word : ∀ c ∈ type, Text.isWordChar c = true) :
    (Pattern.take? (resultWord ++ [.literal mark])
      (':' :: (gap ++ (type ++ (gap' ++ (mark ++ rest)))))).isSome = true := by
  obtain ⟨nonempty, types⟩ := Piece.some1_fits_iff.mp typed
  have stops : Piece.blanks.Stops (type ++ (gap' ++ (mark ++ rest))) := by
    obtain ⟨c, later, rfl⟩ := List.exists_cons_of_ne_nil nonempty
    exact Piece.run_stops (Shape.isBlank_of_isTypeChar (types c List.mem_cons_self))
  have ends : (Piece.some1 Text.isWordChar).Stops (gap' ++ (mark ++ rest)) :=
    fun c first => (stops_of_bodyMarks blank' begins rest c first).2
  have stops' : Piece.blanks.Stops (mark ++ rest) := by
    obtain ⟨c, later, rfl, unblank, -⟩ := head_of_bodyMarks begins
    exact Piece.run_stops unblank
  have takes : Pattern.Takes (resultWord ++ [.literal mark]) [[':'], gap, type, gap', mark] rest := by
    refine .cons rfl trivial (.cons blank ?_ (.cons (Piece.some1_fits_iff.mpr ⟨nonempty, word⟩) ?_
      (.cons blank' ?_ (.cons rfl trivial .nil))))
    · simpa using stops
    · simpa using ends
    · simpa using stops'
  exact Pattern.isSome_take?_iff.mpr ⟨_, rest, by simp, takes⟩

/-- A result type that is one for the forms of functions is a word. -/
theorem word_of_take? {more : Pattern} (among : more ∈ functionTails)
    (taken : (more.take? (':' :: (gap ++ (type ++ rest)))).isSome = true) :
    ∀ c ∈ type, Text.isWordChar c = true := by
  obtain ⟨nonempty, types⟩ := Piece.some1_fits_iff.mp typed
  obtain ⟨texts, left, whole, takes⟩ := Pattern.isSome_take?_iff.mp taken
  obtain ⟨mark', begins', rfl | rfl⟩ := mem_functionTails_iff.mp among
  · obtain _ | ⟨marked, -, _ | _⟩ := takes
    rename_i text
    obtain rfl : text = mark' := marked
    obtain ⟨c, later, rfl, -, -, -, other⟩ := head_of_bodyMarks begins'
    obtain ⟨rfl, -⟩ := List.cons.inj whole
    exact absurd rfl other
  · obtain _ | ⟨colons, -, _ | ⟨blank₁, -, _ | ⟨worded, -, _ | ⟨blank₂, -, _ | ⟨marked, -, _ | _⟩⟩⟩⟩⟩ := takes
    rename_i colon gap₁ word gap₂ text
    obtain rfl : colon = [':'] := colons
    obtain rfl : text = mark' := marked
    obtain ⟨unempty, words⟩ := Piece.some1_fits_iff.mp worded
    obtain ⟨c, type, rfl⟩ := List.exists_cons_of_ne_nil nonempty
    obtain ⟨c', word, rfl⟩ := List.exists_cons_of_ne_nil unempty
    have cut : gap ++ c :: (type ++ rest) =
        gap₁ ++ c' :: (word ++ (gap₂ ++ (text ++ left))) := by simpa using whole
    have unblank := Shape.isBlank_of_isTypeChar (types c List.mem_cons_self)
    have unblank' := Text.isBlank_of_isWordChar (words c' List.mem_cons_self)
    obtain ⟨-, rfl, behind⟩ := Text.run_unique blank blank₁ unblank unblank' cut
    have stop (d : Char) (first : (gap₂ ++ (text ++ left)).head? = some d) : Shape.isTypeChar d = false :=
      (stops_of_bodyMarks blank₂ begins' left d first).1
    exact word_of_type words types stop (congrArg (c :: ·) behind).symm

end Result

/-- What follows the parameters of a function is of one of the forms just if its result type, where it
has one, is a word. -/
theorem take?_functionTails_iff {result : Option (List Char)} {rest : List Char}
    (follows : Shape.Follows result rest) {gap : List Char} (blank : Text.Blanks gap) (tail : List Char) :
    (∃ more ∈ functionTails, (Pattern.take? (.blanks :: more) (gap ++ (rest ++ tail))).isSome = true) ↔
      ∀ type ∈ result, ∀ c ∈ type, Text.isWordChar c = true := by
  have fits : Piece.blanks.Fits gap := blank
  have stops : Piece.blanks.Stops (rest ++ tail) := by
    cases follows with
    | body begins later =>
      obtain ⟨c, mark, rfl, unblank, -⟩ := head_of_bodyMarks begins
      exact Piece.run_stops unblank
    | result => exact Piece.run_stops rfl
  have cut (more : Pattern) : (Pattern.take? (.blanks :: more) (gap ++ (rest ++ tail))).isSome =
      (more.take? (rest ++ tail)).isSome := by
    rw [Pattern.take?_cons_of_fits fits stops, Option.isSome_map]
  simp only [cut]
  clear cut stops
  cases follows with
  | @body mark begins later =>
    refine iff_of_true ⟨[.literal mark], mem_functionTails_iff.mpr ⟨mark, begins, .inl rfl⟩, ?_⟩ nofun
    have takes : Pattern.Takes [.literal mark] [mark] (later ++ tail) := .cons rfl trivial .nil
    exact Pattern.isSome_take?_iff.mpr ⟨_, later ++ tail, by simp, takes⟩
  | @result gap type gap' mark blank typed blank' begins later =>
    have text : ':' :: (gap ++ (type ++ (gap' ++ (mark ++ later)))) ++ tail =
        ':' :: (gap ++ (type ++ (gap' ++ (mark ++ (later ++ tail))))) := by simp
    rw [text]
    constructor
    · rintro ⟨more, among, taken⟩ _ ⟨⟩
      exact word_of_take? blank typed _ among taken
    · intro word
      refine ⟨resultWord ++ [.literal mark], mem_functionTails_iff.mpr ⟨mark, begins, .inr rfl⟩, ?_⟩
      exact take?_of_word blank typed blank' begins (later ++ tail) (word type rfl)

end Tails

end Definition

namespace Document

variable {d : Document}

/-- From one line to another the text goes over as many newlines as there are lines on the way. -/
theorem text_between {above between below : List Line} {l l' : Line}
    (split : d.lines = above ++ l' :: (between ++ l :: below)) :
    ∃ text, l'.onward = text ++ l.onward ∧ text.count '\n' = between.length + 1 ∧
      text.getLast? = some '\n' := by
  obtain ⟨-, -, -, -, lines⟩ := linesFrom_split (d.lines_eq_linesFrom ▸ split)
  have onwards : linesFrom l'.number l'.onward = (l' :: between) ++ l :: below := lines.symm
  obtain ⟨text, whole, place, count, -⟩ := linesFrom_split onwards
  have newlines := congrArg Position.line place
  rw [Position.line_after] at newlines
  simp only [List.length_cons] at count newlines
  have counted : text.count '\n' = between.length + 1 := by omega
  refine ⟨text, whole, counted, Position.getLast?_of_after (congrArg Position.column place) ?_⟩
  rintro rfl
  cases counted

/-- Somewhere above a line a line begins with a call of a name that is still open where the line
begins. -/
def OpenAbove (d : Document) (name : List Char) (l : Line) : Prop :=
  ∃ l' ∈ d.lines, ∃ text, l'.onward = text ++ l.onward ∧ Definition.LeavesOpen name text

section OpenAbove

variable {above below : List Line} {l : Line} (split : d.lines = above ++ l :: below)
  {name : List Char} (word : isWord name = true)
include split

/-- A line from which a call is open stands above the line. -/
theorem split_of_leavesOpen {l' : Line} (member : l' ∈ d.lines) {text : List Char}
    (whole : l'.onward = text ++ l.onward) (isOpen : Definition.LeavesOpen name text) :
    ∃ a between, above = a ++ l' :: between := by
  have shorter : ¬ l'.onward.length ≤ l.onward.length := by
    obtain ⟨lead, arguments, ⟨-, gap, -, rfl⟩, -⟩ := isOpen
    rw [whole]
    simp only [List.length_append, List.length_cons]
    omega
  rw [split, List.mem_append] at member
  rcases member with inside | below
  · exact List.append_of_mem inside
  · exfalso
    rcases List.mem_cons.mp below with rfl | below
    · exact shorter (Nat.le_refl _)
    · obtain ⟨between, later, rfl⟩ := List.append_of_mem below
      obtain ⟨further, onward, -⟩ := text_between split
      rw [onward, List.length_append] at shorter
      omega

include word

/-- A match that is found above the line and leaves a call open there runs over the line. -/
theorem pending_of_leavesOpen {a between : List Line} {l' : Line} (same : above = a ++ l' :: between)
    {text : List Char} (whole : l'.onward = text ++ l.onward) (isOpen : Definition.LeavesOpen name text)
    {more : Pattern} {m : Definition.Match}
    (matched : (Definition.functionForm more).match? name l'.onward = some m)
    (reached : (Definition.functionForm more).pending name 0 a = 0) :
    0 < (Definition.functionForm more).pending name 0 above := by
  subst same
  rw [List.append_assoc] at split
  obtain ⟨text', whole', count, -⟩ := text_between split
  obtain rfl : text = text' := List.append_cancel_right (whole.symm.trans whole')
  have reaches := Definition.count_le_breaks word isOpen (whole ▸ matched)
  rw [Definition.Form.pending_append, reached, Definition.Form.pending, matched, Option.map_some,
    Option.getD_some, Definition.Form.pending_of_le (by omega)]
  omega

/-- A line where a form of a function matches belongs to an earlier match just if a call is open
above. -/
theorem pending_eq_zero_iff {more : Pattern} (among : more ∈ Definition.functionTails)
    {m : Definition.Match} (matched : (Definition.functionForm more).match? name l.onward = some m) :
    (Definition.functionForm more).pending name 0 above = 0 ↔ ¬ d.OpenAbove name l := by
  have begins {s : List Char} {m : Definition.Match}
      (matched : (Definition.functionForm more).match? name s = some m) :
      ∃ lead arguments, Definition.BeginsCall lead name s arguments := by
    obtain ⟨lead, gap, arguments, texts, behind, gaps, blank, -, -, same, -⟩ :=
      Definition.functionForm_match?_some matched
    exact ⟨lead, _, gaps, gap, blank, same⟩
  constructor
  · rintro none ⟨l', member, text, whole, isOpen⟩
    obtain ⟨a, between, rfl⟩ := split_of_leavesOpen split member whole isOpen
    obtain ⟨m', matched'⟩ := Definition.match?_of_leavesOpen word isOpen matched
    rw [← whole] at matched'
    rcases Nat.eq_zero_or_pos ((Definition.functionForm more).pending name 0 a) with reached | runs
    · have pending := pending_of_leavesOpen split word rfl whole isOpen matched' reached
      omega
    · -- The line is itself in a match; that one has opened its call further up and leaves it open.
      obtain ⟨a, l₀, between₀, m₀, rfl, reached, matched₀, breaks⟩ :=
        Definition.Form.exists_of_pending runs
      have split' : d.lines = a ++ l₀ :: (between₀ ++ l' :: (between ++ l :: below)) := by simp [split]
      obtain ⟨text₀, whole₀, count, ends⟩ := text_between split'
      obtain ⟨lead, arguments, calls⟩ := begins matched'
      have isOpen₀ := Definition.leavesOpen_of_match? word among ends calls (whole₀ ▸ matched₀) (by omega)
      have both := isOpen₀.append (isOpen.not_mem word)
      have same : a ++ l₀ :: between₀ ++ l' :: between = a ++ l₀ :: (between₀ ++ l' :: between) := by simp
      have onward : l₀.onward = text₀ ++ text ++ l.onward := by rw [whole₀, whole, List.append_assoc]
      have pending := pending_of_leavesOpen split word same onward both matched₀ reached
      omega
  · intro closed
    by_contra runs
    obtain ⟨a, l', between, m', rfl, -, matched', breaks⟩ :=
      Definition.Form.exists_of_pending (Nat.pos_of_ne_zero runs)
    rw [List.append_assoc] at split
    obtain ⟨text, whole, count, ends⟩ := text_between split
    obtain ⟨lead, arguments, calls⟩ := begins matched
    have isOpen := Definition.leavesOpen_of_match? word among ends calls (whole ▸ matched') (by omega)
    exact closed ⟨l', split ▸ by simp, text, whole, isOpen⟩

end OpenAbove

section Functions

variable {name : List Char} (word : isWord name = true)
include word

/-- A function is defined where one of the forms of functions finds it, since they are tried first. -/
theorem mem_definitions_function_iff {span : Span} : ⟨.function, span⟩ ∈ d.definitions name ↔
    ∃ more ∈ Definition.functionTails, span ∈ (Definition.functionForm more).matchesIn name 0 d.lines := by
  rw [mem_definitions_iff]
  constructor
  · rintro ⟨-, form, first, kind⟩
    have found : span ∈ form.matchesIn name 0 d.lines := by simpa using List.find?_some first
    rcases Definition.mem_formsFor (List.mem_of_find?_eq_some first) with ⟨more, among, rfl⟩ | value | rfl
    · exact ⟨more, among, found⟩
    · have others : ∀ form ∈ Definition.valueForms, form.kind ≠ .function := by decide
      exact absurd kind.symm (others form value)
    · cases kind
  · rintro ⟨more, among, found⟩
    have inside : Definition.functionForm more ∈ Definition.functionForms := by
      rw [Definition.functionForms_eq]
      exact List.mem_map_of_mem among
    obtain ⟨form, first⟩ : ∃ form, Definition.functionForms.find?
        (fun form => span ∈ form.matchesIn name 0 d.lines) = some form := by
      rw [← Option.isSome_iff_exists, List.find?_isSome]
      exact ⟨_, inside, by simpa using found⟩
    refine ⟨word, form, ?_, ?_⟩
    · rw [Definition.formsFor, List.append_assoc, List.find?_append, first, Option.some_or]
    · obtain ⟨more', rfl⟩ := Definition.mem_functionForms (List.mem_of_find?_eq_some first)
      rfl

end Functions

end Document

namespace Reading

/-- A function is a callable on its line. -/
theorem callable_of_function {lines : List Line} {r : Reading} {s : Symbol} (member : s ∈ r.symbols lines)
    {signature : Signature} (form : s.form = .function signature) :
    ∃ l ∈ lines, ∃ c, Shape.callable? l.trimmed = some c ∧ s.name = c.name ∧ signature = c.signature ∧
      s.site = l.site 0 c.name (Container.bodyStop l c.body) := by
  have origin := symbols_origin (Q := fun _ => True) (fun _ _ => trivial) (fun _ _ _ _ => trivial)
    (fun _ _ _ _ => trivial) (fun _ _ _ _ => trivial) s member
  rcases origin with ⟨l, inside, declares⟩ | ⟨b, -, rfl⟩
  · rcases topLevel?_some declares with ⟨c, reads, -, rfl⟩ | ⟨-, c, -, rfl⟩
    · obtain rfl := SymbolForm.function.inj form
      exact ⟨l, inside, c, reads, rfl, rfl, rfl⟩
    · cases form
  · unfold Container.close at form
    split at form <;> cases form

end Reading

namespace Document

variable {d : Document}

/-- A form of a function finds the name behind the indentation of a line if what follows the parameters
fits and no call of the name is open above the line. -/
theorem mem_matchesIn_functionForm_iff {l : Line} (member : l ∈ d.lines) {name : List Char}
    (word : isWord name = true) {before gap parameters behind : List Char}
    (gaps : ∀ c ∈ before, Text.isGap c = true) (blank : Text.Blanks gap) (closing : ')' ∉ parameters)
    (onward : l.onward = before ++ (name ++ (gap ++ '(' :: (parameters ++ ')' :: behind))))
    {more : Pattern} (among : more ∈ Definition.functionTails) :
    Span.onLine l.number before.length (before.length + name.length) ∈
        (Definition.functionForm more).matchesIn name 0 d.lines ↔
      (Pattern.take? (.blanks :: more) behind).isSome = true ∧ ¬ d.OpenAbove name l := by
  obtain ⟨above, below, split⟩ := List.append_of_mem member
  rw [mem_matchesIn_iff_fitsAt onward split]
  have fits_iff : (Definition.functionForm more).FitsAt before name
      (gap ++ '(' :: (parameters ++ ')' :: behind)) ↔ _ :=
    Definition.fitsAt_functionForm_iff word blank closing
  constructor
  · rintro ⟨reached, fits⟩
    obtain ⟨m, matched, -⟩ := Definition.Form.match?_iff_fitsAt.mpr fits
    rw [← onward] at matched
    exact ⟨(fits_iff.mp fits).2, (pending_eq_zero_iff split word among matched).mp reached⟩
  · rintro ⟨taken, closed⟩
    have fits := fits_iff.mpr ⟨gaps, taken⟩
    obtain ⟨m, matched, -⟩ := Definition.Form.match?_iff_fitsAt.mpr fits
    rw [← onward] at matched
    exact ⟨(pending_eq_zero_iff split word among matched).mpr closed, fits⟩

/-- A callable on a line is found as a function just if its result type is a word and no call of its
name is open above it. -/
theorem mem_definitions_of_callable (plain : Text.plainBlanks d.chars = true) {l : Line}
    (member : l ∈ d.lines) {c : Shape.Callable} (reads : Shape.callable? l.trimmed = some c)
    (stop : Position) :
    ⟨.function, (l.site 0 c.name stop).selection⟩ ∈ d.definitions c.name.toList ↔
      (∀ type ∈ c.signature.result, ∀ e ∈ type.toList, Text.isWordChar e = true) ∧
        ¬ d.OpenAbove c.name.toList l := by
  obtain ⟨name, gap, parameters, gap', result, rest, trimmed, same, named, blank, closing, blank', results,
    follows⟩ := Shape.callable?_some reads
  obtain ⟨tail, onward⟩ := onward_of_trimmed member
  have word := isWord_of_nameChars (Piece.ne_nil_of_word named) (Shape.nameChars_of_name named)
  have shape : l.onward = Text.indent l.content ++
      (name ++ (gap ++ '(' :: (parameters ++ ')' :: (gap' ++ (rest ++ tail))))) := by
    simp [onward, trimmed]
  have place : (Text.indent l.content).length = l.indent + 0 := rfl
  have typed : (∀ type ∈ c.signature.result, ∀ e ∈ type.toList, Text.isWordChar e = true) ↔
      ∀ type ∈ result, ∀ e ∈ type, Text.isWordChar e = true := by
    rw [results]
    cases result <;> simp
  have found {more : Pattern} (among : more ∈ Definition.functionTails) :=
    mem_matchesIn_functionForm_iff member word (gaps_of_indent plain member) blank closing shape among
  rw [Line.selection_site place, same, String.toList_ofList, typed, mem_definitions_function_iff word,
    ← Definition.take?_functionTails_iff follows blank' tail]
  constructor
  · rintro ⟨more, among, here⟩
    obtain ⟨taken, closed⟩ := (found among).mp here
    exact ⟨⟨more, among, taken⟩, closed⟩
  · rintro ⟨⟨more, among, taken⟩, closed⟩
    exact ⟨more, among, (found among).mpr ⟨taken, closed⟩⟩

end Document

/-- In a document of plain blanks a function is defined where it is declared just if its result type,
where it has one, is a word, and no call of its name is open above its line. -/
theorem function_defined_iff {d : Document} (plain : Text.plainBlanks d.chars = true) :
    ∀ s ∈ (Model.ofDocument d).symbols, ∀ signature, s.form = .function signature →
      ∃ l, d.line? s.site.line = some l ∧
        (⟨.function, s.site.selection⟩ ∈ d.definitions s.name.toList ↔
          (∀ type ∈ signature.result, ∀ c ∈ type.toList, Text.isWordChar c = true) ∧
            ¬ d.OpenAbove s.name.toList l) := by
  intro s completes signature form
  obtain ⟨l, member, c, reads, name, rfl, site⟩ := Reading.callable_of_function completes form
  refine ⟨l, ?_, ?_⟩
  · rw [site]
    exact Document.line?_of_mem member
  · rw [site, name]
    exact Document.mem_definitions_of_callable plain member reads _

/-- A document where a call that is left open hides the function below it. -/
def interrupted : Document :=
  .ofString "area(\n  area(): float => 2\nhalf(x: int,\ty: int): int \x7b\n\x7d\n"

/-- One function of `interrupted` is defined where it is declared, so no call of its name is open there.
Above the other one a call is, and it is not defined. -/
theorem function_defined_interrupted :
    (∃ s ∈ (Model.ofDocument interrupted).symbols, s.name = "half" ∧
      ∃ l, interrupted.line? s.site.line = some l ∧ ¬ interrupted.OpenAbove "half".toList l) ∧
    ∃ s ∈ (Model.ofDocument interrupted).symbols, s.name = "area" ∧
      ⟨.function, s.site.selection⟩ ∉ interrupted.definitions s.name.toList := by
  have plain : Text.plainBlanks interrupted.chars = true := by decide +kernel
  constructor
  · have declares : ∃ s ∈ (Model.ofDocument interrupted).symbols, s.name = "half" ∧
        s.form = .function ⟨"x: int,\ty: int", some "int"⟩ ∧
        ⟨.function, s.site.selection⟩ ∈ interrupted.definitions s.name.toList := by decide +kernel
    obtain ⟨s, member, name, form, found⟩ := declares
    obtain ⟨l, place, defined⟩ := function_defined_iff plain s member _ form
    exact ⟨s, member, name, l, place, name ▸ (defined.mp found).2⟩
  · have declares : ∃ s ∈ (Model.ofDocument interrupted).symbols, s.name = "area" ∧
        s.form = .function ⟨"", some "float"⟩ ∧ s.site.line = 1 := by decide +kernel
    obtain ⟨s, member, name, form, line⟩ := declares
    obtain ⟨l, place, defined⟩ := function_defined_iff plain s member _ form
    refine ⟨s, member, name, fun found => (defined.mp found).2 ?_⟩
    obtain ⟨l', inside, whole⟩ : ∃ l' ∈ interrupted.lines,
        some l'.onward = (interrupted.line? 1).map fun l => "area(\n".toList ++ l.onward := by
      decide +kernel
    rw [line] at place
    rw [place, Option.map_some, Option.some.injEq] at whole
    refine ⟨l', inside, _, whole, [], ['\n'], ⟨nofun, [], Text.blanks_nil, ?_⟩, by decide⟩
    rw [name]
    rfl

/-- A function whose result type is a list has no definition. -/
theorem function_undefined :
    Text.plainBlanks "scores(): [int] => all\n".toList = true ∧
      ∃ s ∈ (Model.ofString "scores(): [int] => all\n").symbols, s.kind = .function ∧
        (Document.ofString "scores(): [int] => all\n").definitions s.name.toList = [] := by
  decide +kernel

end SymbolIndex
