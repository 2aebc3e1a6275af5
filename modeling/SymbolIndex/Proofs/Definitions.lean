import Mathlib.Data.List.Induction
import SymbolIndex.Definition
import SymbolIndex.Proofs.Words

/-! Where a name is declared it is also referred to. Every form has the name on one line with no
word character right before it or right behind it, so what a form finds is a whole word; and a form
that declares a value begins with one of the words by which references are filtered. A place that
several forms find is reported by the first of them. -/
namespace SymbolIndex

namespace Text

theorem isBlank_of_isGap {c : Char} (gap : isGap c = true) : isBlank c = true := by
  simp only [isGap, Bool.or_eq_true, beq_iff_eq] at gap
  rcases gap with rfl | rfl <;> rfl

theorem blanks_of_gaps {s : List Char} (gaps : ∀ c ∈ s, isGap c = true) : Blanks s :=
  fun c member => isBlank_of_isGap (gaps c member)

theorem isBlank_of_isWordChar {c : Char} (word : isWordChar c = true) : isBlank c = false := by
  cases blank : isBlank c with
  | false => rfl
  | true =>
    rw [isWordChar_of_isBlank blank] at word
    cases word

end Text

namespace Definition

section Places

variable {found : List Definition} {kind : Kind} {span : Span} {spans : List Span}

theorem addNew_of_known (known : ∃ y ∈ found, y.span = span) :
    addNew found kind (span :: spans) = addNew found kind spans := by
  obtain ⟨y, inside, same⟩ := known
  have any : found.any (·.span == span) = true :=
    List.any_eq_true.mpr ⟨y, inside, beq_iff_eq.mpr same⟩
  rw [addNew, List.foldl_cons, if_pos any]
  rfl

theorem addNew_of_new (new : ∀ y ∈ found, y.span ≠ span) :
    addNew found kind (span :: spans) = addNew (found ++ [⟨kind, span⟩]) kind spans := by
  have none : ¬ found.any (·.span == span) = true := by simpa using new
  rw [addNew, List.foldl_cons, if_neg none]
  rfl

theorem mem_addNew_iff {x : Definition} : x ∈ addNew found kind spans ↔
    x ∈ found ∨ ((∀ y ∈ found, y.span ≠ x.span) ∧ x.span ∈ spans ∧ x.kind = kind) := by
  induction spans generalizing found with
  | nil => simp [addNew]
  | cons span spans ih =>
    by_cases known : ∃ y ∈ found, y.span = span
    · rw [addNew_of_known known, ih, List.mem_cons]
      obtain ⟨y, inside, same⟩ := known
      constructor
      · exact Or.imp_right fun ⟨new, here, kinds⟩ => ⟨new, .inr here, kinds⟩
      · rintro (before | ⟨new, rfl | here, kinds⟩)
        · exact .inl before
        · exact absurd same (new y inside)
        · exact .inr ⟨new, here, kinds⟩
    · have new : ∀ y ∈ found, y.span ≠ span := fun y inside same => known ⟨y, inside, same⟩
      rw [addNew_of_new new, ih, List.mem_append, List.mem_singleton, List.mem_cons]
      constructor
      · rintro ((before | rfl) | ⟨absent, here, kinds⟩)
        · exact .inl before
        · exact .inr ⟨new, .inl rfl, rfl⟩
        · exact .inr ⟨fun y inside => absent y (List.mem_append_left _ inside), .inr here, kinds⟩
      · rintro (before | ⟨absent, here, kinds⟩)
        · exact .inl (.inl before)
        · by_cases same : x.span = span
          · obtain ⟨kind', span'⟩ := x
            subst same kinds
            exact .inl (.inr rfl)
          · refine .inr ⟨?_, here.resolve_left same, kinds⟩
            intro y inside
            rcases List.mem_append.mp inside with before | last
            · exact absent y before
            · rw [List.mem_singleton.mp last]
              exact Ne.symm same

theorem nodup_addNew (nodup : (found.map Definition.span).Nodup) :
    ((addNew found kind spans).map Definition.span).Nodup := by
  induction spans generalizing found with
  | nil => exact nodup
  | cons span spans ih =>
    by_cases known : ∃ y ∈ found, y.span = span
    · rw [addNew_of_known known]
      exact ih nodup
    · have new : ∀ y ∈ found, y.span ≠ span := fun y inside same => known ⟨y, inside, same⟩
      rw [addNew_of_new new]
      apply ih
      rw [List.map_append, List.nodup_append]
      refine ⟨nodup, List.pairwise_singleton _ _, ?_⟩
      intro a before b last
      obtain ⟨y, inside, rfl⟩ := List.mem_map.mp before
      obtain rfl : b = span := List.mem_singleton.mp last
      exact new y inside

/-- After a pass the places that are still unknown are those that it did not find either. -/
theorem new_addNew_iff : (∀ y ∈ addNew found kind spans, y.span ≠ span) ↔
    (∀ y ∈ found, y.span ≠ span) ∧ span ∉ spans := by
  constructor
  · intro absent
    have before : ∀ y ∈ found, y.span ≠ span := fun y inside => absent y (mem_addNew_iff.mpr (.inl inside))
    exact ⟨before, fun here => absent ⟨kind, span⟩ (mem_addNew_iff.mpr (.inr ⟨before, here, rfl⟩)) rfl⟩
  · rintro ⟨before, notHere⟩ y inside rfl
    rcases mem_addNew_iff.mp inside with known | ⟨-, here, -⟩
    · exact before y known rfl
    · exact notHere here

/-- Of several passes, each with the places that it finds, the first that has a place says what is
declared there. -/
theorem mem_foldl_addNew_iff {passes : Form → List Span} {forms : List Form} {x : Definition} :
    x ∈ forms.foldl (fun found form => addNew found form.kind (passes form)) found ↔
      x ∈ found ∨ ((∀ y ∈ found, y.span ≠ x.span) ∧
        ∃ form, forms.find? (fun form => x.span ∈ passes form) = some form ∧ x.kind = form.kind) := by
  induction forms generalizing found with
  | nil => simp
  | cons form forms ih =>
    rw [List.foldl_cons, ih, mem_addNew_iff, new_addNew_iff]
    by_cases here : x.span ∈ passes form
    · rw [List.find?_cons_of_pos (by simpa using here)]
      simp [here]
    · rw [List.find?_cons_of_neg (by simpa using here)]
      simp [here]

theorem nodup_foldl_addNew {passes : Form → List Span} {forms : List Form}
    (nodup : (found.map Definition.span).Nodup) :
    ((forms.foldl (fun found form => addNew found form.kind (passes form)) found).map
      Definition.span).Nodup := by
  induction forms generalizing found with
  | nil => exact nodup
  | cons form forms ih => exact ih (nodup_addNew nodup)

end Places

section Matches

variable {form : Form} {name s : List Char}

/-- What a form matches: its lead, the name, and one of its tails behind the name. -/
theorem Form.match?_some {m : Match} (matched : form.match? name s = some m) :
    ∃ lead tail texts behind, s = lead.flatten ++ (name ++ (texts.flatten ++ behind)) ∧
      form.lead.Takes lead (name ++ (texts.flatten ++ behind)) ∧ tail ∈ form.tails ∧
      tail.Takes texts behind ∧ m = ⟨lead.flatten.length, texts.flatten.count '\n'⟩ := by
  unfold match? at matched
  split at matched
  · cases matched
  · rename_i lead rest leads
    obtain ⟨rfl, leading⟩ := Pattern.take?_eq_some_iff.mp leads
    split at matched
    · cases matched
    · rename_i rest' named
      obtain rfl := Text.afterPrefix?_eq_some_iff.mp named
      obtain ⟨tail, member, tailed⟩ := List.exists_of_findSome?_eq_some matched
      obtain ⟨⟨texts, behind⟩, takes, rfl⟩ := Option.map_eq_some_iff.mp tailed
      obtain ⟨rfl, following⟩ := Pattern.take?_eq_some_iff.mp takes
      exact ⟨lead, tail, texts, behind, rfl, leading, member, following,
        by rw [Shape.width_eq_length_flatten]⟩

/-- What a form finds it has matched at the beginning of some line. -/
theorem Form.mem_matchesIn {skipped : Nat} {lines : List Line} {span : Span}
    (member : span ∈ form.matchesIn name skipped lines) :
    ∃ l ∈ lines, ∃ m, form.match? name l.onward = some m ∧
      span = Span.onLine l.number m.column (m.column + name.length) := by
  induction lines generalizing skipped with
  | nil => simp [matchesIn] at member
  | cons l lines ih =>
    have later {skipped : Nat} (inside : span ∈ form.matchesIn name skipped lines) :
        ∃ l' ∈ l :: lines, ∃ m, form.match? name l'.onward = some m ∧
          span = Span.onLine l'.number m.column (m.column + name.length) := by
      obtain ⟨l', among, found⟩ := ih inside
      exact ⟨l', List.mem_cons_of_mem l among, found⟩
    cases skipped with
    | succ skipped => exact later member
    | zero =>
      rw [matchesIn] at member
      split at member
      · exact later member
      · rename_i m matched
        rcases List.mem_cons.mp member with rfl | member
        · exact ⟨l, List.mem_cons_self, m, matched, rfl⟩
        · exact later member

/-- The number of lines that follow and belong to an earlier match, once some lines are searched. -/
def Form.pending (form : Form) (name : List Char) : (skipped : Nat) → List Line → Nat
  | skipped, [] => skipped
  | skipped + 1, _ :: later => pending form name skipped later
  | 0, l :: later => pending form name (((form.match? name l.onward).map Match.breaks).getD 0) later

theorem Form.matchesIn_append (skipped : Nat) (before after : List Line) :
    form.matchesIn name skipped (before ++ after) =
      form.matchesIn name skipped before ++ form.matchesIn name (form.pending name skipped before) after := by
  induction before generalizing skipped with
  | nil => simp [matchesIn, pending]
  | cons l before ih =>
    cases skipped with
    | succ skipped => exact ih skipped
    | zero =>
      rw [List.cons_append, matchesIn, matchesIn, pending]
      cases form.match? name l.onward with
      | none => exact ih 0
      | some m => exact congrArg (_ :: ·) (ih m.breaks)

theorem Form.pending_append (skipped : Nat) (before after : List Line) :
    form.pending name skipped (before ++ after) =
      form.pending name (form.pending name skipped before) after := by
  induction before generalizing skipped with
  | nil => rw [List.nil_append, pending]
  | cons l before ih =>
    cases skipped with
    | succ skipped => exact ih skipped
    | zero => exact ih _

/-- A match that runs over more lines goes on running over the rest of them. -/
theorem Form.pending_of_le {skipped : Nat} {lines : List Line} (reaches : lines.length ≤ skipped) :
    form.pending name skipped lines = skipped - lines.length := by
  induction lines generalizing skipped with
  | nil => rw [pending, List.length_nil, Nat.sub_zero]
  | cons l lines ih =>
    rw [List.length_cons] at reaches
    cases skipped with
    | zero => omega
    | succ skipped =>
      rw [pending, ih (Nat.le_of_succ_le_succ reaches), List.length_cons]
      omega

/-- Lines that belong to an earlier match belong to one that was found on a line before them. -/
theorem Form.exists_of_pending {lines : List Line} (runs : 0 < form.pending name 0 lines) :
    ∃ above l between m, lines = above ++ l :: between ∧ form.pending name 0 above = 0 ∧
      form.match? name l.onward = some m ∧ m.breaks = between.length + form.pending name 0 lines := by
  induction lines using List.reverseRecOn with
  | nil => cases runs
  | append_singleton lines l ih =>
    rw [pending_append] at runs ⊢
    cases earlier : form.pending name 0 lines with
    | zero =>
      rw [earlier] at runs
      cases matched : form.match? name l.onward with
      | none => simp [pending, matched] at runs
      | some m => exact ⟨lines, l, [], m, rfl, earlier, matched, by simp [pending, matched]⟩
    | succ skipped =>
      obtain ⟨above, l', between, m, rfl, reached, matched, breaks⟩ := ih (by omega)
      refine ⟨above, l', between ++ [l], m, by simp, reached, matched, ?_⟩
      rw [breaks, earlier, pending, pending, List.length_append, List.length_singleton]
      omega

/-- A form finds the name on a line just if it matches there and no earlier match runs over the
line. -/
theorem Form.mem_matchesIn_iff {before after : List Line} {l : Line}
    (ordered : (before ++ l :: after).Pairwise fun a b => a.number < b.number) {column : Nat} :
    Span.onLine l.number column (column + name.length) ∈ form.matchesIn name 0 (before ++ l :: after) ↔
      form.pending name 0 before = 0 ∧ ∃ m, form.match? name l.onward = some m ∧ m.column = column := by
  obtain ⟨-, behind, apart⟩ := List.pairwise_append.mp ordered
  obtain ⟨below, -⟩ := List.pairwise_cons.mp behind
  have notBefore {skipped : Nat} :
      Span.onLine l.number column (column + name.length) ∉ form.matchesIn name skipped before := by
    intro found
    obtain ⟨l', inside, m, -, place⟩ := mem_matchesIn found
    have same := congrArg (·.start.line) place
    exact absurd (apart l' inside l List.mem_cons_self) (by simp_all [Span.onLine])
  have notBehind {skipped : Nat} :
      Span.onLine l.number column (column + name.length) ∉ form.matchesIn name skipped after := by
    intro found
    obtain ⟨l', inside, m, -, place⟩ := mem_matchesIn found
    have same := congrArg (·.start.line) place
    exact absurd (below l' inside) (by simp_all [Span.onLine])
  rw [matchesIn_append, List.mem_append, or_iff_right notBefore]
  cases form.pending name 0 before with
  | succ skipped => simp [matchesIn, notBehind]
  | zero =>
    rw [matchesIn]
    cases form.match? name l.onward with
    | none => simp [notBehind]
    | some m =>
      rw [List.mem_cons, or_iff_left notBehind]
      simp [Span.onLine, eq_comm]

theorem ends_someGaps : Pattern.Ends [someGaps] (Text.isWordChar · = false) := by
  rintro _ rest (_ | ⟨fits, -, _ | _⟩)
  rename_i text
  obtain ⟨nonempty, chars⟩ := Piece.some1_fits_iff.mp fits
  obtain ⟨before, c, rfl⟩ := (List.eq_nil_or_concat' text).resolve_left nonempty
  refine ⟨c, by simp, Text.isWordChar_of_isBlank (Text.isBlank_of_isGap (chars c (by simp)))⟩

theorem ends_comma : Pattern.Ends [.literal [','], gaps] (Text.isWordChar · = false) := by
  rintro _ rest (_ | ⟨comma, -, _ | ⟨fits, -, _ | _⟩⟩)
  rename_i marks text
  obtain rfl : marks = [','] := comma
  obtain rfl | ⟨before, c, rfl⟩ := List.eq_nil_or_concat' text
  · exact ⟨',', rfl, rfl⟩
  · refine ⟨c, ?_, Text.isWordChar_of_isBlank (Text.isBlank_of_isGap (fits c (by simp)))⟩
    rw [List.flatten_cons, List.flatten_singleton, ← List.append_assoc, List.getLast?_concat]

/-- What may follow the parameters of a function: an arrow or a brace, and before it a result. -/
def functionTails : List Pattern := [[arrow], [brace], resultWord ++ [brace], resultWord ++ [arrow]]

/-- The form of a function, by what follows its parameters. -/
def functionForm (more : Pattern) : Form :=
  { kind := .function, lead := [gaps], tails := [parameters ++ more] }

theorem functionForms_eq : functionForms = functionTails.map functionForm := rfl

theorem mem_formsFor (member : form ∈ formsFor name) :
    (∃ more ∈ functionTails, form = functionForm more) ∨ form ∈ valueForms ∨ form = containerForm := by
  rw [formsFor, functionForms_eq, List.mem_append, List.mem_append] at member
  rcases member with (function | value) | container
  · obtain ⟨more, among, rfl⟩ := List.mem_map.mp function
    exact .inl ⟨more, among, rfl⟩
  · exact .inr (.inl value)
  · split at container
    · exact .inr (.inr (List.mem_singleton.mp container))
    · cases container

/-- Before the name a form has gaps only, or something that ends outside words. -/
theorem lead_of_mem_formsFor (member : form ∈ formsFor name) :
    form.lead = [gaps] ∨ form.lead.Ends (Text.isWordChar · = false) := by
  rcases mem_formsFor member with ⟨more, -, rfl⟩ | value | rfl
  · exact .inl rfl
  · have keyword (word : Piece) : Pattern.Ends [gaps, word, someGaps] (Text.isWordChar · = false) :=
      (ends_someGaps.cons word).cons gaps
    apply Or.inr
    simp only [valueForms, List.mem_cons, List.not_mem_nil, or_false] at value
    rcases value with rfl | rfl | rfl | rfl
    · exact keyword letWord
    · exact keyword constWord
    · exact ((((ends_comma.cons gaps).cons _).cons someGaps).cons letWord).cons gaps
    · exact keyword letWord
  · exact .inl rfl

/-- Behind the name a form has blanks and then a mark. -/
theorem tail_of_mem_formsFor (member : form ∈ formsFor name) {tail : Pattern} (isTail : tail ∈ form.tails) :
    ∃ allowed mark later, tail = .run allowed :: .literal [mark] :: later ∧
      (∀ c, allowed c = true → Text.isBlank c = true) ∧ Text.isWordChar mark = false := by
  have gap : ∀ c, Text.isGap c = true → Text.isBlank c = true := fun _ => Text.isBlank_of_isGap
  rcases mem_formsFor member with ⟨more, -, rfl⟩ | value | rfl
  · obtain rfl := List.mem_singleton.mp isTail
    exact ⟨_, '(', _, rfl, fun _ => id, rfl⟩
  · simp only [valueForms, List.mem_cons, List.not_mem_nil, or_false] at value
    rcases value with rfl | rfl | rfl | rfl
    · simp only [List.mem_cons, List.not_mem_nil, or_false] at isTail
      rcases isTail with rfl | rfl
      · exact ⟨_, '=', _, rfl, gap, rfl⟩
      · exact ⟨_, ',', _, rfl, gap, rfl⟩
    · obtain rfl := List.mem_singleton.mp isTail
      exact ⟨_, '=', _, rfl, gap, rfl⟩
    · obtain rfl := List.mem_singleton.mp isTail
      exact ⟨_, '=', _, rfl, gap, rfl⟩
    · obtain rfl := List.mem_singleton.mp isTail
      exact ⟨_, ',', _, rfl, gap, rfl⟩
  · simp only [containerForm, List.mem_cons, List.not_mem_nil, or_false] at isTail
    rcases isTail with rfl | rfl
    · exact ⟨_, '\x7b', _, rfl, gap, rfl⟩
    · exact ⟨_, ':', _, rfl, gap, rfl⟩

theorem oneLine_of_mem_formsFor (member : form ∈ formsFor name) :
    form.lead.all (Piece.avoids '\n') = true := by
  have values : ∀ form ∈ valueForms, form.lead.all (Piece.avoids '\n') = true := by decide
  rcases mem_formsFor member with ⟨more, -, rfl⟩ | value | rfl
  · rfl
  · exact values form value
  · rfl

/-- A form finds the name as a word, with no line break before it. -/
theorem Form.match?_word (member : form ∈ formsFor name) {m : Match}
    (matched : form.match? name s = some m) :
    ∃ lead rest, s = lead ++ (name ++ rest) ∧ lead.length = m.column ∧ '\n' ∉ lead ∧
      Text.Boundary lead name ∧ ∀ c, rest.head? = some c → Text.isWordChar c = false := by
  obtain ⟨lead, tail, texts, behind, text, leads, isTail, tails, rfl⟩ := match?_some matched
  refine ⟨lead.flatten, texts.flatten ++ behind, text, rfl, ?_, .inl ?_, ?_⟩
  · exact Pattern.not_mem_of_avoids (oneLine_of_mem_formsFor member) leads
  · intro c last
    rcases lead_of_mem_formsFor member with only | ends
    · rw [only] at leads
      obtain _ | ⟨fits, -, _ | _⟩ := leads
      apply Text.isWordChar_of_isBlank
      apply Text.isBlank_of_isGap
      exact fits c (by simpa using List.mem_of_getLast? last)
    · obtain ⟨d, last', other⟩ := ends _ _ leads
      rw [last] at last'
      cases last'
      exact other
  · intro c first
    obtain ⟨allowed, mark, later, rfl, blank, outside⟩ := tail_of_mem_formsFor member isTail
    obtain _ | ⟨fits, -, _ | ⟨marked, -, -⟩⟩ := tails
    rename_i gap marks texts
    obtain rfl : marks = [mark] := marked
    have cut : (gap ++ mark :: (texts.flatten ++ behind)).head? = some c := by simpa using first
    rcases Text.head?_append_cons cut with inGap | rfl
    · exact Text.isWordChar_of_isBlank (blank c (fits c inGap))
    · exact outside

/-- The form of a value begins with a word that declares something. -/
theorem lead_of_mem_valueForms (member : form ∈ valueForms) :
    ∃ word more, form.lead = gaps :: .literal word :: someGaps :: more ∧ word ∈ Line.declarationWords := by
  simp only [valueForms, List.mem_cons, List.not_mem_nil, or_false] at member
  rcases member with rfl | rfl | rfl | rfl
  · exact ⟨_, _, rfl, by decide⟩
  · exact ⟨_, _, rfl, by decide⟩
  · exact ⟨_, _, rfl, by decide⟩
  · exact ⟨_, _, rfl, by decide⟩

end Matches

end Definition

namespace Line

theorem head_of_declarationWord {word : List Char} (declares : word ∈ declarationWords) :
    ∃ c later, word = c :: later ∧ Text.isBlank c = false := by
  simp only [declarationWords, List.mem_cons, List.not_mem_nil, or_false] at declares
  rcases declares with rfl | rfl | rfl
  · exact ⟨'l', ['e', 't'], rfl, rfl⟩
  · exact ⟨'c', ['o', 'n', 's', 't'], rfl, rfl⟩
  · exact ⟨'f', ['n'], rfl, rfl⟩

/-- A line declares something if it begins with a declaring word and a blank behind it. -/
theorem isDeclaration_of_word {word : List Char} (declares : word ∈ declarationWords) {gap : List Char}
    (blank : Text.Blanks gap) {c : Char} (gapped : Text.isBlank c = true) (rest : List Char) :
    isDeclaration (gap ++ (word ++ c :: rest)) = true := by
  have stops : Piece.blanks.Stops (word ++ c :: rest) := by
    obtain ⟨d, later, rfl, unblank⟩ := head_of_declarationWord declares
    exact Piece.run_stops unblank
  refine List.any_eq_true.mpr ⟨word, declares, ?_⟩
  have before : Piece.blanks.Fits gap := blank
  have worded : (Piece.literal word).Fits word := rfl
  rw [Pattern.take?_cons_of_fits before stops, Option.isSome_map,
    Pattern.take?_cons_of_fits worded trivial, Option.isSome_map]
  simp [Pattern.take?, Piece.some1, Piece.take?, gapped]

/-- What begins with the lead of a value's form declares something. -/
theorem isDeclaration_of_lead {form : Definition.Form} (value : form ∈ Definition.valueForms)
    {lead : List (List Char)} {behind : List Char} (takes : form.lead.Takes lead behind)
    (rest : List Char) : isDeclaration (lead.flatten ++ rest) = true := by
  obtain ⟨word, more, shape, declares⟩ := Definition.lead_of_mem_valueForms value
  rw [shape] at takes
  obtain _ | ⟨before, -, _ | ⟨worded, -, _ | ⟨after, -, -⟩⟩⟩ := takes
  rename_i gap words gaps texts
  obtain rfl : words = word := worded
  obtain ⟨nonempty, chars⟩ := Piece.some1_fits_iff.mp after
  obtain ⟨c, gaps, rfl⟩ := List.exists_cons_of_ne_nil nonempty
  have blank : Text.Blanks gap := Text.blanks_of_gaps before
  have gapped := Text.isBlank_of_isGap (chars c List.mem_cons_self)
  have whole := isDeclaration_of_word declares blank gapped (gaps ++ (texts.flatten ++ rest))
  simpa using whole

end Line

namespace Document

variable {d : Document} {name : List Char}

theorem mem_definitions_iff {x : Definition} :
    x ∈ d.definitions name ↔ isWord name = true ∧ ∃ form,
      (Definition.formsFor name).find? (fun form => x.span ∈ form.matchesIn name 0 d.lines) = some form ∧
        x.kind = form.kind := by
  unfold definitions
  cases isWord name with
  | false => simp
  | true =>
    rw [if_pos rfl, Definition.mem_foldl_addNew_iff]
    simp

/-- No place is reported twice. -/
theorem nodup_definitions : ((d.definitions name).map Definition.span).Nodup := by
  unfold definitions
  split
  · exact Definition.nodup_foldl_addNew .nil
  · exact .nil

/-- The place of a definition is reported once, with the kind of the first form that finds it. -/
theorem filter_definitions {earlier later : List Definition.Form} {form : Definition.Form} {span : Span}
    (word : isWord name = true) (forms : Definition.formsFor name = earlier ++ form :: later)
    (found : span ∈ form.matchesIn name 0 d.lines)
    (first : ∀ f ∈ earlier, span ∉ f.matchesIn name 0 d.lines) :
    (d.definitions name).filter (·.span = span) = [⟨form.kind, span⟩] := by
  have member : ⟨form.kind, span⟩ ∈ d.definitions name := by
    refine mem_definitions_iff.mpr ⟨word, form, ?_, rfl⟩
    rw [forms, List.find?_eq_some_iff_append]
    exact ⟨by simpa using found, earlier, later, rfl, by simpa using first⟩
  obtain ⟨before, behind, split⟩ := List.append_of_mem member
  have nodup : ((d.definitions name).map Definition.span).Nodup := nodup_definitions
  rw [split, List.map_append, List.map_cons, List.nodup_append] at nodup
  obtain ⟨-, once, apart⟩ := nodup
  have notBefore : ∀ x ∈ before, ¬ x.span = span := by
    intro x inside same
    exact apart x.span (List.mem_map_of_mem inside) span List.mem_cons_self same
  have notBehind : ∀ x ∈ behind, ¬ x.span = span := by
    intro x inside same
    exact (List.nodup_cons.mp once).1 (List.mem_map.mpr ⟨x, inside, same⟩)
  rw [split, List.filter_append, List.filter_cons_of_pos (by simp),
    List.filter_eq_nil_iff.mpr (by simpa using notBefore),
    List.filter_eq_nil_iff.mpr (by simpa using notBehind)]
  rfl

/-- A definition is a match of some form for its kind, on a line where the name stands as a word. -/
theorem match_of_mem_definitions {x : Definition} (member : x ∈ d.definitions name) :
    ∃ form ∈ Definition.formsFor name, x.kind = form.kind ∧ ∃ l ∈ d.lines, ∃ m,
      form.match? name l.onward = some m ∧ Text.HasWord l.content m.column name ∧
        x.span = Span.onLine l.number m.column (m.column + name.length) := by
  obtain ⟨word, form, first, kind⟩ := mem_definitions_iff.mp member
  have among := List.mem_of_find?_eq_some first
  have found : x.span ∈ form.matchesIn name 0 d.lines := by simpa using List.find?_some first
  obtain ⟨l, inside, m, matched, place⟩ := Definition.Form.mem_matchesIn found
  refine ⟨form, among, kind, l, inside, m, matched, ?_, place⟩
  obtain ⟨lead, rest, onward, column, oneLine, free, starts⟩ := Definition.Form.match?_word among matched
  obtain ⟨nonempty, chars⟩ := isWord_iff.mp word
  rw [← List.append_assoc] at onward
  have single : '\n' ∉ lead ++ name := by
    rw [List.mem_append, not_or]
    refine ⟨oneLine, fun newline => ?_⟩
    have never := chars _ newline
    cases never
  have bare : ∀ c, (lead ++ name).getLast? = some c → Text.isBlank c = false := by
    intro c last
    rw [List.getLast?_append_of_ne_nil _ nonempty] at last
    exact Text.isBlank_of_isWordChar (chars c (List.mem_of_getLast? last))
  obtain ⟨after, tail, content, behind⟩ := content_of_onward inside onward single bare
  refine ⟨lead, after, by rw [content, List.append_assoc], column, word, free, .inr ?_⟩
  intro c first
  apply starts
  rw [behind, List.head?_append, first]
  rfl

/-- What is on a declaring line that mentions the name is no reference beside the declarations. -/
theorem not_mem_withoutDeclarations {l : Line} (inside : l ∈ d.lines) {span : Span}
    (onLine : span.start.line = l.number) (declares : Line.isDeclaration l.content = true)
    (mentions : Text.occursIn name l.content = true) (spans : List Span) :
    span ∉ d.withoutDeclarations name spans := by
  intro kept
  have passes := (List.mem_filter.mp kept).2
  have here : d.lines.toArray[span.start.line]? = some l := by
    rw [List.getElem?_toArray, onLine]
    exact line?_of_mem inside
  simp [here, declares, mentions] at passes

/-- What is declared as a value is no reference beside the declarations. -/
theorem not_mem_referencesTo_of_value {x : Definition} (member : x ∈ d.definitions name)
    (value : x.kind = .binding ∨ x.kind = .constant) : x.span ∉ d.referencesTo name false := by
  obtain ⟨form, among, kind, l, inside, m, matched, has, place⟩ := match_of_mem_definitions member
  have isValue : form ∈ Definition.valueForms := by
    rw [kind] at value
    rcases Definition.mem_formsFor among with ⟨more, -, rfl⟩ | isValue | rfl
    · rcases value with other | other <;> cases other
    · exact isValue
    · rcases value with other | other <;> cases other
  obtain ⟨lead, tail, texts, behind, onward, leads, -, -, rfl⟩ := Definition.Form.match?_some matched
  obtain ⟨a, b, content, column, -⟩ := has
  obtain ⟨after, whole, -⟩ := content_append inside
  have cut : a ++ (name ++ (b ++ after)) = lead.flatten ++ (name ++ (texts.flatten ++ behind)) := by
    rw [← onward, whole, content]
    simp
  obtain rfl := List.append_inj_left cut column
  have declares : Line.isDeclaration l.content = true := by
    rw [content]
    exact Line.isDeclaration_of_lead isValue leads (name ++ b)
  have mentions : Text.occursIn name l.content = true := by
    rw [content]
    apply Text.occursIn_append_right
    exact Text.occursIn_of_startsWith (Text.startsWith_self_append name b)
  exact not_mem_withoutDeclarations inside (by rw [place]; rfl) declares mentions _

end Document

/-- Where a name is declared it is referred to. No place is reported twice; each is that of just one
whole word of the document, which is the name, and so a reference to it. The references without those
on declaring lines are some of all, in the same order, and none of them declares a value. -/
theorem definitions_are_references (d : Document) (name : List Char) :
    ((d.definitions name).map Definition.span).Nodup ∧
      (∀ x ∈ d.definitions name,
        (∃! before, ∃ behind, d.Occurrence name x.span before behind) ∧
          x.span ∈ d.references name ∧ x.span ∈ d.referencesTo name true) ∧
      (d.referencesTo name false).Sublist (d.referencesTo name true) ∧
      ∀ x ∈ d.definitions name, x.kind = .binding ∨ x.kind = .constant →
        x.span ∉ d.referencesTo name false := by
  refine ⟨d.nodup_definitions, ?_, List.filter_sublist, ?_⟩
  · intro x member
    obtain ⟨-, -, -, l, inside, m, -, has, place⟩ := Document.match_of_mem_definitions member
    obtain ⟨before, behind, occurs⟩ := Document.occurrence_of_hasWord inside has
    have reference := Document.mem_references_of_hasWord inside has
    rw [← place] at occurs reference
    refine ⟨⟨before, ⟨behind, occurs⟩, ?_⟩, reference, reference⟩
    rintro before' ⟨behind', occurs'⟩
    exact occurs'.unique occurs
  · exact fun x member value => Document.not_mem_referencesTo_of_value member value

/-- A document that declares one name as a constant, as the second of two variables and as a function
whose parameters run over two lines, and mentions it within a longer word. -/
def redeclared : Document :=
  .ofString "const é = 1\n  let ok, é = é(2)\n\té(a,\n b) \x7b\nlet éé = é\n"

/-- The constant of `redeclared` is a reference, one whole word, and not left when declarations are
dropped. -/
theorem definitions_of_redeclared :
    ∃ x ∈ redeclared.definitions "é".toList, x.kind = .constant ∧
      (∃! before, ∃ behind, redeclared.Occurrence "é".toList x.span before behind) ∧
      x.span ∈ redeclared.referencesTo "é".toList true ∧
      x.span ∉ redeclared.referencesTo "é".toList false := by
  have declared : ∃ x ∈ redeclared.definitions "é".toList, x.kind = .constant := by decide +kernel
  obtain ⟨x, member, constant⟩ := declared
  obtain ⟨-, covers, -, values⟩ := definitions_are_references redeclared "é".toList
  obtain ⟨one, -, reference⟩ := covers x member
  exact ⟨x, member, constant, one, reference, values x member (.inr constant)⟩

end SymbolIndex
