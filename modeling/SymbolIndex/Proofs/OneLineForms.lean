import SymbolIndex.Proofs.Definitions

/-! Containers and constants are defined where they are declared. Their forms and all forms of values
stay on their line, so nothing above keeps one from being found; and what stands before the name or
behind it tells them from the forms that are tried earlier, so no other kind is reported there. The
forms allow only some of the blanks around a name that the readers of lines do, which is why the
blanks of the document have to be plain. -/
namespace SymbolIndex

namespace Text

/-- Whether the only blanks of a text are spaces, tabs, newlines, and carriage returns right before
newlines. -/
def plainBlanks : List Char → Bool
  | [] => true
  | c :: s =>
    (!isBlank c || isGap c || c == '\n' || (c == '\r' && s.head? == some '\n')) && plainBlanks s

theorem blank_of_plainBlanks {a b : List Char} {c : Char} (plain : plainBlanks (a ++ c :: b) = true)
    (blank : isBlank c = true) : isGap c = true ∨ c = '\n' ∨ c = '\r' ∧ b.head? = some '\n' := by
  induction a with
  | nil => simpa [plainBlanks, blank, or_assoc] using (Bool.and_eq_true .. |>.mp plain).1
  | cons d a ih => exact ih (Bool.and_eq_true .. |>.mp plain).2

end Text

namespace Document

theorem getLast?_of_chomp {raw : List Char} (kept : chomp raw = raw) : raw.getLast? ≠ some '\r' := by
  intro returns
  have shorter := congrArg List.length kept
  rw [chomp, if_pos returns, List.length_dropLast] at shorter
  have positive := List.length_pos_of_ne_nil (List.ne_nil_of_mem (List.mem_of_getLast? returns))
  omega

/-- On its lines a document of plain blanks has only spaces and tabs for blanks. -/
theorem isGap_of_plainBlanks {d : Document} (plain : Text.plainBlanks d.chars = true) {l : Line}
    (member : l ∈ d.lines) {c : Char} (inside : c ∈ l.content) (blank : Text.isBlank c = true) :
    Text.isGap c = true := by
  obtain ⟨raw, rest, oneLine, -, line⟩ := lineOf_of_mem (d.lines_eq_linesFrom ▸ member)
  obtain ⟨terminator, whole, -⟩ := Text.exists_chomp_append raw
  obtain ⟨a, b, split⟩ := List.append_of_mem inside
  have content : chomp raw = a ++ c :: b := by rw [← split, line]; rfl
  have onward : l.onward = a ++ c :: (b ++ (terminator ++ rest)) := by
    calc l.onward = raw ++ rest := by rw [line]; rfl
      _ = chomp raw ++ terminator ++ rest := by rw [← whole]
      _ = a ++ c :: (b ++ (terminator ++ rest)) := by simp [content]
  rw [above_append member, onward, ← List.append_assoc] at plain
  rcases Text.blank_of_plainBlanks plain blank with gap | rfl | ⟨rfl, next⟩
  · exact gap
  · exact absurd (whole ▸ by simp [content]) oneLine
  · -- Before a newline there is nothing of the line left, and a return at its end is cut off.
    have nothing : b ++ terminator = [] := by
      rw [← List.append_assoc] at next
      cases both : b ++ terminator with
      | nil => rfl
      | cons e later =>
        rw [both] at next
        obtain rfl : e = '\n' := by simpa using next
        have newline : raw = a ++ '\r' :: '\n' :: later := by
          rw [whole, content, List.append_assoc, List.cons_append, both]
        exact absurd (by simp [newline]) oneLine
    obtain ⟨rfl, rfl⟩ := List.append_eq_nil_iff.mp nothing
    rw [List.append_nil] at whole
    exact absurd (by rw [whole, content]; simp) (getLast?_of_chomp whole.symm)

/-- A line's content begins with its indentation and what it trims to. -/
theorem onward_of_trimmed {d : Document} {l : Line} (member : l ∈ d.lines) :
    ∃ tail, l.onward = Text.indent l.content ++ (l.trimmed ++ tail) := by
  obtain ⟨tail, -, onward⟩ := upTo_column member (List.nil_append l.trimmed).symm
  exact ⟨tail, by simpa using onward⟩

end Document

namespace Definition

section Forms

variable {form : Form} {name before rest : List Char}

/-- A form fits a name between two texts: its lead takes the one, and one of its tails begins the
other. -/
def Form.FitsAt (form : Form) (before name rest : List Char) : Prop :=
  ∃ lead tail texts behind, form.lead.Takes lead (name ++ rest) ∧ lead.flatten = before ∧
    tail ∈ form.tails ∧ tail.Takes texts behind ∧ texts.flatten ++ behind = rest

theorem Form.match?_iff_fitsAt :
    (∃ m, form.match? name (before ++ (name ++ rest)) = some m ∧ m.column = before.length) ↔
      form.FitsAt before name rest := by
  constructor
  · rintro ⟨m, matched, column⟩
    obtain ⟨lead, tail, texts, behind, whole, leads, isTail, tails, rfl⟩ := match?_some matched
    obtain ⟨rfl, cut⟩ := List.append_inj whole column.symm
    obtain rfl := List.append_cancel_left cut
    exact ⟨lead, tail, texts, behind, leads, rfl, isTail, tails, rfl⟩
  · rintro ⟨lead, tail, texts, behind, leads, rfl, isTail, tails, rfl⟩
    have taken := Pattern.take?_of_takes leads
    have some : (form.match? name (lead.flatten ++ (name ++ (texts.flatten ++ behind)))).isSome = true := by
      unfold match?
      rw [taken]
      dsimp only
      rw [Text.afterPrefix?_eq_some_iff.mpr rfl]
      dsimp only
      rw [List.findSome?_isSome_iff]
      exact ⟨tail, isTail, by rw [Pattern.take?_of_takes tails]; rfl⟩
    obtain ⟨m, matched⟩ := Option.isSome_iff_exists.mp some
    refine ⟨m, matched, ?_⟩
    obtain ⟨lead', -, texts', behind', whole, leads', -, -, rfl⟩ := match?_some matched
    have taken' := Pattern.take?_of_takes leads'
    rw [← whole, taken] at taken'
    obtain ⟨rfl, -⟩ := Prod.mk.inj (Option.some.inj taken')
    rfl

/-- The form stays on its line. -/
def Form.OneLine (form : Form) : Prop := ∀ tail ∈ form.tails, tail.all (Piece.avoids '\n') = true

theorem Form.pending_of_oneLine (oneLine : form.OneLine) (lines : List Line) :
    form.pending name 0 lines = 0 := by
  by_contra runs
  obtain ⟨_, _, _, m, -, -, matched, breaks⟩ := exists_of_pending (Nat.pos_of_ne_zero runs)
  obtain ⟨_, tail, _, _, -, -, isTail, tails, rfl⟩ := match?_some matched
  dsimp only at breaks
  rw [List.count_eq_zero_of_not_mem (Pattern.not_mem_of_avoids (oneLine tail isTail) tails)] at breaks
  omega

theorem gaps_of_takes {lead : List (List Char)} (leads : Pattern.Takes [gaps] lead rest) :
    ∀ c ∈ lead.flatten, Text.isGap c = true := by
  obtain _ | ⟨fits, -, _ | _⟩ := leads
  rw [List.flatten_singleton]
  exact fits

/-- The parameters of a function end at the first closing parenthesis. -/
theorem takes_parameters {more : Pattern} {texts : List (List Char)} {behind : List Char}
    (takes : (parameters ++ more).Takes texts behind) :
    ∃ gap arguments later, texts.flatten = gap ++ '(' :: (arguments ++ ')' :: later.flatten) ∧
      Text.Blanks gap ∧ ')' ∉ arguments ∧ Pattern.Takes (.blanks :: more) later behind := by
  obtain _ | ⟨blank, -, _ | ⟨opens, -, _ | ⟨inside, -, _ | ⟨closes, -, follows⟩⟩⟩⟩ := takes
  rename_i gap opening arguments closing later
  obtain rfl : opening = ['('] := opens
  obtain rfl : closing = [')'] := closes
  exact ⟨gap, arguments, later, by simp, blank, Piece.run_ne_fits_iff.mp inside, follows⟩

/-- Around the name the form of a function has blanks, and an opening parenthesis behind them. -/
theorem opening_of_fitsAt {more : Pattern} (fits : (functionForm more).FitsAt before name rest) :
    Text.Blanks before ∧ ∃ gap later, Text.Blanks gap ∧ rest = gap ++ '(' :: later := by
  obtain ⟨_, tail, _, behind, leads, rfl, isTail, tails, rfl⟩ := fits
  obtain rfl := List.mem_singleton.mp isTail
  obtain ⟨gap, arguments, later, text, blank, -⟩ := takes_parameters tails
  refine ⟨Text.blanks_of_gaps (gaps_of_takes leads), gap,
    arguments ++ ')' :: (later.flatten ++ behind), blank, ?_⟩
  simp [text]

/-- Before the name the form of a value has blanks and a word that declares something. -/
theorem keyword_of_fitsAt (value : form ∈ valueForms) (fits : form.FitsAt before name rest) :
    ∃ word ∈ Line.declarationWords, ∃ gap more, Text.Blanks gap ∧ before = gap ++ (word ++ more) := by
  obtain ⟨lead, -, -, -, leads, rfl, -⟩ := fits
  obtain ⟨word, more, shape, declares⟩ := lead_of_mem_valueForms value
  rw [shape] at leads
  obtain _ | ⟨gaps, -, _ | ⟨worded, -, -⟩⟩ := leads
  rename_i gap words texts
  obtain rfl : words = word := worded
  exact ⟨words, declares, gap, texts.flatten, Text.blanks_of_gaps gaps, by simp⟩

end Forms

/-- The form of a variable that is declared alone or as the first of two. -/
def bindingForm : Form :=
  { kind := .binding
    lead := [gaps, letWord, someGaps]
    tails := [[gaps, .literal ['=']], [gaps, .literal [',']]] }

/-- The form of a constant. -/
def constantForm : Form :=
  { kind := .constant, lead := [gaps, constWord, someGaps], tails := [[gaps, .literal ['=']]] }

theorem formsFor_constant (name : List Char) :
    ∃ later, formsFor name = functionForms ++ [bindingForm] ++ constantForm :: later := ⟨_, rfl⟩

theorem formsFor_container {c : Char} (capital : Text.isCapital c = true) (name : List Char) :
    formsFor (c :: name) = functionForms ++ valueForms ++ [containerForm] := by
  simp [formsFor, capital]

theorem oneLine_constantForm : constantForm.OneLine := by
  unfold Form.OneLine
  decide

theorem oneLine_containerForm : containerForm.OneLine := by
  unfold Form.OneLine
  decide

section Heads

variable {form : Form} {name before gap rest : List Char}

theorem mem_functionForms (function : form ∈ functionForms) : ∃ more, form = functionForm more := by
  rw [functionForms_eq] at function
  obtain ⟨more, -, rfl⟩ := List.mem_map.mp function
  exact ⟨more, rfl⟩

/-- No function is declared where something else than a parenthesis follows the name. -/
theorem not_fitsAt_of_mark (function : form ∈ functionForms) {mark : Char} (blank : Text.Blanks gap)
    (unblank : Text.isBlank mark = false) (other : mark ≠ '(') :
    ¬ form.FitsAt before name (gap ++ mark :: rest) := by
  intro fits
  obtain ⟨more, rfl⟩ := mem_functionForms function
  obtain ⟨-, gap', later, blank', same⟩ := opening_of_fitsAt fits
  exact other (Text.run_unique blank blank' unblank rfl same).2.1

/-- No value is declared where nothing stands before the name. -/
theorem not_fitsAt_of_blanks (value : form ∈ valueForms) (blank : Text.Blanks before) :
    ¬ form.FitsAt before name rest := by
  intro fits
  obtain ⟨word, declares, gap, more, -, rfl⟩ := keyword_of_fitsAt value fits
  obtain ⟨c, later, rfl, unblank⟩ := Line.head_of_declarationWord declares
  have never := blank c (by simp)
  rw [unblank] at never
  cases never

/-- Gaps stop before a word. -/
theorem gaps_stops_of_isWord (word : isWord name = true) (rest : List Char) :
    gaps.Stops (name ++ rest) := by
  obtain ⟨nonempty, chars⟩ := isWord_iff.mp word
  obtain ⟨c, later, rfl⟩ := List.exists_cons_of_ne_nil nonempty
  apply Piece.run_stops
  rw [← Bool.not_eq_true]
  intro gap
  have never := Text.isBlank_of_isWordChar (chars c List.mem_cons_self)
  rw [Text.isBlank_of_isGap gap] at never
  cases never

/-- The heads of containers are of the form. -/
theorem containerForm_fitsAt {clause : List Char} (word : isWord name = true)
    (lead : ∀ c ∈ before, Text.isGap c = true) (gapped : ∀ c ∈ gap, Text.isGap c = true)
    (is : Shape.IsClause clause) (oneLine : '\n' ∉ clause) (rest : List Char) :
    containerForm.FitsAt before name (gap ++ (clause ++ '\x7b' :: rest)) := by
  have leads (rest : List Char) : containerForm.lead.Takes [before] (name ++ rest) :=
    .cons lead (gaps_stops_of_isWord word rest) .nil
  rcases is with rfl | ⟨list, rfl, chars⟩
  · have tails : Pattern.Takes [gaps, brace] [gap, ['\x7b']] rest :=
      .cons gapped (Piece.run_stops rfl) (.cons rfl trivial .nil)
    exact ⟨[before], _, [gap, ['\x7b']], rest, leads _, by simp, List.mem_cons_self, tails, by simp⟩
  · have inside : ∀ c ∈ list, (c != '\x7b' && c != '\n') = true := by
      intro c member
      have noBrace : c ≠ '\x7b' := Lexical.ne_of_class (chars c member) rfl
      have noNewline : c ≠ '\n' := by
        rintro rfl
        exact oneLine (List.mem_cons_of_mem ':' member)
      simp [noBrace, noNewline]
    have tails : Pattern.Takes [gaps, .literal [':'], .run (fun c => c != '\x7b' && c != '\n'), brace]
        [gap, [':'], list, ['\x7b']] rest :=
      .cons gapped (Piece.run_stops rfl) (.cons rfl trivial (.cons inside (Piece.run_stops rfl)
        (.cons rfl trivial .nil)))
    exact ⟨[before], _, [gap, [':'], list, ['\x7b']], rest, leads _, by simp,
      List.mem_cons_of_mem _ List.mem_cons_self, tails, by simp⟩

/-- The lines of constants are of the form. -/
theorem constantForm_fitsAt {gap' : List Char} (word : isWord name = true)
    (lead : ∀ c ∈ before, Text.isGap c = true) (nonempty : gap ≠ [])
    (gapped : ∀ c ∈ gap, Text.isGap c = true) (gapped' : ∀ c ∈ gap', Text.isGap c = true)
    (rest : List Char) :
    constantForm.FitsAt (before ++ (Shape.constWord ++ gap)) name (gap' ++ '=' :: rest) := by
  have leads : constantForm.lead.Takes [before, Shape.constWord, gap] (name ++ (gap' ++ '=' :: rest)) := by
    refine .cons lead (Piece.run_stops rfl) (.cons rfl trivial (.cons ?_ ?_ .nil))
    · exact Piece.some1_fits_iff.mpr ⟨nonempty, gapped⟩
    · exact gaps_stops_of_isWord word _
  have tails : Pattern.Takes [gaps, .literal ['=']] [gap', ['=']] rest :=
    .cons gapped' (Piece.run_stops rfl) (.cons rfl trivial .nil)
  exact ⟨_, _, [gap', ['=']], rest, leads, by simp, List.mem_cons_self, tails, by simp⟩

/-- Behind the word that declares a constant no form of a function or a variable begins. -/
theorem not_fitsAt_of_constWord (earlier : form ∈ functionForms ++ [bindingForm])
    (blank : Text.Blanks before) : ¬ form.FitsAt (before ++ (Shape.constWord ++ gap)) name rest := by
  intro fits
  rcases List.mem_append.mp earlier with function | binding
  · obtain ⟨more, rfl⟩ := mem_functionForms function
    obtain ⟨blanks, -⟩ := opening_of_fitsAt fits
    have never := blanks 'c' (by simp [Shape.constWord])
    cases never
  · obtain rfl := List.mem_singleton.mp binding
    obtain ⟨lead, -, -, -, leads, same, -⟩ := fits
    obtain _ | ⟨gapped, -, _ | ⟨worded, -, -⟩⟩ := leads
    rename_i gap' words texts
    obtain rfl : words = ['l', 'e', 't'] := worded
    have letters := (Text.run_unique (Text.blanks_of_gaps gapped) blank rfl rfl same).2.1
    cases letters

end Heads

end Definition

/-- A name is selected behind what its line has before it. -/
theorem Line.selection_site {l : Line} {before : List Char} {nameAt : Nat}
    (place : before.length = l.indent + nameAt) {name : String} {stop : Position} :
    (l.site nameAt name stop).selection =
      Span.onLine l.number before.length (before.length + name.toList.length) := by
  rw [place, String.length_toList]
  rfl

namespace Document

/-- A definition of a name that is the only one at its place. -/
def DefinedOnce (d : Document) (name : List Char) (x : Definition) : Prop :=
  (d.definitions name).filter (·.span = x.span) = [x]

section Places

variable {d : Document} {l : Line} {form : Definition.Form} {name before rest : List Char}
  (member : l ∈ d.lines) (onward : l.onward = before ++ (name ++ rest))
include onward

theorem mem_matchesIn_iff_fitsAt {above below : List Line} (split : d.lines = above ++ l :: below) :
    Span.onLine l.number before.length (before.length + name.length) ∈ form.matchesIn name 0 d.lines ↔
      form.pending name 0 above = 0 ∧ form.FitsAt before name rest := by
  have ordered := linesFrom_ordered 0 d.chars
  rw [← lines_eq_linesFrom, split] at ordered
  rw [split, Definition.Form.mem_matchesIn_iff ordered, onward, Definition.Form.match?_iff_fitsAt]

include member in
/-- A form that stays on its line finds the name wherever it fits, and is alone in reporting it if no
form that is tried earlier fits there. -/
theorem definedOnce_of_oneLine {earlier later : List Definition.Form} (word : isWord name = true)
    (forms : Definition.formsFor name = earlier ++ form :: later) (oneLine : form.OneLine)
    (fits : form.FitsAt before name rest) (apart : ∀ f ∈ earlier, ¬ f.FitsAt before name rest) :
    d.DefinedOnce name
      ⟨form.kind, Span.onLine l.number before.length (before.length + name.length)⟩ := by
  obtain ⟨above, below, split⟩ := List.append_of_mem member
  apply filter_definitions word forms
  · rw [mem_matchesIn_iff_fitsAt onward split]
    exact ⟨form.pending_of_oneLine oneLine above, fits⟩
  · intro f among found
    exact apart f among ((mem_matchesIn_iff_fitsAt onward split).mp found).2

end Places

section Declared

variable {d : Document} (plain : Text.plainBlanks d.chars = true) {l : Line} (member : l ∈ d.lines)
include plain member

theorem gaps_of_indent : ∀ c ∈ Text.indent l.content, Text.isGap c = true := by
  intro c inside
  have among : c ∈ l.content := by
    rw [← Text.indent_append_trimStart l.content]
    exact List.mem_append_left _ inside
  exact isGap_of_plainBlanks plain member among (Text.blanks_indent l.content c inside)

theorem gaps_of_blanks {before gap behind : List Char} (trimmed : l.trimmed = before ++ (gap ++ behind))
    (blank : Text.Blanks gap) : ∀ c ∈ gap, Text.isGap c = true := by
  intro c inside
  have among : c ∈ l.trimmed := by simp [trimmed, inside]
  exact isGap_of_plainBlanks plain member (Text.mem_of_mem_trim among) (blank c inside)

/-- The head of a container is a class for the search for definitions, and nothing else. -/
theorem definedOnce_of_containerHead? {head : Shape.Head}
    (heads : Shape.containerHead? l.trimmed = some head) (stop : Position) :
    d.DefinedOnce head.name.toList ⟨.classType, (l.site 0 head.name stop).selection⟩ := by
  obtain ⟨name, gap, clause, rest, trimmed, same, named, blank, is, -⟩ := Shape.containerHead?_some heads
  obtain ⟨-, chars⟩ := Shape.containerName_fits named
  obtain ⟨tail, onward⟩ := onward_of_trimmed member
  have place : (Text.indent l.content).length = l.indent + 0 := rfl
  obtain ⟨c, later, rfl, upper, -⟩ := named
  have word := isWord_of_nameChars (List.cons_ne_nil c later) chars
  have bounds := Text.bounds_of_isNameChar (Text.isNameChar_of_isUpper upper)
  have capital : Text.isCapital c = true := by
    rw [Text.isCapital, if_pos (by omega), upper]
  rw [trimmed] at onward
  have shape : l.onward = Text.indent l.content ++
      (c :: later ++ (gap ++ (clause ++ '\x7b' :: (rest ++ tail)))) := by simp [onward]
  rw [Line.selection_site place, same, String.toList_ofList]
  apply definedOnce_of_oneLine member shape word (Definition.formsFor_container capital later)
    Definition.oneLine_containerForm
  · apply Definition.containerForm_fitsAt word (gaps_of_indent plain member)
      (gaps_of_blanks plain member trimmed blank) is
    intro newline
    obtain ⟨-, -, oneLine⟩ := content_append member
    exact oneLine (Text.mem_of_mem_trim (show _ ∈ l.trimmed by simp [trimmed, newline]))
  · intro f among
    rcases List.mem_append.mp among with function | value
    · rcases is with rfl | ⟨list, rfl, -⟩
      · exact Definition.not_fitsAt_of_mark function blank rfl (by decide)
      · exact Definition.not_fitsAt_of_mark function blank rfl (by decide)
    · exact Definition.not_fitsAt_of_blanks value (Text.blanks_indent l.content)

/-- A constant is one for the search for definitions, and nothing else. -/
theorem definedOnce_of_constant? {c : Shape.Constant} (reads : Shape.constant? l.trimmed = some c)
    (stop : Position) :
    d.DefinedOnce c.name.toList ⟨.constant, (l.site c.nameAt c.name stop).selection⟩ := by
  obtain ⟨gap, rest, trimmed, nonempty, blank, ⟨gap', rest', rfl, named, chars, blank'⟩, place⟩ :=
    Shape.constant?_some reads
  obtain ⟨tail, onward⟩ := onward_of_trimmed member
  have word := isWord_of_nameChars named chars
  have shape : l.onward = Text.indent l.content ++ (Shape.constWord ++ gap) ++
      (c.name.toList ++ (gap' ++ '=' :: (rest' ++ tail))) := by simp [onward, trimmed]
  have placed : (Text.indent l.content ++ (Shape.constWord ++ gap)).length = l.indent + c.nameAt := by
    rw [place, List.length_append]
    rfl
  obtain ⟨later, forms⟩ := Definition.formsFor_constant c.name.toList
  have gapped := gaps_of_blanks plain member trimmed blank
  have trimmed' : l.trimmed = Shape.constWord ++ gap ++ c.name.toList ++ (gap' ++ '=' :: rest') := by
    simp [trimmed]
  have gapped' := gaps_of_blanks plain member trimmed' blank'
  rw [Line.selection_site placed]
  apply definedOnce_of_oneLine member shape word forms Definition.oneLine_constantForm
  · exact Definition.constantForm_fitsAt word (gaps_of_indent plain member) nonempty gapped gapped' _
  · intro f among
    exact Definition.not_fitsAt_of_constWord among (Text.blanks_indent l.content)

theorem definedOnce_of_declares {kind : Kind} {name : String} {site : Site}
    (declares : l.Declares kind name site) :
    (kind.isContainer = true → d.DefinedOnce name.toList ⟨.classType, site.selection⟩) ∧
      (kind = .constant → d.DefinedOnce name.toList ⟨.constant, site.selection⟩) := by
  cases declares with
  | container contains heads =>
    refine ⟨fun _ => definedOnce_of_containerHead? plain member heads _, ?_⟩
    rintro rfl
    cases contains
  | constant reads => exact ⟨nofun, fun _ => definedOnce_of_constant? plain member reads _⟩
  | callable calls | wrapped calls =>
    cases kind with
    | function | method | constructor => exact ⟨nofun, nofun⟩
    | classType | interfaceType | field | constant | binding => cases calls
  | signature | field => exact ⟨nofun, nofun⟩

end Declared

end Document

/-- In a document of plain blanks every container and every constant is defined just once where its
name stands: the container as a class and the constant as a constant. -/
theorem defined_where_declared {d : Document} (plain : Text.plainBlanks d.chars = true) :
    ∀ s ∈ (Model.ofDocument d).symbols,
      (s.kind.isContainer = true →
        d.DefinedOnce s.name.toList ⟨.classType, s.site.selection⟩) ∧
      (s.kind = .constant → d.DefinedOnce s.name.toList ⟨.constant, s.site.selection⟩) := by
  intro s completes
  have throughout : s.Throughout fun kind name site =>
      (kind.isContainer = true → d.DefinedOnce name.toList ⟨.classType, site.selection⟩) ∧
        (kind = .constant → d.DefinedOnce name.toList ⟨.constant, site.selection⟩) := by
    refine Model.throughout_of_declares ?_ s completes
    intro l member kind name site declares
    exact Document.definedOnce_of_declares plain member declares
  exact throughout.1

/-- A document where a call that is left open runs over the head of a class of the same name, and a
constant is also a variable. -/
def overrun : Document :=
  .ofString "Pair(\nPair : Shape \x7b\r\n\tsize(): int => 1\n\x7d\n  const LAST =\t2\nlet LAST = 3\n"

/-- The class of `overrun` is defined once as a class, although its name is a function further up, and
its constant once as a constant. -/
theorem defined_in_overrun :
    (∃ s ∈ (Model.ofDocument overrun).symbols,
      s.kind = .classType ∧ overrun.DefinedOnce s.name.toList ⟨.classType, s.site.selection⟩) ∧
    ∃ s ∈ (Model.ofDocument overrun).symbols,
      s.kind = .constant ∧ overrun.DefinedOnce s.name.toList ⟨.constant, s.site.selection⟩ := by
  have plain : Text.plainBlanks overrun.chars = true := by decide +kernel
  have declares : (∃ s ∈ (Model.ofDocument overrun).symbols, s.kind = .classType) ∧
      ∃ s ∈ (Model.ofDocument overrun).symbols, s.kind = .constant := by decide +kernel
  obtain ⟨⟨s, member, isClass⟩, t, among, isConstant⟩ := declares
  refine ⟨⟨s, member, isClass, ?_⟩, t, among, isConstant, ?_⟩
  · exact (defined_where_declared plain s member).1 (by rw [isClass]; rfl)
  · exact (defined_where_declared plain t among).2 isConstant

end SymbolIndex
