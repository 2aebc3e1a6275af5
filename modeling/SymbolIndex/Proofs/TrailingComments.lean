import SymbolIndex.Proofs.Concatenation
import SymbolIndex.Proofs.Indentation
import SymbolIndex.Proofs.Recovery
import SymbolIndex.Proofs.Remarks

/-! A comment written behind a line of code. Most readers of lines stop before it, and `Tolerates` names
the lines whose readers do not: a signature of an interface has to end its line, wrapped parameters run to
its end, and a parenthesis in the comment counts like one in the code. Of every other line the comment
changes no more than where symbols stand and what values constants have. -/
namespace SymbolIndex

open Document

/-- The same declaration, whatever the value of a constant is. -/
def SymbolForm.valueless : SymbolForm → SymbolForm
  | .constant _ => .constant ""
  | form => form

/-- What a symbol declares, wherever it stands and whatever the value of a constant is. -/
def Symbol.declared (s : Symbol) : Symbol := { s.unplaced with form := s.unplaced.form.valueless }

theorem Symbol.declared_of_matches {places : Kind → Site → Site → Prop} {s s' : Symbol}
    (same : s.Matches places s') : s.declared = s'.declared := by
  have moved : s.Matches (fun _ site site' =>
      True → (fun _ => Writing.nowhere) site' = (fun _ : Site => Writing.nowhere) site) s' :=
    same.mono fun _ _ _ _ _ => rfl
  have unplaced : s'.unplaced = s.unplaced :=
    Symbol.mapSites_of_matches moved trivial fun _ _ => trivial
  rw [declared, declared, unplaced]

theorem map_eq_map_iff_forall₂ {α β : Type} {f : α → β} {as bs : List α} :
    as.map f = bs.map f ↔ List.Forall₂ (fun a b => f a = f b) as bs := by
  rw [← List.forall₂_eq_eq_eq, List.forall₂_map_left_iff, List.forall₂_map_right_iff]

/-- Sites that need not correspond. -/
def Anywhere (_ : Kind) (_ _ : Site) : Prop := True

theorem Line.matches_anywhere {l l' : Line} (same : l.content = l'.content) : l.Matches Anywhere l' where
  trimmed := congrArg Text.trim same
  mentions := by rw [Container.mentions, Container.mentions, same]
  alone _ _ _ := trivial
  container _ _ _ _ := trivial
  callable _ _ _ _ _ _ := trivial

theorem Line.forall₂_anywhere {ls ls' : List Line} (same : ls.map Line.content = ls'.map Line.content) :
    List.Forall₂ (Line.Matches Anywhere) ls ls' :=
  (map_eq_map_iff_forall₂.mp same).imp fun _ _ => matches_anywhere

namespace Text.Remark

/-- A comment with a blank before and after its mark. -/
def ofComment {comment : List Char} (oneLine : '\n' ∉ comment) : Remark where
  gap := [' ']
  note := ' ' :: comment
  apart := List.cons_ne_nil _ _
  blank := blanks_space
  oneLine := by simpa using oneLine

/-- A constructor is mentioned in a line with a comment if it is in the line. -/
theorem occursIn_ofComment {part comment : List Char} (oneLine : '\n' ∉ comment)
    (chars : ∀ c ∈ part, isNameChar c = true) (nonempty : part ≠ [])
    (silent : occursIn part comment = false) (s : List Char) :
    occursIn part (s ++ (ofComment oneLine).text) = occursIn part s := by
  have absent {c : Char} (outside : isNameChar c = false) : c ∉ part :=
    fun inside => Bool.noConfusion (outside.symm.trans (chars c inside))
  have empty : occursIn part [] = false := by
    rw [← Bool.not_eq_true, occursIn_iff]
    rintro ⟨a, b, whole⟩
    simp [nonempty] at whole
  have skip {c : Char} (outside : isNameChar c = false) (s : List Char) :
      occursIn part (c :: s) = occursIn part s := by
    rw [← List.nil_append (c :: s), occursIn_append_cons (absent outside), empty, Bool.false_or]
  have text : (ofComment oneLine).text = ' ' :: '/' :: '/' :: ' ' :: comment := rfl
  rw [text, occursIn_append_cons (absent rfl), skip rfl, skip rfl, skip rfl, silent, Bool.or_false]

end Text.Remark

namespace Line

/-- A line with a remark behind it, for one without. -/
structure Remarked (remark : Text.Remark) (l l' : Line) : Prop where
  trimmed : l'.trimmed = l.trimmed ++ remark.text
  mentions : Container.mentions l = Container.mentions l'
  balance : braceBalance l.trimmed = braceBalance l'.trimmed

theorem remarked_of_comment {l l' : Line} (oneLine : '\n' ∉ l.content) (some : l.trimmed ≠ [])
    {tail : CodeTail} (ends : Lexical.start.after l.content = .code tail) {comment : List Char}
    (oneLine' : '\n' ∉ comment)
    (silent : Text.occursIn Shape.constructorName.toList comment = false)
    (trimmed : l'.trimmed = Text.trim (l.content ++ (Text.Remark.ofComment oneLine').text)) :
    ∃ remark : Text.Remark, Remarked remark l l' ∧
      ∀ c, Text.isBlank c = false → c ∈ remark.note → c ∈ comment := by
  obtain ⟨remark, cut, note⟩ := (Text.Remark.ofComment oneLine').exists_trim_append some oneLine
  refine ⟨remark, ⟨trimmed.trans cut, ?_, ?_⟩, ?_⟩
  · rw [mentions_eq l', trimmed, occursIn_constructorName_trim,
      Text.Remark.occursIn_ofComment oneLine' constructorName_chars (List.cons_ne_nil _ _) silent]
    rfl
  · rw [trimmed, braceBalance_trim, braceBalance_remark ends]
    exact braceBalance_trim l.content
  · intro c unblank inNote
    obtain ⟨tail, whole, -⟩ := Text.exists_trimEnd_append (' ' :: comment)
    have inside : c ∈ ' ' :: comment := by
      rw [whole]
      exact List.mem_append_left tail (note ▸ inNote)
    refine (List.mem_cons.mp inside).resolve_left ?_
    rintro rfl
    cases unblank

end Line

namespace Shape

/-- A line at the top level that a comment behind it leaves what it is: no constant without a value,
which the comment would be, and no head of a function whose parameters the comment could close. -/
structure ToleratesAlone (line comment : List Char) : Prop where
  valued : ∀ texts, constantHead.take? line ≠ some (texts, [])
  closed : ')' ∈ comment → wrapped? line = none

/-- A line in a body that a comment behind it leaves what it is: no head with wrapped parameters, and no
field that the comment would make look like a call. -/
structure ToleratesInBody (line comment : List Char) : Prop where
  unwrapped : wrapped? line = none
  uncalled : '(' ∈ comment → field? line = none

/-- A line in what may be an interface: no signature, not even with a parenthesis from the comment. -/
structure ToleratesInInterface (line comment : List Char) : Prop where
  unsigned : signature? line = none
  unfinished : ')' ∈ comment → signature? (line ++ [')']) = none

end Shape

namespace Reading

/-- A line of code has to be such, where it is read, for a comment behind it to change nothing that is
declared. Where the line declares nothing, it has to be nothing in particular. -/
structure Tolerates (r : Reading) (l : Line) (comment : List Char) : Prop where
  alone : r.container = none → r.depth = 0 → Shape.ToleratesAlone l.trimmed comment
  inBody : ∀ b, r.Collects l b → b.inParameters = false → Shape.ToleratesInBody l.trimmed comment
  inInterface : ∀ b, r.Collects l b → b.inParameters = false → b.isInterface = true →
    Shape.ToleratesInInterface l.trimmed comment
  inParameters : ∀ b, r.Collects l b → b.inParameters = true → ')' ∈ comment → ')' ∈ l.trimmed

variable {r : Reading} {l l' : Line} {comment : List Char}

theorem Collects.of_noted {b : Container} (collects : ((r.note l).commented l).Collects l b) :
    ∃ inside, r.Collects l inside ∧ b = inside.noting l := by
  obtain ⟨same, direct, stays⟩ := collects
  obtain ⟨inside, is, rfl⟩ := Option.map_eq_some_iff.mp same
  exact ⟨inside, ⟨is, direct, stays⟩, rfl⟩

/-- Taking note of the line, and of a comment it leaves open, does not matter here. -/
theorem Tolerates.noted (tolerates : r.Tolerates l comment) :
    ((r.note l).commented l).Tolerates l comment where
  alone free top := tolerates.alone (Option.map_eq_none_iff.mp free) top
  inBody b collects outside := by
    obtain ⟨inside, here, rfl⟩ := collects.of_noted
    exact tolerates.inBody inside here outside
  inInterface b collects outside form := by
    obtain ⟨inside, here, rfl⟩ := collects.of_noted
    exact tolerates.inInterface inside here outside (Container.isInterface_of_noting form)
  inParameters b collects within := by
    obtain ⟨inside, here, rfl⟩ := collects.of_noted
    exact tolerates.inParameters inside here within

section Remarked

variable {remark : Text.Remark} (remarked : l.Remarked remark l') (oneLine : '\n' ∉ l.trimmed)
  (within : ∀ c, Text.isBlank c = false → c ∈ remark.note → c ∈ comment)
include remarked oneLine within

theorem topLevel?_remarked (tolerates : Shape.ToleratesAlone l.trimmed comment) :
    Option.Rel (fun s s' => s.declared = s'.declared) (topLevel? l) (topLevel? l') := by
  have callables := Shape.callable?_remark l.trimmed remark oneLine
    fun inNote => tolerates.closed (within _ rfl inNote)
  have constants := Shape.constant?_remark l.trimmed remark oneLine tolerates.valued
  unfold topLevel? Shape.topLine?
  rw [remarked.trimmed, callables]
  cases Shape.callable? l.trimmed with
  | some c =>
    dsimp only
    split
    · exact .none
    · exact .some rfl
  | none =>
    generalize Shape.constant? l.trimmed = c, Shape.constant? (l.trimmed ++ remark.text) = c' at constants
    cases constants with
    | none => exact .none
    | @some c c' same =>
      obtain ⟨name, value, nameAt⟩ := c
      obtain ⟨name', value', nameAt'⟩ := c'
      obtain ⟨rfl, rfl⟩ := same
      exact .some rfl

theorem declared?_remarked {b : Container} (inBody : Shape.ToleratesInBody l.trimmed comment)
    (inInterface : b.isInterface = true → Shape.ToleratesInInterface l.trimmed comment) :
    Container.Entry.Agree Anywhere b (Container.declared? l) (Container.declared? l') := by
  have callables : Shape.callable? l'.trimmed = Shape.callable? l.trimmed := by
    rw [remarked.trimmed]
    exact Shape.callable?_remark l.trimmed remark oneLine fun _ => inBody.unwrapped
  have unwrapped : Shape.wrapped? l'.trimmed = none := by
    rw [remarked.trimmed]
    exact Shape.wrapped?_remark l.trimmed remark oneLine inBody.unwrapped
  have fields : Shape.field? l'.trimmed = Shape.field? l.trimmed := by
    rw [remarked.trimmed]
    exact Shape.field?_remark l.trimmed remark fun inNote => inBody.uncalled (within _ rfl inNote)
  by_cases unsigned : Shape.signature? l.trimmed = none ∧ Shape.signature? l'.trimmed = none
  · apply Container.Entry.Agree.same
    unfold Container.declared? Shape.memberLine?
    rw [unsigned.1, unsigned.2, callables]
    cases Shape.callable? l.trimmed with
    | some c => exact .some (.bodied ⟨rfl, rfl, trivial⟩)
    | none =>
      dsimp only
      rw [inBody.unwrapped, unwrapped, fields]
      cases Shape.field? l.trimmed with
      | some f => exact .some (.bodied ⟨rfl, rfl, trivial⟩)
      | none => exact .none
  · -- One of the lines is a signature, so neither has a body, and an interface would not tolerate it.
    have settled : b.isInterface = false := by
      rw [← Bool.not_eq_true]
      intro form
      have tolerates := inInterface form
      apply unsigned
      rw [remarked.trimmed]
      exact ⟨tolerates.unsigned, Shape.signature?_remark l.trimmed remark oneLine
        fun inNote => tolerates.unfinished (within _ rfl inNote)⟩
    obtain ⟨callable, field⟩ : Shape.callable? l.trimmed = none ∧ Shape.field? l.trimmed = none := by
      rcases not_and_or.mp unsigned with signed | signed
      · exact Shape.bodiless_of_signature? signed
      · rw [← callables, ← fields]
        exact Shape.bodiless_of_signature? signed
    exact .dropped settled (Container.declared?_bodiless callable inBody.unwrapped field)
      (Container.declared?_bodiless (callables.trans callable) unwrapped (fields.trans field))

theorem alike_of_remarked (tolerates : r.Tolerates l comment) :
    r.Alike Anywhere (fun s s' => s.declared = s'.declared) l l' where
  mentions := remarked.mentions
  balance := remarked.balance
  head := by rw [remarked.trimmed, Shape.containerHead?_remark]
  opened _ _ _ _ := trivial
  topLevel free top := topLevel?_remarked remarked oneLine within (tolerates.alone free top)
  entry b collects outside := declared?_remarked remarked oneLine within
    (tolerates.inBody b collects outside) (tolerates.inInterface b collects outside)
  closing b collects inside := by
    rw [Bool.eq_iff_iff, List.contains_iff_mem, List.contains_iff_mem, remarked.trimmed, List.mem_append,
      remark.mem_text_iff rfl (by decide)]
    constructor
    · exact .inl
    · rintro (inLine | inNote)
      · exact inLine
      · exact tolerates.inParameters b collects inside (within _ rfl inNote)

end Remarked

end Reading

namespace Document

/-- The document with a comment behind what is on the line. -/
def annotate (d : Document) (l : Line) (comment : List Char) : Document :=
  ⟨d.above l ++ (l.content ++ ' ' :: '/' :: '/' :: ' ' :: comment) ++ l.onward.drop l.content.length⟩

/-- Of a document with a comment, only the line with the comment reads differently. -/
theorem lines_annotate {d : Document} {before after : List Line} {l : Line}
    (split : d.lines = before ++ l :: after) {comment : List Char} (oneLine : '\n' ∉ comment) :
    ∃ before' l', (d.annotate l comment).lines = before' ++ l' :: after ∧
      before'.map Line.content = before.map Line.content ∧
      l'.trimmed = Text.trim (l.content ++ (Text.Remark.ofComment oneLine).text) := by
  have member : l ∈ d.lines := split ▸ List.mem_append_right before List.mem_cons_self
  obtain ⟨prior, text, place, -, onward⟩ := linesFrom_split (d.lines_eq_linesFrom ▸ split)
  obtain ⟨contents, above⟩ := linesFrom_above place
  obtain ⟨terminator, rest, cut, single, blank, ends⟩ := exists_terminator member
  obtain ⟨below, first⟩ := linesFrom_below ends l.number
  have later : after = below := by
    rw [cut, first _ single] at onward
    exact (List.cons.inj onward).2
  have single' : '\n' ∉ l.content ++ (Text.Remark.ofComment oneLine).text ++ terminator := by
    rw [List.mem_append, not_or] at single
    simp only [List.mem_append, not_or]
    exact ⟨⟨single.1, (Text.Remark.ofComment oneLine).newline_not_mem⟩, single.2⟩
  have chars : (d.annotate l comment).chars =
      prior ++ (l.content ++ (Text.Remark.ofComment oneLine).text ++ terminator ++ rest) := by
    have comments : (Text.Remark.ofComment oneLine).text = ' ' :: '/' :: '/' :: ' ' :: comment := rfl
    have behind : l.onward.drop l.content.length = terminator ++ rest := by
      rw [cut, List.append_assoc, List.drop_left]
    rw [annotate, behind, above_of_append text, comments]
    simp only [List.append_assoc]
  obtain ⟨before₀, lines₀, contents₀⟩ := above l.onward
  obtain ⟨before', lines', contents'⟩ :=
    above (l.content ++ (Text.Remark.ofComment oneLine).text ++ terminator ++ rest)
  have same : before₀ = before := by
    rw [← text, ← lines_eq_linesFrom, split, ← onward] at lines₀
    exact (List.append_cancel_right lines₀).symm
  refine ⟨before', lineOf l.number (l.content ++ (Text.Remark.ofComment oneLine).text ++ terminator) rest,
    ?_, ?_, ?_⟩
  · rw [lines_eq_linesFrom, chars, lines', first _ single', later]
  · rw [contents', ← contents₀, same]
  · rw [Line.trimmed_lineOf, Text.trim_append_blanks _ blank]

end Document

/-- A comment behind a line of code that tolerates it changes nothing that is declared but the places of
symbols and the values of constants. -/
theorem declared_of_annotated {d : Document} {before after : List Line} {l : Line}
    (split : d.lines = before ++ l :: after) (code : l.IsCode (Reading.start.after before).inComment)
    {tail : CodeTail} (ends : Lexical.start.after l.content = .code tail)
    {comment : List Char} (oneLine : '\n' ∉ comment)
    (silent : Text.occursIn Shape.constructorName.toList comment = false)
    (tolerates : (Reading.start.after before).Tolerates l comment) :
    (Model.ofDocument (d.annotate l comment)).symbols.map Symbol.declared =
      (Model.ofDocument d).symbols.map Symbol.declared := by
  have member : l ∈ d.lines := split ▸ List.mem_append_right before List.mem_cons_self
  obtain ⟨-, -, single⟩ := content_append member
  have single' : '\n' ∉ l.trimmed := fun newline => single (Text.mem_of_mem_trim newline)
  obtain ⟨before', l', lines, contents, trimmed⟩ := lines_annotate split oneLine
  obtain ⟨remark, remarked, within⟩ :=
    Line.remarked_of_comment single code.1 ends oneLine silent trimmed
  obtain ⟨readings, above⟩ := Reading.symbols_match (r := .start) (Reading.Matches.refl_of_free rfl)
    (Line.forall₂_anywhere contents.symm)
  have closes (b b' : Container) (same : b.Matches Anywhere b') : b.close.declared = b'.close.declared :=
    Symbol.declared_of_matches (Container.close_matches same)
  have nonempty : l.trimmed.isEmpty = l'.trimmed.isEmpty := by
    rw [remarked.trimmed, List.isEmpty_eq_false_iff.mpr code.1,
      List.isEmpty_eq_false_iff.mpr (List.append_ne_nil_of_left_ne_nil code.1 remark.text)]
  have comments : Comment.read (Reading.start.after before).inComment l.trimmed =
      Comment.read (Reading.start.after before).inComment l'.trimmed := by
    rw [remarked.trimmed, Comment.read_remark code.1 single' code.2]
  obtain ⟨next, here⟩ := Reading.step_matches closes readings remarked.mentions nonempty comments
    fun _ => Reading.alike_of_remarked remarked single' within tolerates.noted
  have unchanged : List.Forall₂ (Line.Matches Anywhere) after after := Line.forall₂_anywhere rfl
  obtain ⟨-, below⟩ := Reading.symbols_match next unchanged
  have declared {ss ss' : List Symbol} (same : List.Forall₂ (Symbol.Matches Anywhere) ss ss') :
      ss.map Symbol.declared = ss'.map Symbol.declared :=
    map_eq_map_iff_forall₂.mpr (same.imp fun _ _ => Symbol.declared_of_matches)
  show (Reading.start.symbols (d.annotate l comment).lines).map _ = (Reading.start.symbols d.lines).map _
  rw [lines, split, Reading.symbols_append, Reading.symbols_append, Reading.symbols_cons,
    Reading.symbols_cons]
  simp only [List.map_append]
  rw [declared above, declared below, map_eq_map_iff_forall₂.mpr (Reading.forall₂_toList here)]

/-- A field, and what is below it. -/
def depthLine : Line := lineOf 1 "    depth: float".toList "\n\x7d\n".toList

/-- A class with one field. -/
def drawer : Document := ⟨"Drawer : Box \x7b\n".toList ++ depthLine.onward⟩

/-- A comment with marks that would open and close something in code. -/
def aside : List Char := "as built) \x7d => \x7b \x27 /*".toList

/-- The field and its class are declared with the comment as they are without it. -/
theorem declared_of_annotatedDrawer :
    (drawer.annotate depthLine aside).chars ≠ drawer.chars ∧
      (Model.ofDocument (drawer.annotate depthLine aside)).symbols.map Symbol.declared =
        (Model.ofDocument drawer).symbols.map Symbol.declared ∧
      (Model.ofDocument drawer).symbols.map (fun s => (s.name, s.members.map (·.name))) =
        [("Drawer", ["depth"])] := by
  have lines : drawer.lines = drawer.lines.take 1 ++ depthLine :: drawer.lines.drop 2 := by
    decide +kernel
  have inside : (Reading.start.after (drawer.lines.take 1)).container.map (·.inParameters) = some false := by
    decide +kernel
  have tolerates : (Reading.start.after (drawer.lines.take 1)).Tolerates depthLine aside := by
    refine ⟨?_, ?_, ?_, ?_⟩
    · intro free
      rw [free] at inside
      cases inside
    · intro b _ _
      exact ⟨by decide +kernel, fun opens => absurd opens (by decide +kernel)⟩
    · intro b _ _ _
      exact ⟨by decide +kernel, fun _ => by decide +kernel⟩
    · intro b collects within
      rw [collects.inside, Option.map_some, within] at inside
      cases inside
  have ends : Lexical.start.after depthLine.content = .code .plain := by decide +kernel
  exact ⟨by decide +kernel, declared_of_annotated lines ⟨by decide +kernel, by decide +kernel⟩ ends
    (by decide +kernel) (by decide +kernel) tolerates, by decide +kernel⟩

/-- A method without a body, and what is below it. -/
def spanLine : Line := lineOf 1 "    span(): float".toList "\n\x7d\n".toList

/-- An interface with one method. -/
def bridge : Document := ⟨"Bridge \x7b\n".toList ++ spanLine.onward⟩

/-- The method is gone with a comment behind it. -/
theorem signature_lost_to_comment :
    bridge.lines[1]? = some spanLine ∧ spanLine.IsCode (Reading.start.after (bridge.lines.take 1)).inComment ∧
      Lexical.start.after spanLine.content = .code .plain ∧
      (Model.ofDocument bridge).symbols.map (fun s => (s.name, s.members.map (·.name))) =
        [("Bridge", ["span"])] ∧
      (Model.ofDocument (bridge.annotate spanLine "the span".toList)).symbols.map (fun s =>
          (s.name, s.members.map (·.name))) =
        [("Bridge", [])] :=
  ⟨by decide +kernel, ⟨by decide +kernel, by decide +kernel⟩, by decide +kernel, by decide +kernel,
    by decide +kernel⟩

end SymbolIndex
