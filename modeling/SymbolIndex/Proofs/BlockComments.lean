import Mathlib.Data.List.Induction
import SymbolIndex.Proofs.Declarations
import SymbolIndex.Proofs.Writing

/-! Where a block comment is open. Reading remembers from line to line whether one is, and looks for
openers at the beginning of lines only; a scan of the whole text finds them wherever they stand. The
two agree as long as no line leaves a comment open that its code opened, because then all that the
text above a line can leave behind is a comment that reading has seen begin. -/
namespace SymbolIndex

open Writing (Filler)

namespace Lexical

/-- Inside a block comment. -/
def inBlock : Lexical → Bool
  | blockComment _ => true
  | code _ | quoted _ _ | lineComment => false

/-- Blanks do not close a block comment. -/
theorem block_after_blanks (star : Bool) {s : List Char} (blank : Text.Blanks s) :
    ∃ star', (blockComment star).after s = blockComment star' := by
  cases s with
  | nil => exact ⟨star, rfl⟩
  | cons c s =>
    obtain ⟨first, later⟩ := List.forall_mem_cons.mp blank
    rw [after_cons, block_next_blank star first]
    exact ⟨false, after_blanks_of_stays (fun _ => block_next_blank false) later⟩

/-- A block comment ends behind the first closing mark, where code starts, and goes on if there is
none. Half a mark that was read before does not count if the text does not complete it. -/
theorem scan_block (star : Bool) (s : List Char) (apart : star = true → s.head? ≠ some '/') :
    (∀ rest, Text.afterFirst? Comment.closeMark s = some rest →
      (blockComment star).scan s = start.scan rest) ∧
    (Text.afterFirst? Comment.closeMark s = none →
      ∃ star', (blockComment star).scan s = (blockComment star', 0)) := by
  induction s generalizing star with
  | nil =>
    refine ⟨?_, fun _ => ⟨star, rfl⟩⟩
    intro rest closes
    cases closes
  | cons c s ih =>
    rw [Text.afterFirst?]
    cases here : Text.afterPrefix? Comment.closeMark (c :: s) with
    | some rest =>
      obtain ⟨rfl, rfl⟩ := Text.afterPrefix?_pair here
      constructor
      · rintro _ ⟨⟩
        cases star <;> rfl
      · intro unclosed
        cases unclosed
    | none =>
      have stays : (blockComment star).next c = blockComment (c == '*') := by
        have unfinished : ¬ (star = true ∧ c = '/') := by
          rintro ⟨half, rfl⟩
          exact apart half rfl
        rw [next, if_neg unfinished]
      have onward : (blockComment star).scan (c :: s) = (blockComment (c == '*')).scan s :=
        congrArg (scan · s) stays
      rw [onward]
      apply ih
      intro half slash
      obtain rfl := eq_of_beq half
      obtain ⟨later, rfl⟩ := List.head?_eq_some_iff.mp slash
      cases here

end Lexical

namespace Comment

/-- The context that a line starts in, if all that can be open before it is a block comment. -/
def context (isOpen : Bool) : Lexical := if isOpen then .blockComment false else .start

/-- What follows on a line that a block comment is open before, or that begins with one. -/
def inside? (isOpen : Bool) (line : List Char) : Option (List Char) :=
  if isOpen then some line else Text.afterPrefix? openMark line

/-- The code of a line: what follows the block comment that the line starts in or begins with, and the
whole line if there is none. -/
def codeOf (isOpen : Bool) (line : List Char) : List Char :=
  match inside? isOpen line with
  | some inside => (Text.afterFirst? closeMark inside).getD []
  | none => line

section Lines

variable {isOpen : Bool} {line : List Char}

theorem codeOf_of_inside {inside : List Char} (opened : inside? isOpen line = some inside) :
    codeOf isOpen line = (Text.afterFirst? closeMark inside).getD [] := by
  simp [codeOf, opened]

theorem codeOf_of_outside (unopened : inside? isOpen line = none) : codeOf isOpen line = line := by
  simp [codeOf, unopened]

theorem mem_of_mem_codeOf {c : Char} (member : c ∈ codeOf isOpen line) : c ∈ line := by
  cases opened : inside? isOpen line with
  | none => rwa [codeOf_of_outside opened] at member
  | some inside =>
    rw [codeOf_of_inside opened] at member
    have within : c ∈ inside := by
      cases closes : Text.afterFirst? closeMark inside with
      | none => simp [closes] at member
      | some rest =>
        rw [closes] at member
        exact Text.mem_of_mem_afterFirst? closes member
    cases isOpen with
    | true => exact Option.some.inj opened ▸ within
    | false => exact Text.mem_of_mem_afterPrefix? opened within

theorem scan_inside {inside : List Char} (opened : inside? isOpen line = some inside) :
    (context isOpen).scan line = (Lexical.blockComment false).scan inside := by
  cases isOpen with
  | true =>
    obtain rfl : line = inside := Option.some.inj opened
    rfl
  | false =>
    cases line with
    | nil => cases opened
    | cons c line =>
      obtain ⟨rfl, rfl⟩ := Text.afterPrefix?_pair opened
      rfl

theorem leavesOpen_of_inside {inside : List Char} (opened : inside? isOpen line = some inside) :
    (read isOpen line).leavesOpen = !Text.occursIn closeMark inside := by
  cases isOpen with
  | true =>
    obtain rfl : line = inside := Option.some.inj opened
    cases closes : Text.afterFirst? closeMark line <;> simp [read, Text.occursIn, closes]
  | false =>
    have opens : Text.afterPrefix? openMark line = some inside := opened
    simp [read, opens]

theorem inside?_eq_none :
    inside? isOpen line = none ↔ isOpen = false ∧ Text.startsWith openMark line = false := by
  cases isOpen with
  | true => simp [inside?]
  | false => simp [inside?, Text.startsWith]

/-- A line that leaves a block comment open has no code. Any other is scanned as its code is. -/
theorem scan_line (isOpen : Bool) (line : List Char) :
    ((read isOpen line).leavesOpen = true ∧ codeOf isOpen line = [] ∧
      ∃ star, (context isOpen).scan line = (.blockComment star, 0)) ∨
    ((read isOpen line).leavesOpen = false ∧
      (context isOpen).scan line = Lexical.start.scan (codeOf isOpen line)) := by
  cases opened : inside? isOpen line with
  | none =>
    obtain ⟨rfl, unopened⟩ := inside?_eq_none.mp opened
    exact .inr ⟨by rw [read_of_unopened unopened], by rw [codeOf_of_outside opened]; rfl⟩
  | some inside =>
    obtain ⟨closed, unclosed⟩ := Lexical.scan_block false inside nofun
    rw [leavesOpen_of_inside opened, scan_inside opened, codeOf_of_inside opened, Text.occursIn]
    cases closes : Text.afterFirst? closeMark inside with
    | none => exact .inl ⟨rfl, rfl, unclosed closes⟩
    | some rest => exact .inr ⟨rfl, closed rest closes⟩

section Margins

variable {isOpen : Bool} {raw : List Char}

/-- The blanks around a line leave neither code nor a block comment. -/
theorem scan_trim (isOpen : Bool) (raw : List Char) :
    ((context isOpen).scan raw).2 = ((context isOpen).scan (Text.trim raw)).2 ∧
      ∃ tail, Text.Blanks tail ∧
        (context isOpen).after raw = ((context isOpen).scan (Text.trim raw)).1.after tail := by
  obtain ⟨tail, whole, blank⟩ := Text.exists_trim_append raw
  have lead := Text.blanks_indent raw
  have stays : (context isOpen).after (Text.indent raw) = context isOpen := by
    cases isOpen with
    | true => exact Lexical.after_blanks_of_stays (fun _ => Lexical.block_next_blank false) lead
    | false => exact Lexical.start_after_blanks lead
  constructor
  · calc ((context isOpen).scan raw).2
        = ((context isOpen).scan (Text.indent raw ++ Text.trim raw ++ tail)).2 := by rw [← whole]
      _ = ((context isOpen).scan (Text.trim raw)).2 := by
        rw [Lexical.scan_append, Lexical.scan_append, Lexical.scan_blanks _ lead,
          Lexical.scan_blanks _ blank, stays, Int.zero_add, Int.add_zero]
  · refine ⟨tail, blank, ?_⟩
    calc (context isOpen).after raw
        = (context isOpen).after (Text.indent raw ++ Text.trim raw ++ tail) := by rw [← whole]
      _ = ((context isOpen).scan (Text.trim raw)).1.after tail := by
        rw [Lexical.after_append, Lexical.after_append, stays, Lexical.scan_fst]

/-- The braces that count on a line are those of its code, however it is indented. -/
theorem balance_of_code (isOpen : Bool) (raw : List Char) :
    ((context isOpen).scan raw).2 = braceBalance (codeOf isOpen (Text.trim raw)) := by
  rw [(scan_trim isOpen raw).1]
  obtain ⟨-, none, star, block⟩ | ⟨-, code⟩ := scan_line isOpen (Text.trim raw)
  · rw [block, none]
    rfl
  · rw [code]
    rfl

/-- If the code of a line leaves nothing open, the next line starts in the context that reading
expects. -/
theorem context_after_line (closed : (Lexical.start.after (codeOf isOpen (Text.trim raw))).Settled) :
    (context isOpen).after (raw ++ ['\n']) = context (read isOpen (Text.trim raw)).leavesOpen := by
  obtain ⟨-, tail, blank, ends⟩ := scan_trim isOpen raw
  rw [Lexical.after_append, ends]
  obtain ⟨stays, -, star, block⟩ | ⟨leaves, code⟩ := scan_line isOpen (Text.trim raw)
  · obtain ⟨star', still⟩ := Lexical.block_after_blanks star blank
    rw [stays, block, still]
    exact Lexical.block_next_blank star' rfl
  · rw [leaves, code, Lexical.scan_fst]
    exact Lexical.next_newline (closed.after_blanks blank)

end Margins

end Lines

/-- No line with a name begins with a closing mark. -/
theorem not_closeMark_of_nameAt {line : List Char} {column : Nat} {name : String}
    (named : Shape.NameAt line column name) : ¬ Text.startsWith closeMark line = true := by
  intro starts
  obtain ⟨rest, rfl⟩ := Text.exists_of_startsWith starts
  have nonempty : 1 ≤ column + name.length := by
    obtain ⟨-, -, -, -, some, -⟩ := named
    have positive := List.length_pos_iff.mpr some
    rw [String.length_toList] at positive
    omega
  obtain ⟨part, behind, whole, width, chars⟩ := named.upTo nonempty
  obtain ⟨c, rfl⟩ := List.length_eq_one_iff.mp width
  obtain ⟨rfl, -⟩ := List.cons.inj whole
  exact absurd (chars _ List.mem_cons_self) (by decide)

end Comment

/-- A line is code unless it begins a block comment, or nothing but blanks and a comment follows the one
that it starts in. -/
theorem Line.isCode_iff {l : Line} {isOpen : Bool} :
    l.IsCode isOpen ↔ ¬ Filler (Comment.codeOf isOpen l.trimmed) ∧
      (isOpen = false → Text.startsWith Comment.openMark l.trimmed = false) := by
  have again : Text.trim l.trimmed = l.trimmed := Text.trim_trim l.content
  unfold IsCode
  cases opened : Comment.inside? isOpen l.trimmed with
  | none =>
    obtain ⟨rfl, unopened⟩ := Comment.inside?_eq_none.mp opened
    simp [Comment.codeOf_of_outside opened, Comment.read_of_unopened unopened, Filler, again, unopened]
  | some inside =>
    rw [Comment.codeOf_of_inside opened]
    cases isOpen with
    | false =>
      have opens : Text.afterPrefix? Comment.openMark l.trimmed = some inside := opened
      simp [Comment.read, opens, Text.startsWith]
    | true =>
      obtain rfl := Option.some.inj opened
      cases closes : Text.afterFirst? Comment.closeMark l.trimmed with
      | none =>
        have nothing : Filler [] := .inl rfl
        simp [Comment.read, closes, nothing]
      | some rest =>
        have nonempty : l.trimmed ≠ [] := by
          intro empty
          rw [empty] at closes
          cases closes
        simp [Comment.read, closes, Filler, nonempty]

namespace Document

/-- Whether a block comment is open where a line begins. -/
def inComment (d : Document) (l : Line) : Bool := (Lexical.start.after (d.above l)).inBlock

/-- The code of a line of a document. -/
def codeOn (d : Document) (l : Line) : List Char := Comment.codeOf (d.inComment l) l.trimmed

/-- The code of a line leaves neither quoted text nor a block comment open. -/
def ClosedOn (d : Document) (l : Line) : Prop := (Lexical.start.after (d.codeOn l)).Settled

instance (d : Document) (l : Line) : Decidable (d.ClosedOn l) :=
  inferInstanceAs (Decidable (Lexical.Settled _))

end Document

namespace Reading

theorem step_inComment (r : Reading) (l : Line) :
    (r.step l).1.inComment = (Comment.read r.inComment l.trimmed).leavesOpen := by
  generalize next : r.step l = result
  cases next ▸ step_outcome r l with
  | blank empty =>
    have stays : (Comment.read r.inComment []).leavesOpen = r.inComment := by
      cases r.inComment <;> rfl
    rw [empty, stays]
    rfl
  | comment | nested | declared | opened | whole | grown | closed => rfl

/-- Reading knows at every line whether a block comment is open, if no line above leaves one open that
its code opened. -/
theorem inComment_eq {d : Document} {before after : List Line} {l : Line}
    (split : d.lines = before ++ l :: after) (closed : ∀ l' ∈ before, d.ClosedOn l') :
    (start.after before).inComment = d.inComment l ∧
      Lexical.start.after (d.above l) = Comment.context (d.inComment l) := by
  induction before using List.reverseRecOn generalizing l after with
  | nil =>
    have above := Document.above_first split
    rw [Document.inComment, above]
    exact ⟨rfl, rfl⟩
  | append_singleton before l' ih =>
    rw [List.append_assoc, List.singleton_append] at split
    obtain ⟨raw, above, trimmed⟩ := Document.above_next split
    obtain ⟨known, context⟩ := ih split fun l'' member =>
      closed l'' (List.mem_append_left _ member)
    have here : d.ClosedOn l' := closed l' (by simp)
    rw [Document.ClosedOn, Document.codeOn, trimmed] at here
    have next : Lexical.start.after (d.above l) =
        Comment.context (Comment.read (d.inComment l') (Text.trim raw)).leavesOpen := by
      rw [above, Lexical.after_append, context, Comment.context_after_line here]
    have inComment : d.inComment l = (Comment.read (d.inComment l') (Text.trim raw)).leavesOpen := by
      rw [Document.inComment, next]
      cases (Comment.read (d.inComment l') (Text.trim raw)).leavesOpen <;> rfl
    refine ⟨?_, by rw [next, inComment]⟩
    rw [after_append, inComment, after_cons]
    show ((start.after before).step l').1.inComment = _
    rw [step_inComment, known, trimmed]

end Reading

namespace Document

/-- The context of a position in a scan of the whole document. -/
def contextAt? (d : Document) (p : Position) : Option Lexical := do
  let offset ← d.offset? p
  let before ← Text.beginning? offset d.chars
  return Lexical.start.after before

/-- A declaration that no comment holds. -/
structure InCode (d : Document) (site : Site) : Prop where
  /-- Its name stands in code, from the beginning to the end. -/
  named : ∀ column, site.selection.start.column ≤ column → column ≤ site.selection.stop.column →
    ∃ tail, d.contextAt? ⟨site.selection.start.line, column⟩ = some (.code tail)
  /-- No block comment is open where its line begins. -/
  outside : ∀ l, d.line? site.line = some l → d.inComment l = false

theorem UpTo.contextAt? {d : Document} {p : Position} {before behind : List Char}
    (upTo : d.UpTo p before behind) : d.contextAt? p = some (Lexical.start.after before) := by
  simp [Document.contextAt?, upTo.offset, upTo.beginning?]

/-- A name stands in code if its line begins there. -/
theorem inCode_of_declares {d : Document} {l : Line} (member : l ∈ d.lines)
    (outside : d.inComment l = false) (code : Lexical.start.after (d.above l) = .start)
    {kind : Kind} {name : String} {site : Site} (declares : l.Declares kind name site) :
    d.InCode site := by
  obtain ⟨nameAt, stop, named, rfl, -⟩ := declares.placed
  refine ⟨fun column first last => ?_, fun l' isLine => ?_⟩
  · have after : l.indent ≤ column := Nat.le_trans (Nat.le_add_right _ nameAt) first
    have within : column - l.indent ≤ nameAt + name.length :=
      Nat.sub_le_iff_le_add'.mpr (Nat.add_assoc .. ▸ last)
    obtain ⟨part, behind, trimmed, width, chars⟩ := named.upTo within
    obtain ⟨tail, upTo, -⟩ := upTo_column member trimmed
    rw [width, Nat.add_sub_cancel' after] at upTo
    obtain ⟨⟨tail, -, inCode⟩, -⟩ := Lexical.after_inert Lexical.plain_ne_slash (Shape.inert_of_chars chars)
    refine ⟨tail, upTo.contextAt?.trans ?_⟩
    rw [Lexical.after_append, Lexical.after_append, code,
      Lexical.start_after_blanks (Text.blanks_indent _), Lexical.start, inCode]
  · obtain rfl := Option.some.inj ((line?_of_mem member).symm.trans isLine)
    exact outside

end Document

/-- Nothing inside a comment is declared, if no line leaves a comment open that its code opened, and
if the lines on which other comments end begin with the closing mark or have no code behind it. -/
theorem declared_in_code {d : Document} (closed : ∀ l ∈ d.lines, d.ClosedOn l)
    (ends : ∀ l ∈ d.lines, d.inComment l = true →
      Text.startsWith Comment.closeMark l.trimmed = true ∨ Filler (d.codeOn l)) :
    ∀ s ∈ (Model.ofDocument d).symbols, d.InCode s.site ∧ ∀ m ∈ s.members, d.InCode m.site := by
  apply Reading.symbols_throughout (P := fun _ _ site => d.InCode site)
  · intro b isOpen
    cases isOpen
  · intro before l after split code kind name site declares
    have member : l ∈ d.lines := split ▸ List.mem_append_right _ List.mem_cons_self
    obtain ⟨known, context⟩ := Reading.inComment_eq split fun l' earlier =>
      closed l' (split ▸ List.mem_append_left _ earlier)
    rw [known, Line.isCode_iff] at code
    cases isOpen : d.inComment l with
    | false =>
      rw [isOpen] at context
      exact Document.inCode_of_declares member isOpen context declares
    | true =>
      obtain ⟨column, _, named, -⟩ := declares.placed
      have marked := (ends l member isOpen).resolve_right code.1
      exact absurd marked (Comment.not_closeMark_of_nameAt named)

/-- A document with comments. -/
def commented : Document :=
  .ofString "/* was\n   old() => 1\n*/\nconst LAST = 1 /* one */\nPair \x7b\n  area() => 2 // two\n\x7d"

/-- What stands in the comments of `commented` is not declared. -/
theorem declared_in_commented :
    (Model.ofDocument commented).symbols.map Symbol.name = ["LAST", "Pair"] ∧
      ∀ s ∈ (Model.ofDocument commented).symbols,
        commented.InCode s.site ∧ ∀ m ∈ s.members, commented.InCode m.site :=
  ⟨by decide +kernel, declared_in_code (by decide +kernel) (by decide +kernel)⟩

/-- Behind code an opener goes unseen, and what stands in its comment is declared. -/
theorem declared_in_unseen_comment :
    let d := Document.ofString "main() => 1 /* was\nold() => 2\n*/\n"
    d.chars.any Lexical.isQuoteMark = false ∧
      ∃ s ∈ (Model.ofDocument d).symbols, s.name = "old" ∧
        d.contextAt? s.site.selection.start = some (.blockComment false) := by
  decide +kernel

end SymbolIndex
