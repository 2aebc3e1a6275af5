import SymbolIndex.Proofs.Offsets
import SymbolIndex.Proofs.PlainLines
import SymbolIndex.Proofs.Shapes

/-! Where containers end. Reading keeps the depth of a container line by line, and a scan of the whole
text finds the brace that balances the container's own: on plain lines the two agree. Until the
line of that brace the depth stays positive, and on that line it comes to zero unless another block
opens behind the brace. -/
namespace SymbolIndex

open Document

namespace Line

/-- A brace is no part of a line's terminator, so what follows it on the line is the line's own but
for some blanks. -/
theorem drop_content_lineOf (number : Nat) (u v rest : List Char) :
    ∃ terminator, Text.Blanks terminator ∧
      v = (lineOf number (u ++ '\x7d' :: v) rest).content.drop (u.length + 1) ++ terminator := by
  obtain ⟨terminator, whole, blank⟩ := Text.exists_chomp_append (u ++ '\x7d' :: v)
  refine ⟨terminator, blank, ?_⟩
  show v = (chomp (u ++ '\x7d' :: v)).drop (u.length + 1) ++ terminator
  obtain ⟨w, content, behind⟩ | ⟨w, -, behind⟩ := List.append_eq_append_iff.mp whole
  · cases w with
    | nil =>
      have brace : '\x7d' ∈ [] ++ terminator := behind ▸ List.mem_cons_self
      exact absurd (blank _ brace) (by decide)
    | cons c w =>
      obtain ⟨rfl, later⟩ := List.cons.inj behind
      rw [content]
      simpa using later
  · have brace : '\x7d' ∈ terminator := behind ▸ List.mem_append_right _ List.mem_cons_self
    exact absurd (blank _ brace) (by decide)

/-- If no block opens behind a brace on its line, what follows the brace does not raise the
depth. -/
theorem balance_behind_brace {number : Nat} {u v rest : List Char}
    (quiet : Lexical.start.opens
      ((lineOf number (u ++ '\x7d' :: v) rest).content.drop (u.length + 1)) = false) :
    braceBalance v ≤ 0 := by
  obtain ⟨terminator, blank, whole⟩ := drop_content_lineOf number u v rest
  rw [whole, braceBalance, Lexical.scan_append, Lexical.scan_blanks _ blank, Int.add_zero]
  exact Lexical.scan_nonpos_of_not_opens quiet

end Line

/-- A closing brace of a text, the lines up to its own and the column where it stands there. -/
structure BraceOn (number : Nat) (s u v : List Char) (between : List Line) (last : Line)
    (rest : List Line) (column : Nat) : Prop where
  text : s = u ++ '\x7d' :: v
  lines : linesFrom number s = between ++ last :: rest
  position : (Position.mk number 0).after u = ⟨last.number, column⟩

namespace BraceOn

variable {number column : Nat} {u v : List Char} {last : Line} {between rest : List Line}

theorem first (number : Nat) {onward : List Char} (oneLine : '\n' ∉ u ++ '\x7d' :: v)
    (ends : onward = [] ∨ ∃ later, onward = '\n' :: later) :
    ∃ below, BraceOn number (u ++ '\x7d' :: v ++ onward) u (v ++ onward) []
      (lineOf number (u ++ '\x7d' :: v) onward) below u.length := by
  have before : '\n' ∉ u := fun member => oneLine (List.mem_append_left _ member)
  have position : (Position.mk number 0).after u = ⟨number, u.length⟩ := by
    rw [Position.after_of_one_line before, Nat.zero_add]
  obtain rfl | ⟨later, rfl⟩ := ends
  · rw [List.append_nil]
    exact ⟨[], by simp, linesFrom_of_one_line oneLine number, position⟩
  · exact ⟨_, by simp, linesFrom_line_append oneLine number later, position⟩

theorem later {s raw : List Char} (braceOn : BraceOn (number + 1) s u v between last rest column)
    (oneLine : '\n' ∉ raw) :
    BraceOn number (raw ++ '\n' :: s) (raw ++ '\n' :: u) v
      (lineOf number raw ('\n' :: s) :: between) last rest column where
  text := by rw [braceOn.text, List.append_assoc, List.cons_append]
  lines := by rw [linesFrom_line_append oneLine, braceOn.lines, List.cons_append]
  position := by
    rw [Position.after_append, Position.after_newline, Position.after_of_one_line oneLine]
    exact braceOn.position

theorem number_le {s : List Char} (braceOn : BraceOn number s u v between last rest column) :
    number ≤ last.number := by
  have below : last ∈ linesFrom number s := by simp [braceOn.lines]
  exact number_le_of_mem below

/-- Where the brace stands in a document that ends with the text. -/
theorem position? {s prior : List Char} {d : Document}
    (braceOn : BraceOn number s u v between last rest column) (text : d.chars = prior ++ s)
    (place : Position.origin.after prior = ⟨number, 0⟩) :
    d.position? (Text.byteLength (prior ++ u)) = some ⟨last.number, column⟩ ∧
      d.position? (Text.byteLength (prior ++ u) + 1) = some ⟨last.number, column + 1⟩ := by
  have reached : Position.origin.after (prior ++ u) = ⟨last.number, column⟩ := by
    rw [Position.after_append, place, braceOn.position]
  have upTo : d.chars = (prior ++ u) ++ '\x7d' :: v := by rw [text, braceOn.text, List.append_assoc]
  have past : d.chars = (prior ++ u ++ ['\x7d']) ++ v := by simp [upTo]
  have size : Text.byteLength (prior ++ u) + 1 = Text.byteLength (prior ++ u ++ ['\x7d']) := by
    rw [Text.byteLength_append _ ['\x7d']]
    rfl
  constructor
  · rw [position?_of_append upTo, reached]
  · rw [size, position?_of_append past, Position.after_append, reached]
    rfl

end BraceOn

namespace Reading

/-- Some lines complete nothing. Unless a block opens behind the column, the line after them completes
a container, with members that were collected earlier or on lines from the lowest on. -/
structure Completes (r : Reading) (name : String) (site : Site) (earlier : List Member)
    (lowest : Nat) (between : List Line) (last : Line) (column : Nat) : Prop where
  silent : r.symbols between = []
  completes : Lexical.start.opens (last.content.drop (column + 1)) = false →
    ∃ b : Container, (r.after between).step last = ({ r with container := none }, some b.close) ∧
      b.name = name ∧ b.site = site ∧
      ∀ m ∈ b.collected, m ∈ earlier ∨ lowest ≤ m.site.line ∧ m.site.line < last.number

section Inside

variable {r : Reading} {b : Container} {number index : Nat}

/-- A line on which no brace closes the container leaves it open. -/
theorem step_unclosed {raw rest : List Char} (outside : r.inComment = false)
    (plain : (lineOf number raw rest).Plain) (oneLine : '\n' ∉ raw) (inside : r.container = some b)
    (positive : 0 < b.depth) (unclosed : Lexical.start.closing? b.depth index raw = none) :
    ∃ b' : Container, r.step (lineOf number raw rest) = ({ r with container := some b' }, none) ∧
      0 < b'.depth ∧ b'.depth = b.depth + braceBalance raw ∧ b'.name = b.name ∧ b'.site = b.site ∧
      ∀ m ∈ b'.collected, m ∈ b.collected ∨ (lineOf number raw rest).Hosts m.site := by
  have above : 0 < b.depth + braceBalance raw := Lexical.positive_of_closing?_none unclosed positive
  have single := Line.not_mem_trimmed oneLine number rest
  have cases := step_inside outside plain.unopened single inside positive
  rw [Line.braceBalance_lineOf] at cases
  obtain ⟨-, b', steps, depth, name, site, members⟩ | ⟨below, -⟩ := cases
  · exact ⟨b', steps, depth ▸ above, depth, name, site, members⟩
  · omega

/-- The line of the brace that closes the container closes it, unless another block opens behind the
brace. -/
theorem step_closing {raw rest : List Char} {found : Nat} (outside : r.inComment = false)
    (plain : (lineOf number raw rest).Plain) (oneLine : '\n' ∉ raw)
    (ends : rest = [] ∨ ∃ later, rest = '\n' :: later) (inside : r.container = some b)
    (positive : 0 < b.depth) (closes : Lexical.start.closing? b.depth index raw = some found) :
    ∃ u v below column, BraceOn number (raw ++ rest) u v [] (lineOf number raw rest) below column ∧
      found = index + u.length ∧
      r.Completes b.name b.site b.collected number [] (lineOf number raw rest) column := by
  obtain ⟨u, v, rfl, place, level⟩ := balance_of_closing? closes
  obtain ⟨below, braceOn⟩ := BraceOn.first number oneLine ends
  refine ⟨u, _, below, _, braceOn, place, rfl, fun quiet => ?_⟩
  have single := Line.not_mem_trimmed oneLine number rest
  have falls := Line.balance_behind_brace quiet
  have cases := step_inside outside plain.unopened single inside positive
  rw [Line.braceBalance_lineOf, level] at cases
  obtain ⟨above, -⟩ | ⟨-, steps⟩ := cases
  · omega
  · exact ⟨b.noting _, steps, rfl, rfl, fun m member => .inl member⟩

/-- A container that no brace of the text closes is never completed, and neither is anything
else. -/
theorem symbols_unclosed {s : List Char} (outside : r.inComment = false)
    (plain : ∀ l ∈ linesFrom number s, l.Plain) (inside : r.container = some b)
    (positive : 0 < b.depth) (unclosed : Lexical.start.closing? b.depth index s = none) :
    r.symbols (linesFrom number s) = [] := by
  induction s using lineInduction generalizing r b number index with
  | last raw oneLine =>
    rw [linesFrom_of_one_line oneLine, List.forall_mem_singleton] at plain
    obtain ⟨b', steps, -⟩ := step_unclosed outside plain oneLine inside positive unclosed
    rw [linesFrom_of_one_line oneLine, symbols_cons, steps]
    rfl
  | line raw s oneLine ih =>
    rw [linesFrom_line_append oneLine, List.forall_mem_cons] at plain
    rw [closing?_line plain.1.after_newline, Option.or_eq_none_iff] at unclosed
    obtain ⟨b', steps, above, depth, -⟩ :=
      step_unclosed outside plain.1 oneLine inside positive unclosed.1
    rw [linesFrom_line_append oneLine, symbols_cons, steps]
    exact ih outside plain.2 rfl above (depth ▸ unclosed.2)

/-- The brace that closes the container stands on the line that completes it, unless another block
opens behind the brace; up to that line nothing is completed. -/
theorem closed_on_line {s : List Char} {found : Nat} (outside : r.inComment = false)
    (plain : ∀ l ∈ linesFrom number s, l.Plain) (inside : r.container = some b)
    (positive : 0 < b.depth) (closes : Lexical.start.closing? b.depth index s = some found) :
    ∃ u v between last rest column, BraceOn number s u v between last rest column ∧
      found = index + u.length ∧
      r.Completes b.name b.site b.collected number between last column := by
  induction s using lineInduction generalizing r b number index with
  | last raw oneLine =>
    rw [linesFrom_of_one_line oneLine, List.forall_mem_singleton] at plain
    obtain ⟨u, v, below, column, braceOn, place, completes⟩ :=
      step_closing outside plain oneLine (.inl rfl) inside positive closes
    rw [List.append_nil] at braceOn
    exact ⟨u, v, [], _, below, column, braceOn, place, completes⟩
  | line raw s oneLine ih =>
    rw [linesFrom_line_append oneLine, List.forall_mem_cons] at plain
    rw [closing?_line plain.1.after_newline, Option.or_eq_some_iff] at closes
    obtain here | ⟨unclosed, further⟩ := closes
    · obtain ⟨u, v, below, column, braceOn, place, completes⟩ :=
        step_closing outside plain.1 oneLine (.inr ⟨s, rfl⟩) inside positive here
      exact ⟨u, v, [], _, below, column, braceOn, place, completes⟩
    · obtain ⟨b', steps, above, depth, name, site, members⟩ :=
        step_unclosed outside plain.1 oneLine inside positive unclosed
      obtain ⟨u, v, between, last, rest, column, braceOn, place, silent, completes⟩ :=
        ih (r := { r with container := some b' }) outside plain.2 rfl above (depth ▸ further)
      refine ⟨_, v, _, last, rest, column, braceOn.later oneLine, ?_, ?_, fun quiet => ?_⟩
      · rw [place, List.length_append, List.length_cons]
        omega
      · rw [symbols_cons, steps]
        exact silent
      · obtain ⟨b'', ended, name', site', members'⟩ := completes quiet
        refine ⟨b'', ?_, name'.trans name, site'.trans site, fun m member => ?_⟩
        · rw [after_cons, steps]
          exact ended
        · have reaches := braceOn.number_le
          obtain earlier | ⟨low, high⟩ := members' m member
          · refine (members m earlier).imp_right fun hosts => ?_
            have here : m.site.line = number := hosts.line_eq
            omega
          · exact .inr ⟨by omega, high⟩

end Inside

section Head

variable {r : Reading} {number : Nat} {lead body rest : List Char} {head : Shape.Head}

/-- The line of a head opens the container, or completes it if it closes all that it opens. -/
theorem step_head {l : Line} (outside : r.inComment = false)
    (unopened : Text.startsWith Comment.openMark l.trimmed = false) (free : r.container = none)
    (top : r.depth = 0)
    (heads : Shape.containerHead? l.trimmed = some head) :
    (0 < braceBalance l.trimmed ∧
      r.step l = ({ r with container := some (Container.ofHead l head) }, none)) ∨
    (braceBalance l.trimmed ≤ 0 ∧ r.step l = (r, some (Container.ofHead l head).close)) := by
  obtain ⟨-, -, -, -, -, c, first, capital⟩ := Shape.containerHead?_brace heads
  have leaves := commented_of_unopened outside unopened
  generalize next : r.step l = result
  cases next ▸ step_outcome r l with
  | blank empty => simp [empty] at first
  | comment is =>
    rw [outside, Comment.read_of_unopened unopened] at is
    obtain ⟨rest, slashes⟩ := Text.exists_of_startsWith is
    obtain rfl : '/' = c := by simpa [slashes, Comment.lineMark] using first
    exact absurd capital (by decide)
  | nested _ _ deep => exact absurd top deep
  | declared _ _ _ headless => exact absurd (headless.symm.trans heads) (by simp)
  | opened _ _ _ head' heads' positive =>
    obtain rfl := Option.some.inj (heads'.symm.trans heads)
    exact .inl ⟨positive, by rw [leaves]⟩
  | whole _ _ _ head' heads' closes =>
    obtain rfl := Option.some.inj (heads'.symm.trans heads)
    exact .inr ⟨closes, by rw [leaves]⟩
  | grown _ _ inside | closed _ _ inside => exact absurd (free.symm.trans inside) (by simp)

/-- The brace of a head on its line: nothing before it matters to a scan, and its place is that which
the head names. -/
theorem head_brace {raw : List Char}
    (heads : Shape.containerHead? (lineOf number raw rest).trimmed = some head) :
    ∃ lead body, raw = lead ++ '\x7b' :: body ∧ Lexical.Inert lead ∧
      lead.length = (lineOf number raw rest).indent + head.braceAt ∧
      lead <+: (lineOf number raw rest).content := by
  obtain ⟨before, behind, trimmed, width, inert, -⟩ := Shape.containerHead?_brace heads
  obtain ⟨lead, body, cut, inside, column, rfl⟩ := Line.brace_of_trimmed trimmed
  refine ⟨_, body, cut, ?_, width ▸ column, inside⟩
  exact Lexical.inert_append.mpr ⟨Shape.inert_blanks (Text.blanks_indent _), inert⟩

/-- The line of a head counts for one block more than what follows the head's brace. -/
theorem balance_head (inert : Lexical.Inert lead) :
    braceBalance (lineOf number (lead ++ '\x7b' :: body) rest).trimmed = 1 + braceBalance body := by
  rw [Line.braceBalance_lineOf]
  exact (Lexical.scan_inert_block inert body).1

/-- The next line is scanned on its own also after what follows the brace of a head. -/
theorem head_settles (plain : (lineOf number (lead ++ '\x7b' :: body) rest).Plain)
    (inert : Lexical.Inert lead) : (Lexical.start.after body).next '\n' = Lexical.start := by
  rw [← (Lexical.scan_inert_block inert body).2]
  exact plain.after_newline

section Line

variable (outside : r.inComment = false) (inert : Lexical.Inert lead)
  (plain : (lineOf number (lead ++ '\x7b' :: body) rest).Plain)
  (free : r.container = none) (top : r.depth = 0)
  (heads : Shape.containerHead? (lineOf number (lead ++ '\x7b' :: body) rest).trimmed = some head)
include outside inert plain free top heads

theorem step_head_unclosed (unclosed : Lexical.start.closing? 1 1 body = none) :
    0 < 1 + braceBalance body ∧ r.step (lineOf number (lead ++ '\x7b' :: body) rest) =
      ({ r with
        container := some (Container.ofHead (lineOf number (lead ++ '\x7b' :: body) rest) head) },
      none) := by
  have above : 0 < 1 + braceBalance body :=
    Lexical.positive_of_closing?_none unclosed Int.one_pos
  have cases := step_head outside plain.unopened free top heads
  rw [balance_head inert] at cases
  obtain ⟨-, steps⟩ | ⟨below, -⟩ := cases
  · exact ⟨above, steps⟩
  · omega

theorem step_head_closing {found : Nat} (oneLine : '\n' ∉ lead ++ '\x7b' :: body)
    (ends : rest = [] ∨ ∃ later, rest = '\n' :: later)
    (closes : Lexical.start.closing? 1 1 body = some found) :
    ∃ u v below column, BraceOn number (lead ++ '\x7b' :: body ++ rest) (lead ++ '\x7b' :: u) v []
        (lineOf number (lead ++ '\x7b' :: body) rest) below column ∧
      found = 1 + u.length ∧
      r.Completes head.name
        (Container.ofHead (lineOf number (lead ++ '\x7b' :: body) rest) head).site [] (number + 1) []
        (lineOf number (lead ++ '\x7b' :: body) rest) column := by
  obtain ⟨u, v, rfl, place, level⟩ := balance_of_closing? closes
  have whole : lead ++ '\x7b' :: (u ++ '\x7d' :: v) = (lead ++ '\x7b' :: u) ++ '\x7d' :: v := by simp
  have cases := step_head outside plain.unopened free top heads
  rw [balance_head inert, level] at cases
  rw [whole] at oneLine cases ⊢
  obtain ⟨below, braceOn⟩ := BraceOn.first number oneLine ends
  refine ⟨u, _, below, _, braceOn, place, rfl, fun quiet => ?_⟩
  have falls := Line.balance_behind_brace quiet
  obtain ⟨above, -⟩ | ⟨-, steps⟩ := cases
  · omega
  · refine ⟨Container.ofHead _ head, steps.trans ?_, rfl, rfl, fun m member => .inl member⟩
    exact congrArg (·, some (Container.close _)) (by rw [← free])

/-- A head whose brace no brace of the text balances opens a container that is never completed. -/
theorem symbols_head_unclosed (oneLine : '\n' ∉ lead ++ '\x7b' :: body)
    (ends : rest = [] ∨ ∃ later, rest = '\n' :: later)
    (others : ∀ l ∈ linesFrom number (lead ++ '\x7b' :: body ++ rest), l.Plain)
    (unclosed : Lexical.start.closing? 1 1 (body ++ rest) = none) :
    r.symbols (linesFrom number (lead ++ '\x7b' :: body ++ rest)) = [] := by
  obtain rfl | ⟨later, rfl⟩ := ends
  · rw [List.append_nil] at unclosed ⊢
    obtain ⟨-, steps⟩ := step_head_unclosed outside inert plain free top heads unclosed
    rw [linesFrom_of_one_line oneLine, symbols_cons, steps]
    rfl
  · rw [closing?_line (head_settles plain inert), Option.or_eq_none_iff] at unclosed
    obtain ⟨above, steps⟩ :=
      step_head_unclosed outside inert plain free top heads unclosed.1
    rw [linesFrom_line_append oneLine, List.forall_mem_cons] at others
    rw [linesFrom_line_append oneLine, symbols_cons, steps]
    have depth : (Container.ofHead (lineOf number (lead ++ '\x7b' :: body) ('\n' :: later)) head).depth =
        1 + braceBalance body := balance_head inert
    exact symbols_unclosed outside others.2 rfl (depth ▸ above) (depth.symm ▸ unclosed.2)

/-- The brace that balances a head's brace stands on the line that completes the container, unless
another block opens behind it on that line. -/
theorem head_closed_on_line {found : Nat} (oneLine : '\n' ∉ lead ++ '\x7b' :: body)
    (ends : rest = [] ∨ ∃ later, rest = '\n' :: later)
    (others : ∀ l ∈ linesFrom number (lead ++ '\x7b' :: body ++ rest), l.Plain)
    (closes : Lexical.start.closing? 1 1 (body ++ rest) = some found) :
    ∃ u v between last below column,
      BraceOn number (lead ++ '\x7b' :: body ++ rest) (lead ++ '\x7b' :: u) v between last below
        column ∧
      found = 1 + u.length ∧
      r.Completes head.name
        (Container.ofHead (lineOf number (lead ++ '\x7b' :: body) rest) head).site [] (number + 1)
        between last column := by
  obtain rfl | ⟨later, rfl⟩ := ends
  · rw [List.append_nil] at closes
    obtain ⟨u, v, below, column, braceOn, place, completes⟩ :=
      step_head_closing outside inert plain free top heads oneLine (.inl rfl) closes
    exact ⟨u, v, [], _, below, column, braceOn, place, completes⟩
  · rw [closing?_line (head_settles plain inert), Option.or_eq_some_iff] at closes
    obtain here | ⟨unclosed, further⟩ := closes
    · obtain ⟨u, v, below, column, braceOn, place, completes⟩ :=
        step_head_closing outside inert plain free top heads oneLine (.inr ⟨later, rfl⟩) here
      exact ⟨u, v, [], _, below, column, braceOn, place, completes⟩
    · obtain ⟨above, steps⟩ :=
        step_head_unclosed outside inert plain free top heads unclosed
      rw [linesFrom_line_append oneLine, List.forall_mem_cons] at others
      have depth : (Container.ofHead (lineOf number (lead ++ '\x7b' :: body) ('\n' :: later))
          head).depth = 1 + braceBalance body := balance_head inert
      obtain ⟨u, v, between, last, below, column, braceOn, place, silent, completes⟩ :=
        closed_on_line (r := { r with container := some (Container.ofHead _ head) }) outside
          others.2 rfl (depth ▸ above) (depth ▸ further)
      have whole : lead ++ '\x7b' :: (body ++ '\n' :: u) = (lead ++ '\x7b' :: body) ++ '\n' :: u := by
        simp
      refine ⟨body ++ '\n' :: u, v, _ :: between, last, below, column,
        whole ▸ braceOn.later oneLine, ?_, ?_, fun quiet => ?_⟩
      · rw [place, List.length_append, List.length_cons]
        omega
      · rw [symbols_cons, steps]
        exact silent
      · rw [after_cons, steps]
        exact completes quiet

end Line

end Head

/-- A container, whose head is on the first of some lines, is completed by one of them, behind the
given column. Nothing before that line completes it or anything else. -/
structure Ends (r : Reading) (first : Line) (head : Shape.Head) (last : Line) (column : Nat)
    (between rest : List Line) (s : Symbol) : Prop where
  completed : ((r.after between).step last).2 = some s
  name : s.name = head.name
  isContainer : s.kind.isContainer = true
  span : s.site.span = ⟨⟨first.number, first.indent⟩, ⟨last.number, column + 1⟩⟩
  members : ∀ m ∈ s.members, first.number < m.site.line ∧ m.site.line < last.number
  next : ∀ s' ∈ ((r.after between).step last).1.symbols rest, last.number < s'.site.line

theorem Completes.ends {r : Reading} {first last : Line} {head : Shape.Head} {between rest : List Line}
    {column : Nat}
    (completes : r.Completes head.name (Container.ofHead first head).site [] (first.number + 1)
      between last column)
    (quiet : Lexical.start.opens (last.content.drop (column + 1)) = false)
    (stop : first.blockStop head.braceAt = ⟨last.number, column + 1⟩)
    (ordered : (between ++ last :: rest).Pairwise fun a b => a.number < b.number) :
    ∃ s, r.Ends first head last column between rest s := by
  obtain ⟨b, ended, name, site, members⟩ := completes.completes quiet
  refine ⟨b.close, by rw [ended], name, b.isContainer_close, ?_, fun m member => ?_, ?_⟩
  · show b.site.span = _
    rw [site]
    exact congrArg (Span.mk _) stop
  · obtain nothing | inside := members m (Container.mem_members_close member)
    · cases nothing
    · exact inside
  · have further := (List.pairwise_append.mp ordered).2.1
    rw [ended]
    refine Reading.symbols_sites (P := fun site => last.number < site.line) ?_ ?_
    · intro b' isOpen
      cases isOpen
    · intro l below site hosts
      exact hosts.line_eq ▸ List.rel_of_pairwise_cons further below

end Reading

/-- A block reaches just past the brace that balances its own. -/
theorem Line.blockStop_of_closing {number column braceAt found : Nat}
    {lead body rest u v : List Char} {between below : List Line} {last : Line}
    (oneLine : '\n' ∉ lead)
    (width : lead.length = (lineOf number (lead ++ '\x7b' :: body) rest).indent + braceAt)
    (closes : closingBrace? ('\x7b' :: (body ++ rest)) = some found) (place : found = 1 + u.length)
    (braceOn : BraceOn number (lead ++ '\x7b' :: body ++ rest) (lead ++ '\x7b' :: u) v between last
      below column) :
    (lineOf number (lead ++ '\x7b' :: body) rest).blockStop braceAt = ⟨last.number, column + 1⟩ := by
  have text : body ++ rest = u ++ '\x7d' :: v := by simpa using braceOn.text
  have onward : (lineOf number (lead ++ '\x7b' :: body) rest).onward.drop
      ((lineOf number (lead ++ '\x7b' :: body) rest).indent + braceAt) = '\x7b' :: (body ++ rest) := by
    rw [← width]
    simp [lineOf]
  have block : (lineOf number (lead ++ '\x7b' :: body) rest).block braceAt =
      '\x7b' :: u ++ ['\x7d'] := by
    rw [Line.block_of_closing onward closes, text, place, Nat.add_comm 1, List.take_succ_cons,
      List.take_length_add_append]
    rfl
  have before : (Position.mk number 0).after lead = ⟨number, lead.length⟩ := by
    rw [Position.after_of_one_line oneLine, Nat.zero_add]
  have reached := braceOn.position
  rw [Position.after_append, before] at reached
  rw [Line.blockStop, ← width, block, Position.after_append]
  exact congrArg (Position.next · '\x7d') reached

/-- Reading line by line ends a container where a scan of the whole text finds the brace that
balances the one of its head. If there is none, the container is never completed; if there is and
no block opens behind it on its line, then that line completes the container, which reaches just
past the brace, has its members on the lines in between and comes before all that is declared
later. -/
theorem container_ends_at_balancing_brace {d : Document} (plain : ∀ l ∈ d.lines, l.Plain)
    {before after : List Line} {l : Line} (split : d.lines = before ++ l :: after)
    (free : (Reading.start.after before).container = none)
    (top : (Reading.start.after before).depth = 0) {head : Shape.Head}
    (heads : Shape.containerHead? l.trimmed = some head) :
    ∃ openAt, d.offset? ⟨l.number, l.indent + head.braceAt⟩ = some openAt ∧
      (matchingClose? d.chars openAt = none →
        (Reading.start.after before).symbols (l :: after) = []) ∧
      ∀ c, matchingClose? d.chars openAt = some c →
        ∃ between last rest column, l :: after = between ++ last :: rest ∧
          d.position? c = some ⟨last.number, column⟩ ∧
          d.position? (c + 1) = some ⟨last.number, column + 1⟩ ∧
          (Reading.start.after before).symbols between = [] ∧
          (Lexical.start.opens (last.content.drop (column + 1)) = false →
            ∃ s, (Reading.start.after before).Ends l head last column between rest s) := by
  have member : l ∈ d.lines := split ▸ List.mem_append_right _ List.mem_cons_self
  have isLine : d.line? l.number = some l := line?_of_mem member
  have outside : (Reading.start.after before).inComment = false := by
    refine Reading.after_outside rfl fun l' earlier => (plain l' ?_).unopened
    exact split ▸ List.mem_append_left _ earlier
  obtain ⟨prior, text, place, -, lines⟩ := linesFrom_split (d.lines_eq_linesFrom ▸ split)
  have others : ∀ l' ∈ l :: after, l'.Plain := fun l' later =>
    plain l' (split ▸ List.mem_append_right _ later)
  have ordered : (l :: after).Pairwise fun a b => a.number < b.number :=
    lines ▸ linesFrom_ordered _ _
  obtain ⟨number, raw, rest, oneLine, ends, rfl⟩ :
      ∃ number raw rest, '\n' ∉ raw ∧ (rest = [] ∨ ∃ later, rest = '\n' :: later) ∧
        l = lineOf number raw rest :=
    ⟨l.number, lineOf_of_mem (d.lines_eq_linesFrom ▸ member)⟩
  obtain ⟨lead, body, rfl, inert, width, inside⟩ := Reading.head_brace heads
  have here : '\n' ∉ lead := fun member => oneLine (List.mem_append_left _ member)
  have chars : d.chars = (prior ++ lead) ++ '\x7b' :: (body ++ rest) := by simp [text, lineOf]
  replace lines : linesFrom number (lead ++ '\x7b' :: body ++ rest) = _ :: after := lines.symm
  rw [← lines] at others ordered ⊢
  refine ⟨Text.byteLength (prior ++ lead), width ▸ offset?_of_append isLine text inside, ?_, ?_⟩
  · intro unclosed
    rw [chars, matchingClose?_brace, Option.map_eq_none_iff] at unclosed
    exact Reading.symbols_head_unclosed outside inert (plain _ member) free top heads oneLine ends
      others unclosed
  · intro c closes
    rw [chars, matchingClose?_brace] at closes
    obtain ⟨found, closing, rfl⟩ := Option.map_eq_some_iff.mp closes
    obtain ⟨u, v, between, last, below, column, braceOn, within, completes⟩ :=
      Reading.head_closed_on_line outside inert (plain _ member) free top heads oneLine ends others
        closing
    have behind : body ++ rest = u ++ '\x7d' :: v := by simpa using braceOn.text
    have offset : prior ++ lead ++ ('\x7b' :: (body ++ rest)).take found =
        prior ++ (lead ++ '\x7b' :: u) := by
      rw [within, behind, Nat.add_comm, List.take_succ_cons, List.take_left, List.append_assoc]
    obtain ⟨position, past⟩ := braceOn.position? text place
    rw [offset]
    refine ⟨between, last, below, column, braceOn.lines, position, past, completes.silent, ?_⟩
    intro quiet
    have stop := Line.blockStop_of_closing here width closing within braceOn
    exact completes.ends quiet stop (braceOn.lines ▸ ordered)

/-- A document with a block inside a container, and a brace in a comment behind it. -/
def nesting : Document :=
  .ofString "Pair \x7b\n  size() \x7b\n    return 2 // \x7d\n  \x7d\n\x7d\nconst LAST = 1"

/-- The container of `nesting` ends on the line with number four, before the constant. -/
theorem container_ends_nesting :
    ∃ l head between last rest s, nesting.lines = l :: nesting.lines.tail ∧
      l :: nesting.lines.tail = between ++ last :: rest ∧
      Reading.start.Ends l head last 0 between rest s ∧ last.number = 4 := by
  have split : nesting.lines = [] ++ nesting.lines.head (lines_ne_nil _) :: nesting.lines.tail :=
    (List.cons_head_tail _).symm
  have heads : Shape.containerHead? (nesting.lines.head (lines_ne_nil _)).trimmed =
      some ⟨"Pair", none, 5⟩ := by decide +kernel
  obtain ⟨openAt, place, -, closes⟩ :=
    container_ends_at_balancing_brace (by decide +kernel) split rfl rfl heads
  obtain rfl : openAt = 5 := by
    have computed : nesting.offset? ⟨0, 5⟩ = some 5 := by decide +kernel
    exact Option.some.inj (place.symm.trans computed)
  have found : matchingClose? nesting.chars 5 = some 40 := by decide +kernel
  obtain ⟨between, last, rest, column, cut, position, -, -, ends⟩ := closes _ found
  have computed : nesting.position? 40 = some ⟨4, 0⟩ := by decide +kernel
  obtain ⟨number, rfl⟩ := Position.mk.inj (Option.some.inj (position.symm.trans computed))
  have isLast : nesting.line? 4 = some last := by
    refine number ▸ line?_of_mem ?_
    rw [split, List.nil_append, cut]
    exact List.mem_append_right _ List.mem_cons_self
  have quiet : (nesting.line? 4).all fun l =>
      !Lexical.start.opens (l.content.drop 1) := by decide +kernel
  obtain ⟨s, ended⟩ := ends (by simpa [isLast] using quiet)
  exact ⟨_, _, between, last, rest, s, split, cut, ended, number⟩

end SymbolIndex
