import SymbolIndex.Proofs.Declarations

/-! Wrapped parameter lists. A head whose parameters go on below its line leaves one bit behind, and the
first line of the body with a closing parenthesis clears it. So nothing in the list is taken for a
member until that line; it is the last line of the list if no parenthesis closes in the list on a line
above. -/
namespace SymbolIndex

open Document

namespace Lexical

/-- How much a character adds to the depth of parentheses: nothing outside code. -/
def parenthesis (context : Lexical) (c : Char) : Int :=
  match context with
  | code _ => if c = '(' then 1 else if c = ')' then -1 else 0
  | _ => 0

/-- The text before the closing parenthesis of code at which the depth comes to zero. -/
def enclosed? (context : Lexical) (depth : Int) : List Char → Option (List Char)
  | [] => none
  | c :: s =>
    if context.parenthesis c = -1 ∧ depth = 1 then some []
    else ((context.next c).enclosed? (depth + context.parenthesis c) s).map (c :: ·)

theorem enclosed?_append {context : Lexical} {depth : Int} {s text : List Char}
    (found : context.enclosed? depth s = some text) : ∃ rest, s = text ++ ')' :: rest := by
  induction s generalizing context depth text with
  | nil => cases found
  | cons c s ih =>
    rw [enclosed?] at found
    by_cases closes : context.parenthesis c = -1 ∧ depth = 1
    · rw [if_pos closes] at found
      obtain rfl := Option.some.inj found
      obtain rfl : c = ')' := by
        by_contra other
        have weight := closes.1
        unfold parenthesis at weight
        split at weight
        · rw [if_neg other] at weight
          split at weight <;> cases weight
        · cases weight
      exact ⟨s, rfl⟩
    · rw [if_neg closes] at found
      obtain ⟨text, later, rfl⟩ := Option.map_eq_some_iff.mp found
      obtain ⟨rest, rfl⟩ := ih later
      exact ⟨rest, rfl⟩

end Lexical

namespace Line

/-- The number of the line that the parameter list ends on which the first parenthesis of a line opens:
that of the parenthesis that balances it. -/
def parametersStop? (l : Line) : Option Nat :=
  (Lexical.start.enclosed? 0 (l.onward.dropWhile (· != '('))).map fun text =>
    l.number + text.count '\n'

/-- The first parenthesis of a line is the first one of the text from the line on. -/
theorem exists_dropWhile_append {number : Nat} {s : List Char} {l : Line} (member : l ∈ linesFrom number s)
    {c : Char} (inside : c ∈ l.trimmed) :
    ∃ lead, '\n' ∉ lead ∧ l.onward = lead ++ l.onward.dropWhile (· != c) := by
  obtain ⟨raw, rest, oneLine, -, line⟩ := lineOf_of_mem member
  rw [line, trimmed_lineOf] at inside
  obtain ⟨lead, later, rfl, absent⟩ := List.eq_append_cons_of_mem (Text.mem_of_mem_trim inside)
  have onward : l.onward = lead ++ c :: (later ++ rest) := by
    rw [line, lineOf, List.append_assoc, List.cons_append]
  refine ⟨lead, fun newline => oneLine (List.mem_append_left _ newline), ?_⟩
  have others : ∀ d ∈ lead, (d != c) = true := by
    intro d member
    exact bne_iff_ne.mpr fun same => absent (same ▸ member)
  rw [onward, List.dropWhile_append_of_pos others, List.dropWhile_cons_of_neg (by simp)]

/-- What the text from a line on has before its first newline is on the line. -/
theorem mem_trimmed_of_onward {number : Nat} {s : List Char} {l : Line} (member : l ∈ linesFrom number s)
    {before behind : List Char} {c : Char} (onward : l.onward = before ++ c :: behind)
    (oneLine : '\n' ∉ before) (bare : Text.isBlank c = false) : c ∈ l.trimmed := by
  obtain ⟨raw, rest, -, ends, line⟩ := lineOf_of_mem member
  rw [line, lineOf] at onward
  have inRaw : c ∈ raw := by
    by_contra absent
    obtain ⟨z, rfl, below⟩ := Text.prefix_of_not_mem onward absent
    rcases ends with rfl | ⟨later, rfl⟩
    · simp at below
    · cases z with
      | nil =>
        obtain ⟨rfl, -⟩ := List.cons.inj below
        cases bare
      | cons d z =>
        obtain ⟨rfl, -⟩ := List.cons.inj below
        exact oneLine (List.mem_append_right raw List.mem_cons_self)
  rw [line, trimmed_lineOf]
  exact Text.mem_trim_of_unblank inRaw bare

/-- The line that a parameter list ends on holds the parenthesis that ends it. -/
theorem closing_of_parametersStop? {number stop : Nat} {s : List Char} {head l : Line}
    {between rest : List Line} (lines : linesFrom number s = head :: (between ++ l :: rest))
    (opens : '(' ∈ head.trimmed) (balanced : head.parametersStop? = some stop) (here : l.number = stop) :
    ')' ∈ l.trimmed := by
  obtain ⟨text, found, count⟩ := Option.map_eq_some_iff.mp balanced
  obtain ⟨tail, closes⟩ := Lexical.enclosed?_append found
  have isHead : head ∈ linesFrom number s := lines ▸ List.mem_cons_self
  have isLine : l ∈ linesFrom number s := by rw [lines]; simp
  obtain ⟨lead, oneLine, whole⟩ := exists_dropWhile_append isHead opens
  have split : linesFrom number s = (head :: between) ++ l :: rest := lines
  obtain ⟨prior, text', place, -⟩ := linesFrom_split split
  have atFirst : linesFrom number s = [] ++ head :: (between ++ l :: rest) := lines
  obtain ⟨-, -, -, first, -⟩ := linesFrom_split atFirst
  rw [closes, onward_of_first lines, text', ← List.append_assoc] at whole
  have breaks : prior.count '\n' = (lead ++ text).count '\n' := by
    have lineNumber := congrArg Position.line place
    rw [Position.line_after] at lineNumber
    rw [List.count_append, List.count_eq_zero_of_not_mem oneLine]
    dsimp only [List.length_nil] at lineNumber first
    omega
  rcases List.append_eq_append_iff.mp whole with ⟨z, before, onward⟩ | ⟨z, before, onward⟩
  · rw [before, List.count_append, Nat.left_eq_add, List.count_eq_zero] at breaks
    exact mem_trimmed_of_onward isLine onward breaks rfl
  · obtain rfl : z = [] := by
      by_contra nonempty
      have newline := Position.getLast?_of_after (congrArg Position.column place) (by simp [before, nonempty])
      rw [before, List.getLast?_append_of_ne_nil _ nonempty] at newline
      have positive := List.count_pos_iff.mpr (List.mem_of_getLast? newline)
      rw [before, List.count_append] at breaks
      omega
    have atStart : l.onward = [] ++ ')' :: tail := onward.symm
    exact mem_trimmed_of_onward isLine atStart List.not_mem_nil rfl

end Line

namespace Container

/-- The container with a wrapped head as one more member. -/
def wrapping (b : Container) (head : Member) : Container :=
  { b with members := b.members.push head, inParameters := true }

/-- A wrapped head has a parenthesis. -/
theorem opens_of_wrapped {l : Line} {head : Member} (entry : declared? l = some (.wrapped head)) :
    '(' ∈ l.trimmed := by
  generalize found : some (Entry.wrapped head) = finding at entry
  cases entry ▸ declared?_finds l with
  | wrapped _ _ reads =>
    obtain ⟨gap, rest, whole, -⟩ := Shape.wrapped?_heads reads
    rw [whole]
    simp
  | signature | callable | field | nothing => cases found

/-- Two states of a container between which nothing has been declared in it. -/
def Undeclared (b c : Container) : Prop :=
  c = { b with depth := c.depth, mentionsConstructor := c.mentionsConstructor,
               inParameters := c.inParameters }

theorem Undeclared.refl (b : Container) : b.Undeclared b := rfl

theorem Undeclared.trans {a b c : Container} (first : a.Undeclared b) (second : b.Undeclared c) :
    a.Undeclared c := by
  rw [Undeclared] at first second ⊢
  rw [second, first]

theorem Undeclared.noting {b c : Container} (same : b.Undeclared c) (l : Line) :
    b.Undeclared (c.noting l) := by
  rw [Undeclared] at same ⊢
  rw [Container.noting, same]

end Container

namespace Reading

/-- Whether a line is read directly in the body of a container. -/
def Direct (r : Reading) (l : Line) : Prop :=
  l.IsCode r.inComment ∧ ∃ b, r.container = some b ∧ b.depth = 1

/-- A line is read as a wrapped head of the open container. -/
structure Wraps (r : Reading) (l : Line) (b : Container) (head : Member) : Prop where
  code : l.IsCode r.inComment
  inside : r.container = some b
  depth : b.depth = 1
  outside : b.inParameters = false
  entry : Container.declared? l = some (.wrapped head)
  stays : 0 < b.depth + braceBalance l.trimmed

/-- A wrapped head begins a parameter list. -/
theorem Wraps.step {r : Reading} {l : Line} {b : Container} {head : Member} (wraps : r.Wraps l b head) :
    ∃ c, (r.step l).1.container = some c ∧ (b.wrapping head).Undeclared c ∧ c.inParameters = true := by
  generalize next : r.step l = result
  cases next ▸ step_outcome r l with
  | blank empty => exact absurd empty wraps.code.1
  | comment is =>
    rw [wraps.code.2] at is
    cases is
  | nested _ free | declared _ free | opened _ free | whole _ free =>
    rw [wraps.inside] at free
    cases free
  | grown _ b' isOpen =>
    obtain rfl := Option.some.inj (wraps.inside.symm.trans isOpen)
    have grown : b.grown l = { (b.wrapping head).noting l with depth := b.depth + braceBalance l.trimmed } := by
      simp [Container.grown, Container.noting, Container.collect, Container.wrapping, wraps.depth,
        wraps.outside, wraps.entry]
    exact ⟨b.grown l, rfl, by rw [grown]; rfl, by rw [grown]; rfl⟩
  | closed _ b' isOpen closes =>
    obtain rfl := Option.some.inj (wraps.inside.symm.trans isOpen)
    exact absurd closes (Int.not_le.mpr wraps.stays)

/-- In a parameter list a line closes the container or declares nothing in it, and the list goes on
unless the line stands directly in the body and holds a closing parenthesis. -/
theorem step_inParameters {r : Reading} {b : Container} (isOpen : r.container = some b)
    (inside : b.inParameters = true) (l : Line) :
    (∃ c, (r.step l).1.container = some c ∧ (r.step l).2 = none ∧ b.Undeclared c ∧
      (c.inParameters = false ↔ r.Direct l ∧ ')' ∈ l.trimmed)) ∨
    (r.step l).1.container = none ∧ (r.step l).2 = some (b.noting l).close := by
  have noted : (r.note l).container = some (b.noting l) := by rw [note, isOpen]; rfl
  generalize next : r.step l = result
  cases next ▸ step_outcome r l with
  | blank empty =>
    refine .inl ⟨b.noting l, noted, rfl, (Container.Undeclared.refl b).noting l, ?_⟩
    exact iff_of_false (by simp [Container.noting, inside]) fun ends => ends.1.1.1 empty
  | comment is =>
    refine .inl ⟨b.noting l, noted, rfl, (Container.Undeclared.refl b).noting l, ?_⟩
    exact iff_of_false (by simp [Container.noting, inside]) fun ends => by simp [ends.1.1.2] at is
  | nested _ free | declared _ free | opened _ free | whole _ free =>
    rw [isOpen] at free
    cases free
  | grown code b' isOpen' =>
    obtain rfl := Option.some.inj (isOpen.symm.trans isOpen')
    have direct : r.Direct l ↔ b.depth = 1 := by
      constructor
      · rintro ⟨-, b', isOpen', depth⟩
        rwa [Option.some.inj (isOpen.symm.trans isOpen')]
      · intro depth
        exact ⟨code, b, isOpen, depth⟩
    refine .inl ⟨b.grown l, rfl, rfl, ?_⟩
    rw [direct]
    by_cases depth : b.depth = 1
    · simp [Container.grown, Container.noting, Container.collect, Container.Undeclared, depth, inside]
    · simp [Container.grown, Container.noting, Container.Undeclared, depth, inside]
  | closed _ b' isOpen' =>
    obtain rfl := Option.some.inj (isOpen.symm.trans isOpen')
    exact .inr ⟨rfl, rfl⟩

/-- A run of lines in a parameter list that does not end before the last of them. -/
theorem after_inParameters {lines : List Line} {r : Reading} {b : Container}
    (isOpen : r.container = some b) (inside : b.inParameters = true) (unfinished : r.symbols lines = [])
    (kept : ∀ earlier l later, lines = earlier ++ l :: later → (r.after earlier).Direct l →
      ')' ∉ l.trimmed) :
    ∃ c, (r.after lines).container = some c ∧ b.Undeclared c ∧ c.inParameters = true := by
  induction lines generalizing r b with
  | nil => exact ⟨b, isOpen, .refl b, inside⟩
  | cons l lines ih =>
    rw [symbols_cons] at unfinished
    obtain ⟨nothing, unfinished⟩ := List.append_eq_nil_iff.mp unfinished
    rcases step_inParameters isOpen inside l with ⟨c, stays, -, same, ends⟩ | ⟨-, closes⟩
    · have goesOn : c.inParameters = true := by
        rw [← Bool.not_eq_false, ends]
        rintro ⟨direct, closing⟩
        exact kept [] l lines rfl direct closing
      obtain ⟨c', reached, same', inside'⟩ := ih stays goesOn unfinished
        fun earlier l' later split => kept (l :: earlier) l' later (congrArg (l :: ·) split)
      exact ⟨c', reached, same.trans same', inside'⟩
    · rw [closes] at nothing
      cases nothing

end Reading

/-- The lines of a wrapped parameter list declare nothing in the container: if no line before the one
where the list ends stands directly in the body and holds a closing parenthesis, then every line up to
that one leaves the container with the members that it had on the line of the head, and if it closes
the container then with just these. Past that line, if it is read at all, lines declare members
again. -/
theorem parameters_declare_nothing {d : Document} {before later : List Line} {head : Line}
    (lines : d.lines = before ++ head :: later) {b : Container} {member : Member}
    (wraps : (Reading.start.after before).Wraps head b member) {stop : Nat}
    (balanced : head.parametersStop? = some stop)
    (kept : ∀ earlier l rest, later = earlier ++ l :: rest → l.number < stop →
      (Reading.start.after (before ++ head :: earlier)).Direct l → ')' ∉ l.trimmed)
    {between rest : List Line} {l : Line} (split : later = between ++ l :: rest) (within : l.number ≤ stop)
    (unfinished : (Reading.start.after (before ++ [head])).symbols between = []) :
    ∃ c, (Reading.start.after (before ++ head :: between)).container = some c ∧
      (b.wrapping member).Undeclared c ∧
      (∀ c', ((Reading.start.after (before ++ head :: between)).step l).1.container = some c' →
        (b.wrapping member).Undeclared c' ∧
        (l.number = stop → (Reading.start.after (before ++ head :: between)).Direct l →
          c'.inParameters = false)) ∧
      ∀ s, ((Reading.start.after (before ++ head :: between)).step l).2 = some s →
        s = (c.noting l).close := by
  have reaches (between : List Line) : Reading.start.after (before ++ head :: between) =
      ((Reading.start.after before).step head).1.after between := by
    rw [Reading.after_append, Reading.after_cons]
  obtain ⟨-, -, -, -, below⟩ := linesFrom_split (d.lines_eq_linesFrom ▸ lines)
  rw [split, eq_comm] at below
  have numbered : (between ++ l :: rest).Pairwise fun a b => a.number < b.number := by
    have ordered := linesFrom_ordered head.number head.onward
    rw [below] at ordered
    exact (List.pairwise_cons.mp ordered).2
  obtain ⟨opened, isOpen, first, inside⟩ := wraps.step
  have above (l' : Line) (member : l' ∈ between) : l'.number < stop :=
    Nat.lt_of_lt_of_le ((List.pairwise_append.mp numbered).2.2 l' member l List.mem_cons_self) within
  rw [Reading.after_append, Reading.after_cons] at unfinished
  obtain ⟨c, isOpen', same, inside'⟩ := Reading.after_inParameters isOpen inside unfinished
    fun earlier l' between' cut direct => by
      apply kept earlier l' (between' ++ l :: rest)
      · rw [split, cut, List.append_assoc, List.cons_append]
      · exact above l' (cut ▸ List.mem_append_right earlier List.mem_cons_self)
      · rw [reaches]
        exact direct
  rw [← reaches] at isOpen'
  refine ⟨c, isOpen', first.trans same, ?_⟩
  rcases Reading.step_inParameters isOpen' inside' l with ⟨c', stays, nothing, same', ends⟩ | ⟨ends, completes⟩
  · refine ⟨?_, fun s completes => ?_⟩
    · intro c'' stays'
      obtain rfl := Option.some.inj (stays.symm.trans stays')
      refine ⟨(first.trans same).trans same', fun here direct => ends.mpr ⟨direct, ?_⟩⟩
      exact Line.closing_of_parametersStop? below (Container.opens_of_wrapped wraps.entry) balanced here
    · rw [nothing] at completes
      cases completes
  · refine ⟨fun c'' stays => ?_, fun s completes' => ?_⟩
    · rw [ends] at stays
      cases stays
    · exact (Option.some.inj (completes.symm.trans completes')).symm

/-- The last line of a parameter list, with two lists to close, and what is below it. -/
def unitLine : Line :=
  lineOf 3 "        unit: string)): float \x7b".toList "\n    \x7d\n\x7d\n".toList

/-- The head of a parameter list with another one inside, and what is below it. -/
def areaLine : Line :=
  lineOf 1 "    area(".toList ("\n        f: fn(int,\n".toList ++ unitLine.onward)

/-- A class with a method whose parameters run over three lines. -/
def wrappedOnce : Document := ⟨"Circle : Shape \x7b\n".toList ++ areaLine.onward⟩

/-- The last line of the list leaves the class with the method alone, and the list ends there. -/
theorem parameters_of_wrappedOnce :
    areaLine.parametersStop? = some 3 ∧
      ∀ c, ((Reading.start.after (wrappedOnce.lines.take 3)).step unitLine).1.container = some c →
        c.members.toList.map (·.name) = ["area"] ∧ c.signatures = #[] ∧ c.inParameters = false := by
  have balanced : areaLine.parametersStop? = some 3 := by decide +kernel
  refine ⟨balanced, fun c stays => ?_⟩
  have lines : wrappedOnce.lines = wrappedOnce.lines.take 1 ++ areaLine :: wrappedOnce.lines.drop 2 := by
    decide +kernel
  have split : wrappedOnce.lines.drop 2 =
      (wrappedOnce.lines.drop 2).take 1 ++ unitLine :: wrappedOnce.lines.drop 4 := by
    decide +kernel
  have above : wrappedOnce.lines.take 3 =
      wrappedOnce.lines.take 1 ++ areaLine :: (wrappedOnce.lines.drop 2).take 1 := by
    decide +kernel
  have opened : (Reading.start.after (wrappedOnce.lines.take 1)).container.map
      (fun b => (b.depth, b.inParameters, b.members, b.signatures)) = some (1, false, #[], #[]) := by
    decide +kernel
  obtain ⟨b, inside, same⟩ := Option.map_eq_some_iff.mp opened
  obtain ⟨depth, outside, members, signatures⟩ : b.depth = 1 ∧ b.inParameters = false ∧
      b.members = #[] ∧ b.signatures = #[] := by simpa using same
  have entry : Container.declared? areaLine =
      some (.wrapped ⟨"area", areaLine.site 0 "area" areaLine.stop, .method ⟨"", none⟩⟩) := by
    have bodied : Shape.signature? areaLine.trimmed = none ∧ Shape.callable? areaLine.trimmed = none := by
      decide +kernel
    have reads : Shape.wrapped? areaLine.trimmed = some ("area", "") := by decide +kernel
    rw [Container.declared?, Shape.memberLine?, bodied.1, bodied.2, reads]
    rfl
  have wraps : (Reading.start.after (wrappedOnce.lines.take 1)).Wraps areaLine b
      ⟨"area", areaLine.site 0 "area" areaLine.stop, .method ⟨"", none⟩⟩ :=
    ⟨⟨by decide +kernel, by decide +kernel⟩, inside, depth, outside, entry,
      by rw [depth]; decide +kernel⟩
  have unclosed : ∀ l ∈ wrappedOnce.lines.drop 2, l.number < 3 → ')' ∉ l.trimmed := by decide +kernel
  obtain ⟨c', -, -, collects, -⟩ := parameters_declare_nothing lines wraps balanced
    (fun earlier l rest cut early _ => unclosed l (by rw [cut]; simp) early) split
    (by decide +kernel) (by decide +kernel)
  rw [← above] at collects
  obtain ⟨undeclared, ends⟩ := collects c stays
  have depth' : (Reading.start.after (wrappedOnce.lines.take 3)).container.map (·.depth) = some 1 := by
    decide +kernel
  obtain ⟨b', inside', direct⟩ := Option.map_eq_some_iff.mp depth'
  refine ⟨?_, ?_, ends rfl ⟨⟨by decide +kernel, by decide +kernel⟩, b', inside', direct⟩⟩
  · rw [undeclared]
    simp [Container.wrapping, members]
  · rw [undeclared]
    exact signatures

/-- A class with a method one of whose parameters takes a list on a line of its own. -/
def wrappedTwice : Document :=
  .ofString "Circle : Shape \x7b\n    area(\n        f: fn(int),\n        unit: string\n    ): float \x7b\n        return 1.0\n    \x7d\n\x7d\n"

/-- The list ends on the fifth line; the parameter on the fourth is a field of the class all the same. -/
theorem parameter_taken_for_field :
    (wrappedTwice.line? 1).bind Line.parametersStop? = some 4 ∧
      (Model.ofDocument wrappedTwice).symbols.map (fun s =>
          s.members.map fun m => (m.name, m.kind, m.site.line)) =
        [[("area", .method, 1), ("unit", .field, 3)]] := by
  decide +kernel

end SymbolIndex
