import SymbolIndex.Document

/-! A text is its lines, one after the other. `lineInduction` takes a text apart line by line, so
that what is said of a document can be proved along its lines; `linesFrom_split` says where a line
stands in the text, which ties a line's own columns to positions and byte offsets of the whole. -/
namespace SymbolIndex

namespace Position

theorem after_of_one_line {s : List Char} (oneLine : '\n' ∉ s) (line column : Nat) :
    (Position.mk line column).after s = ⟨line, column + s.length⟩ := by
  induction s generalizing column with
  | nil => rfl
  | cons c s ih =>
    obtain ⟨other, later⟩ := List.ne_and_not_mem_of_not_mem_cons oneLine
    have step : (Position.mk line column).next c = ⟨line, column + 1⟩ := by
      simp [next, Ne.symm other]
    rw [after, List.foldl_cons, ← after, step, ih later, List.length_cons]
    congr 1
    omega

/-- A newline takes a position to the beginning of the next line, wherever it was before. -/
theorem after_newline (p : Position) (s : List Char) :
    p.after ('\n' :: s) = (Position.mk (p.line + 1) 0).after s := rfl

/-- A text takes a position down by the number of its newlines. -/
theorem line_after (p : Position) (s : List Char) : (p.after s).line = p.line + s.count '\n' := by
  induction s generalizing p with
  | nil => rfl
  | cons c s ih =>
    rw [after, List.foldl_cons, ← after, ih, List.count_cons]
    by_cases newline : c = '\n'
    · simp only [next, newline, ↓reduceIte, beq_self_eq_true]
      omega
    · simp [next, newline]

/-- What ends at the beginning of a line ends with a newline. -/
theorem getLast?_of_after {p : Position} {s : List Char} (start : (p.after s).column = 0)
    (nonempty : s ≠ []) : s.getLast? = some '\n' := by
  obtain ⟨before, c, rfl⟩ : ∃ before c, s = before ++ [c] :=
    ⟨_, _, (List.dropLast_concat_getLast nonempty).symm⟩
  rw [after_append] at start
  by_cases newline : c = '\n'
  · rw [newline, List.getLast?_concat]
  · simp [after, next, newline] at start

/-- The same column, so many lines further down. -/
def down (lines : Nat) (p : Position) : Position := ⟨p.line + lines, p.column⟩

/-- Going over a text takes no notice of how many lines lie above it. -/
theorem down_after (lines : Nat) (p : Position) (s : List Char) :
    (p.down lines).after s = (p.after s).down lines := by
  induction s generalizing p with
  | nil => rfl
  | cons c s ih =>
    have step : (p.down lines).next c = (p.next c).down lines := by
      by_cases newline : c = '\n'
      · simp only [next, newline, ↓reduceIte, down, Position.mk.injEq, and_true]
        omega
      · simp [next, newline, down]
    rw [after, List.foldl_cons, ← after, step, ih]
    rfl

end Position

namespace Document

private theorem rawLines_onward (s : List Char) :
    ∃ content later, rawLines s = (content, s) :: later := by
  induction s with
  | nil => exact ⟨[], [], rfl⟩
  | cons c s ih =>
    obtain ⟨content, later, shape⟩ := ih
    rw [rawLines, List.foldr_cons, ← rawLines, shape]
    by_cases newline : c = '\n'
    · exact ⟨[], (content, s) :: later, by simp [newline]⟩
    · exact ⟨c :: content, later, by simp [newline]⟩

theorem rawLines_newline (s : List Char) :
    rawLines ('\n' :: s) = ([], '\n' :: s) :: rawLines s := by
  obtain ⟨content, later, shape⟩ := rawLines_onward s
  rw [rawLines, List.foldr_cons, ← rawLines, shape]
  rfl

private theorem rawLines_cons {c : Char} (other : c ≠ '\n') {s content onward : List Char}
    {later : List (List Char × List Char)} (shape : rawLines s = (content, onward) :: later) :
    rawLines (c :: s) = (c :: content, c :: onward) :: later := by
  rw [rawLines, List.foldr_cons, ← rawLines, shape]
  simp [other]

theorem rawLines_of_one_line {raw : List Char} (oneLine : '\n' ∉ raw) :
    rawLines raw = [(raw, raw)] := by
  induction raw with
  | nil => rfl
  | cons c raw ih =>
    obtain ⟨other, later⟩ := List.ne_and_not_mem_of_not_mem_cons oneLine
    exact rawLines_cons (Ne.symm other) (ih later)

theorem rawLines_line_append {raw : List Char} (oneLine : '\n' ∉ raw) (s : List Char) :
    rawLines (raw ++ '\n' :: s) = (raw, raw ++ '\n' :: s) :: rawLines s := by
  induction raw with
  | nil => exact rawLines_newline s
  | cons c raw ih =>
    obtain ⟨other, later⟩ := List.ne_and_not_mem_of_not_mem_cons oneLine
    exact rawLines_cons (Ne.symm other) (ih later)

/-- Every text is a last line, or a line and its newline before another text. -/
@[elab_as_elim]
theorem lineInduction {motive : List Char → Prop}
    (last : ∀ raw, '\n' ∉ raw → motive raw)
    (line : ∀ raw s, '\n' ∉ raw → motive s → motive (raw ++ '\n' :: s))
    (s : List Char) : motive s := by
  by_cases newline : '\n' ∈ s
  · obtain ⟨raw, rest, rfl, oneLine⟩ := List.eq_append_cons_of_mem newline
    exact line raw rest oneLine (lineInduction last line rest)
  · exact last s newline
termination_by s.length
decreasing_by
  subst_vars
  simp only [List.length_append, List.length_cons]
  omega

/-- The lines of a text, counted from the given number on. -/
def linesFrom (number : Nat) (s : List Char) : List Line :=
  ((rawLines s).zipIdx number).map fun ((content, onward), number) =>
    { number, content := chomp content, onward }

theorem lines_eq_linesFrom (d : Document) : d.lines = linesFrom 0 d.chars := rfl

/-- The line that a text without a newline makes up, before the rest of a document. -/
def lineOf (number : Nat) (raw rest : List Char) : Line :=
  { number, content := chomp raw, onward := raw ++ rest }

theorem linesFrom_of_one_line {raw : List Char} (oneLine : '\n' ∉ raw) (number : Nat) :
    linesFrom number raw = [lineOf number raw []] := by
  simp [linesFrom, lineOf, rawLines_of_one_line oneLine]

theorem linesFrom_line_append {raw : List Char} (oneLine : '\n' ∉ raw) (number : Nat)
    (s : List Char) :
    linesFrom number (raw ++ '\n' :: s) =
      lineOf number raw ('\n' :: s) :: linesFrom (number + 1) s := by
  simp [linesFrom, lineOf, rawLines_line_append oneLine]

/-- The lines below a line do not depend on it. -/
theorem linesFrom_below {rest : List Char} (ends : rest = [] ∨ ∃ later, rest = '\n' :: later) (number : Nat) :
    ∃ below, ∀ raw, '\n' ∉ raw → linesFrom number (raw ++ rest) = lineOf number raw rest :: below := by
  obtain rfl | ⟨later, rfl⟩ := ends
  · refine ⟨[], fun raw oneLine => ?_⟩
    rw [List.append_nil, linesFrom_of_one_line oneLine]
  · exact ⟨linesFrom (number + 1) later, fun raw oneLine => linesFrom_line_append oneLine number later⟩

theorem length_linesFrom (number : Nat) (s : List Char) :
    (linesFrom number s).length = s.count '\n' + 1 := by
  induction s using lineInduction generalizing number with
  | last raw oneLine =>
    rw [linesFrom_of_one_line oneLine, List.count_eq_zero_of_not_mem oneLine]
    rfl
  | line raw s oneLine ih =>
    rw [linesFrom_line_append oneLine, List.length_cons, ih, List.count_append,
      List.count_eq_zero_of_not_mem oneLine, List.count_cons_self, Nat.zero_add]

/-- A document has one line more than it has line breaks. -/
theorem length_lines (d : Document) : d.lines.length = d.chars.count '\n' + 1 := by
  rw [lines_eq_linesFrom, length_linesFrom]

/-- Where a line stands: the text before it ends at its beginning, and it and the lines after it are
the lines of the text from there on. -/
theorem linesFrom_split {number : Nat} {s : List Char} {before after : List Line} {l : Line}
    (split : linesFrom number s = before ++ l :: after) :
    ∃ prior, s = prior ++ l.onward ∧ (Position.mk number 0).after prior = ⟨l.number, 0⟩ ∧
      l.number = number + before.length ∧ l :: after = linesFrom l.number l.onward := by
  induction s using lineInduction generalizing number before with
  | last raw oneLine =>
    have whole := split
    rw [linesFrom_of_one_line oneLine] at whole
    cases before with
    | nil =>
      obtain ⟨rfl, rfl⟩ := List.cons.inj whole
      exact ⟨[], by simp [lineOf], rfl, rfl, by simp [lineOf, linesFrom_of_one_line oneLine]⟩
    | cons first before => simp at whole
  | line raw s oneLine ih =>
    have whole := split
    rw [linesFrom_line_append oneLine] at whole
    cases before with
    | nil =>
      obtain ⟨rfl, rfl⟩ := List.cons.inj whole
      exact ⟨[], rfl, rfl, rfl, (linesFrom_line_append oneLine number s).symm⟩
    | cons first before =>
      obtain ⟨-, rest⟩ := List.cons.inj whole
      obtain ⟨prior, text, place, count, lines⟩ := ih rest
      refine ⟨raw ++ '\n' :: prior, by simp [text], ?_, ?_, lines⟩
      · rw [Position.after_append, Position.after_newline, Position.after_of_one_line oneLine]
        exact place
      · rw [count, List.length_cons]
        omega

theorem onward_of_first {number : Nat} {s : List Char} {l : Line} {after : List Line}
    (split : linesFrom number s = l :: after) : l.onward = s := by
  induction s using lineInduction with
  | last raw oneLine =>
    rw [linesFrom_of_one_line oneLine] at split
    obtain ⟨rfl, -⟩ := List.cons.inj split
    exact List.append_nil raw
  | line raw s oneLine =>
    rw [linesFrom_line_append oneLine] at split
    obtain ⟨rfl, -⟩ := List.cons.inj split
    rfl

/-- Between the beginnings of two lines in a row stand the first of them and its newline. -/
theorem onward_of_next {number : Nat} {s : List Char} {l l' : Line} {after : List Line}
    (split : linesFrom number s = l' :: l :: after) :
    ∃ raw, s = raw ++ '\n' :: l.onward ∧ l' = lineOf number raw ('\n' :: l.onward) := by
  induction s using lineInduction with
  | last raw oneLine =>
    rw [linesFrom_of_one_line oneLine] at split
    cases split
  | line raw s oneLine =>
    rw [linesFrom_line_append oneLine] at split
    obtain ⟨rfl, rest⟩ := List.cons.inj split
    obtain rfl := onward_of_first rest
    exact ⟨raw, rfl, rfl⟩

/-- Every line is what it is cut from: characters without a newline, and then the end of the text
or a newline. -/
theorem lineOf_of_mem {number : Nat} {s : List Char} {l : Line} (member : l ∈ linesFrom number s) :
    ∃ raw rest, '\n' ∉ raw ∧ (rest = [] ∨ ∃ later, rest = '\n' :: later) ∧
      l = lineOf l.number raw rest := by
  induction s using lineInduction generalizing number with
  | last raw oneLine =>
    rw [linesFrom_of_one_line oneLine, List.mem_singleton] at member
    subst member
    exact ⟨raw, [], oneLine, .inl rfl, rfl⟩
  | line raw s oneLine ih =>
    rw [linesFrom_line_append oneLine, List.mem_cons] at member
    cases member with
    | inl same =>
      subst same
      exact ⟨raw, '\n' :: s, oneLine, .inr ⟨s, rfl⟩, rfl⟩
    | inr later => exact ih later

theorem number_le_of_mem {number : Nat} {s : List Char} {l : Line}
    (member : l ∈ linesFrom number s) : number ≤ l.number := by
  obtain ⟨before, after, split⟩ := List.append_of_mem member
  obtain ⟨_, _, _, count, _⟩ := linesFrom_split split
  omega

/-- Lines are numbered one after the other. -/
theorem numbers_linesFrom (number : Nat) (s : List Char) :
    (linesFrom number s).map Line.number = List.range' number (linesFrom number s).length := by
  rw [linesFrom, List.map_map, List.length_map, List.length_zipIdx]
  exact List.zipIdx_map_snd number (rawLines s)

/-- Lines come in the order of their numbers. -/
theorem linesFrom_ordered (number : Nat) (s : List Char) :
    (linesFrom number s).Pairwise fun a b => a.number < b.number := by
  have ascends := List.pairwise_lt_range' (s := number) (n := (linesFrom number s).length)
  rw [← numbers_linesFrom] at ascends
  exact List.pairwise_map.mp ascends

/-- A line stands under its own number. -/
theorem line?_of_mem {d : Document} {l : Line} (member : l ∈ d.lines) :
    d.line? l.number = some l := by
  obtain ⟨before, after, split⟩ := List.append_of_mem member
  obtain ⟨_, _, _, count, _⟩ := linesFrom_split (d.lines_eq_linesFrom ▸ split)
  rw [line?, split, count, Nat.zero_add, List.getElem?_append_right (Nat.le_refl _), Nat.sub_self]
  rfl

/-- The line of a number is a line of the document and has that number. -/
theorem mem_of_line? {d : Document} {number : Nat} {l : Line} (found : d.line? number = some l) :
    l ∈ d.lines ∧ l.number = number := by
  obtain ⟨inside, rfl⟩ := List.getElem?_eq_some_iff.mp found
  have split := List.take_append_drop number d.lines
  rw [← List.getElem_cons_drop inside] at split
  obtain ⟨_, _, _, count, _⟩ := linesFrom_split split.symm
  refine ⟨List.getElem_mem inside, ?_⟩
  rw [count, List.length_take_of_le (Nat.le_of_lt inside), Nat.zero_add]

/-- The document that is written on these lines. -/
def ofLines (lines : List (List Char)) : Document := ⟨['\n'].intercalate lines⟩

/-- Lines that are written one below the other are read back, less their carriage returns. -/
theorem content_ofLines {lines : List (List Char)} (written : lines ≠ [])
    (oneLine : ∀ line ∈ lines, '\n' ∉ line) :
    (ofLines lines).lines.map Line.content = lines.map chomp := by
  have numbered (number : Nat) : (linesFrom number (['\n'].intercalate lines)).map Line.content =
      lines.map chomp := by
    induction lines generalizing number with
    | nil => exact absurd rfl written
    | cons line later ih =>
      obtain ⟨one, others⟩ := List.forall_mem_cons.mp oneLine
      cases later with
      | nil =>
        have text : ['\n'].intercalate [line] = line := by simp
        rw [text, linesFrom_of_one_line one]
        rfl
      | cons next later =>
        have text : ['\n'].intercalate (line :: next :: later) =
            line ++ '\n' :: ['\n'].intercalate (next :: later) := by simp
        rw [text, linesFrom_line_append one, List.map_cons, ih (by simp) others]
        rfl
  exact numbered 0

end Document

end SymbolIndex
