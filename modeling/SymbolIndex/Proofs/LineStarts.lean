import SymbolIndex.Bytewise.LineIndex
import SymbolIndex.Proofs.ByteScan
import SymbolIndex.Proofs.Declarations

/-! Lines and positions by byte offsets are those of the document. The offsets that an index keeps are the
lengths of the text before each line, so a line is cut where characters meet, and the last start that is
not past an offset is that of the line it is on. The first line starts at zero, so a search that finds no
start of a line has passed one. -/
namespace SymbolIndex.Bytewise

open Text

theorem cut_byteLength (a b : List Char) : cut (byteLength a) (a ++ b) = .ok (a, b) := by
  induction a with
  | nil => cases b <;> rfl
  | cons c a ih =>
    obtain ⟨n, size, fits, less⟩ := exists_byteLength_cons c a
    rw [size, List.cons_append, cut, if_pos fits, less, ih]
    rfl

/-- A text is cut nowhere but where its characters meet. -/
theorem cut_eq_ok_iff {offset : Nat} {s before behind : List Char} :
    cut offset s = .ok (before, behind) ↔ s = before ++ behind ∧ offset = byteLength before := by
  constructor
  · intro cuts
    induction s generalizing offset before with
    | nil =>
      cases offset with
      | zero =>
        obtain ⟨rfl, rfl⟩ := Prod.mk.inj (Except.ok.inj cuts)
        exact ⟨rfl, rfl⟩
      | succ n => cases cuts
    | cons c s ih =>
      cases offset with
      | zero =>
        obtain ⟨rfl, rfl⟩ := Prod.mk.inj (Except.ok.inj cuts)
        exact ⟨rfl, rfl⟩
      | succ n =>
        rw [cut] at cuts
        split at cuts
        · rename_i fits
          cases later : cut (n + 1 - c.utf8Size) s with
          | error breach =>
            rw [later] at cuts
            cases cuts
          | ok parts =>
            rw [later] at cuts
            obtain ⟨rfl, rfl⟩ := Prod.mk.inj (Except.ok.inj cuts)
            obtain ⟨text, place⟩ := ih later
            refine ⟨congrArg (c :: ·) text, ?_⟩
            rw [byteLength_cons, ← place]
            omega
        · cases cuts
  · rintro ⟨rfl, rfl⟩
    exact cut_byteLength before behind

/-- A byte offset of a text at which characters meet, or its beginning or its end. -/
def Meets (s : List Char) (offset : Nat) : Prop := ∃ a b, s = a ++ b ∧ offset = byteLength a

/-- What is sliced ends where characters meet. -/
theorem meets_of_slice {s part : List Char} {first last : Nat} (slices : slice s first last = .ok part) :
    Meets s last := by
  obtain ⟨⟨upTo, behind⟩, cuts, -⟩ := exists_of_bind_eq_ok slices
  exact ⟨upTo, behind, cut_eq_ok_iff.mp cuts⟩

theorem slice_append (a s b : List Char) :
    slice (a ++ s ++ b) (byteLength a) (byteLength (a ++ s)) = .ok s := by
  simp only [slice, cut_byteLength, ok_bind, pure_eq_ok]

theorem sliceFrom_append (a b : List Char) : sliceFrom (a ++ b) (byteLength a) = .ok b := by
  rw [sliceFrom, cut_byteLength]
  rfl

namespace LineIndex

/-- The starts of lines come in order, so a search of them is well defined. -/
theorem newlineEnds_ordered (offset : Nat) (s : List Char) :
    (offset :: newlineEnds offset s).Pairwise (· < ·) := by
  induction s generalizing offset with
  | nil => exact List.pairwise_singleton _ _
  | cons c s ih =>
    obtain ⟨later, ordered⟩ := List.pairwise_cons.mp (ih (offset + c.utf8Size))
    have positive := c.utf8Size_pos
    rw [newlineEnds]
    split
    · rename_i newline
      obtain ⟨later, ordered⟩ := List.pairwise_cons.mp (ih (offset + 1))
      refine List.pairwise_cons.mpr ⟨List.forall_mem_cons.mpr ⟨by omega, fun k member => ?_⟩, ih _⟩
      have := later k member
      omega
    · refine List.pairwise_cons.mpr ⟨fun k member => ?_, ordered⟩
      have := later k member
      omega

theorem starts_ordered (text : List Char) : (ofText text).starts.Pairwise (· < ·) :=
  newlineEnds_ordered 0 text

/-- A search that finds no line that starts at the offset has passed the first line. -/
theorem one_le_of_search {text : List Char} {offset place : Nat}
    (misses : (ofText text).search offset = .error place) : 1 ≤ place := by
  simp only [search] at misses
  split at misses
  · cases misses
  · rename_i notThere
    obtain rfl := Except.error.inj misses
    cases offset with
    | zero => exact absurd rfl notThere
    | succ n => exact Nat.le_add_left 1 _

/-- The line that starts last before an offset is found, whether it starts there or not. -/
theorem lineAt_eq {index : LineIndex} {before after : List Nat} {start offset : Nat}
    (shape : index.starts = before ++ start :: after) (ordered : ∀ k ∈ before, k < start)
    (reached : start ≤ offset) (notYet : ∀ k ∈ after.head?, offset < k) :
    index.lineAt offset = .ok before.length := by
  have passed : ∀ k ∈ before, decide (k < offset) = true := fun k member =>
    decide_eq_true (Nat.lt_of_lt_of_le (ordered k member) reached)
  rw [lineAt, search, shape, List.takeWhile_append_of_pos passed]
  rcases Nat.eq_or_lt_of_le reached with rfl | further
  · have stops : (start :: after).takeWhile (fun k => decide (k < start)) = [] := by simp
    rw [stops, List.append_nil, if_pos (by simp)]
  · have stops : (start :: after).takeWhile (fun k => decide (k < offset)) = [start] := by
      cases after with
      | nil => simp [further]
      | cons next after =>
        have beyond := notYet next rfl
        simp [further, Nat.not_lt_of_lt beyond]
    have absent : (before ++ start :: after)[(before ++ [start]).length]? ≠ some offset := by
      intro there
      rw [List.append_cons, List.getElem?_append_right (Nat.le_refl _), Nat.sub_self,
        ← List.head?_eq_getElem?] at there
      exact absurd (notYet offset there) (Nat.lt_irrefl offset)
    rw [stops, if_neg absent, List.length_append, List.length_singleton]
    exact if_pos (Nat.le_add_left _ _)

theorem newlineEnds_of_one_line {raw : List Char} (oneLine : '\n' ∉ raw) (offset : Nat) :
    newlineEnds offset raw = [] := by
  induction raw generalizing offset with
  | nil => rfl
  | cons c raw ih =>
    obtain ⟨other, later⟩ := List.ne_and_not_mem_of_not_mem_cons oneLine
    rw [newlineEnds, if_neg (Ne.symm other), ih later]

theorem newlineEnds_line_append {raw : List Char} (oneLine : '\n' ∉ raw) (offset : Nat)
    (s : List Char) :
    newlineEnds offset (raw ++ '\n' :: s) =
      (offset + byteLength raw + 1) :: newlineEnds (offset + byteLength raw + 1) s := by
  induction raw generalizing offset with
  | nil => rfl
  | cons c raw ih =>
    obtain ⟨other, later⟩ := List.ne_and_not_mem_of_not_mem_cons oneLine
    rw [List.cons_append, newlineEnds, if_neg (Ne.symm other), ih later, byteLength_cons,
      Nat.add_assoc offset]

/-- The starts of the lines of a text tell how much of it stands above each. -/
theorem newlineEnds_eq (offset number : Nat) (s : List Char) :
    offset :: newlineEnds offset s =
      (Document.linesFrom number s).map fun l =>
        offset + (byteLength s - byteLength l.onward) := by
  induction s using Document.lineInduction generalizing offset number with
  | last raw oneLine =>
    rw [newlineEnds_of_one_line oneLine, Document.linesFrom_of_one_line oneLine]
    simp [Document.lineOf]
  | line raw s oneLine ih =>
    rw [newlineEnds_line_append oneLine, Document.linesFrom_line_append oneLine, List.map_cons,
      ih _ (number + 1)]
    refine congrArg₂ List.cons ?_ (List.map_congr_left fun l member => ?_)
    · rw [Document.lineOf, Nat.sub_self, Nat.add_zero]
    · obtain ⟨before, after, split⟩ := List.append_of_mem member
      obtain ⟨prior, text, -⟩ := Document.linesFrom_split split
      have newline : '\n'.utf8Size = 1 := rfl
      rw [text]
      simp only [byteLength_append, byteLength_cons, newline]
      omega

theorem onward_of_head? {number : Nat} {s : List Char} {l : Line}
    (first : l ∈ (Document.linesFrom number s).head?) : l.onward = s := by
  cases shape : Document.linesFrom number s with
  | nil =>
    rw [shape] at first
    cases first
  | cons l' after =>
    rw [shape] at first
    obtain rfl := Option.some.inj first
    exact Document.onward_of_first shape

/-- Every place of a text is on a line: the text before it ends with the beginning of that line, and
the next line starts further on. -/
theorem exists_line_at (number : Nat) (a b : List Char) :
    ∃ before l after prior u, Document.linesFrom number (a ++ b) = before ++ l :: after ∧
      a = prior ++ u ∧ l.onward = u ++ b ∧ '\n' ∉ u ∧
      ∀ l' ∈ after.head?, byteLength l'.onward < byteLength b := by
  induction a using Document.lineInduction generalizing number with
  | last raw oneLine =>
    by_cases newline : '\n' ∈ b
    · obtain ⟨rest, s, rfl, later⟩ := List.eq_append_cons_of_mem newline
      have single : '\n' ∉ raw ++ rest := by simp [oneLine, later]
      have lines := Document.linesFrom_line_append single number s
      rw [List.append_assoc] at lines
      refine ⟨[], _, _, [], raw, lines, rfl, List.append_assoc .., oneLine, fun l' next => ?_⟩
      have newlineSize : '\n'.utf8Size = 1 := rfl
      rw [onward_of_head? next, byteLength_append, byteLength_cons]
      omega
    · have single : '\n' ∉ raw ++ b := by simp [oneLine, newline]
      exact ⟨[], _, [], [], raw, Document.linesFrom_of_one_line single number, rfl,
        List.append_nil _, oneLine, nofun⟩
  | line raw s oneLine ih =>
    obtain ⟨before, l, after, prior, u, lines, rfl, onward, single, next⟩ := ih (number + 1)
    refine ⟨Document.lineOf number raw ('\n' :: (prior ++ u ++ b)) :: before, l, after,
      raw ++ '\n' :: prior, u, ?_, ?_, onward, single, next⟩
    · rw [List.append_assoc raw, List.cons_append, Document.linesFrom_line_append oneLine, lines]
      rfl
    · rw [List.append_assoc, List.cons_append]

/-- A line ends with the text, or at the newline before the line that comes next. -/
theorem line_ends {number : Nat} {s : List Char} {before after : List Line} {l : Line}
    (lines : Document.linesFrom number s = before ++ l :: after) :
    ∃ raw rest, l.content = Document.chomp raw ∧ l.onward = raw ++ rest ∧
      (after = [] ∧ rest = [] ∨ ∃ l' later, after = l' :: later ∧ rest = '\n' :: l'.onward) := by
  obtain ⟨-, -, -, -, onward⟩ := Document.linesFrom_split lines
  by_cases newline : '\n' ∈ l.onward
  · obtain ⟨raw, s, split, oneLine⟩ := List.eq_append_cons_of_mem newline
    rw [split, Document.linesFrom_line_append oneLine] at onward
    obtain ⟨own, rest⟩ := List.cons.inj onward
    refine ⟨raw, '\n' :: s, congrArg Line.content own, split, .inr ?_⟩
    cases after with
    | nil => exact absurd rest.symm (by simp [Document.linesFrom, Document.rawLines_ne_nil])
    | cons l' later => exact ⟨l', later, rfl, by rw [Document.onward_of_first rest.symm]⟩
  · rw [Document.linesFrom_of_one_line newline] at onward
    obtain ⟨own, rest⟩ := List.cons.inj onward
    exact ⟨l.onward, [], congrArg Line.content own, (List.append_nil _).symm, .inl ⟨rest, rfl⟩⟩

section Agreement

variable (d : Document)

/-- A number that is not past the last line has a line. -/
theorem exists_line? {d : Document} {number : Nat} (inside : ¬ d.lines.length ≤ number) :
    ∃ l, d.line? number = some l ∧ d.lineText number = l.content := by
  obtain ⟨l, found⟩ : ∃ l, d.line? number = some l :=
    ⟨_, List.getElem?_eq_getElem (Nat.lt_of_not_le inside)⟩
  refine ⟨l, found, ?_⟩
  rw [Document.lineText, found]
  rfl

theorem line?_of_le {d : Document} {number : Nat} (past : d.lines.length ≤ number) :
    d.line? number = none := List.getElem?_eq_none past

theorem starts_eq :
    (ofText d.chars).starts = d.lines.map fun l => byteLength (d.above l) := by
  refine (newlineEnds_eq 0 0 d.chars).trans (List.map_congr_left fun l member => ?_)
  have whole := congrArg byteLength (Document.above_append member)
  rw [byteLength_append] at whole
  omega

/-- The index has the lines of the document. -/
theorem lineCount_eq : (ofText d.chars).lineCount = d.lines.length := by
  rw [lineCount, starts_eq, List.length_map]

theorem lineStart_eq (number : Nat) : (ofText d.chars).lineStart number = d.lineStart number := by
  rw [lineStart, starts_eq, List.getElem?_map, Document.lineStart, Document.line?]
  cases found : d.lines[number]? with
  | none => rfl
  | some l =>
    have whole := congrArg byteLength (Document.above_append (List.mem_of_getElem? found))
    rw [byteLength_append] at whole
    show byteLength (d.above l) = byteLength d.chars - byteLength l.onward
    omega

theorem starts_of_lines {before after : List Line} {l : Line} {d : Document}
    (lines : d.lines = before ++ l :: after) :
    (ofText d.chars).starts =
      before.map (fun l => byteLength (d.above l)) ++
        byteLength (d.above l) :: after.map fun l => byteLength (d.above l) := by
  rw [starts_eq, lines, List.map_append, List.map_cons]

/-- A line stops where the newline behind it stands, or where the text ends. -/
theorem lineStop_of_lines {before after : List Line} {l : Line} {raw rest : List Char} {d : Document}
    (lines : d.lines = before ++ l :: after) (onward : l.onward = raw ++ rest)
    (ends : after = [] ∧ rest = [] ∨ ∃ l' later, after = l' :: later ∧ rest = '\n' :: l'.onward) :
    (ofText d.chars).lineStop before.length = .ok (byteLength (d.above l ++ raw)) := by
  have above := Document.above_append (d := d) (l := l) (by simp [lines])
  rw [lineStop]
  rcases ends with ⟨rfl, rfl⟩ | ⟨l', later, rfl, rfl⟩
  · have last : (ofText d.chars).starts[before.length + 1]? = none := by
      simp [starts_of_lines lines]
    have text : (ofText d.chars).text = d.chars := rfl
    rw [last, text, above, onward, List.append_nil]
  · have aboveNext : d.above l' = d.above l ++ raw ++ ['\n'] :=
      Document.above_of_append (by rw [above, onward]; simp)
    have next : (ofText d.chars).starts[before.length + 1]? = some (byteLength (d.above l')) := by
      simp [starts_of_lines lines]
    rw [next, aboveNext, byteLength_append _ ['\n']]
    exact if_pos (Nat.le_add_left _ _)

/-- A slice from the start of a line to before the next is the line. -/
theorem line_eq (number : Nat) : (ofText d.chars).line number = .ok (d.lineText number) := by
  rw [line, lineCount_eq, Document.lineText, Document.line?]
  split
  · rename_i past
    rw [List.getElem?_eq_none past]
    rfl
  · rename_i inside
    have split := List.take_append_drop number d.lines
    rw [← List.getElem_cons_drop (Nat.lt_of_not_le inside)] at split
    obtain ⟨before, l, after, lines, rfl⟩ : ∃ before l after, d.lines = before ++ l :: after ∧
        before.length = number :=
      ⟨_, _, _, split.symm, List.length_take_of_le (Nat.le_of_not_le inside)⟩
    obtain ⟨raw, rest, content, onward, ends⟩ := line_ends (d.lines_eq_linesFrom ▸ lines)
    have own : d.lines[before.length]? = some l := by simp [lines]
    have cuts : slice d.chars (byteLength (d.above l)) (byteLength (d.above l ++ raw)) = .ok raw := by
      rw [Document.above_append (d := d) (l := l) (by simp [lines]), onward, ← List.append_assoc,
        slice_append]
    have start : itemAt (ofText d.chars).starts before.length = .ok (byteLength (d.above l)) := by
      simp [itemAt, starts_of_lines lines]
    have text : (ofText d.chars).text = d.chars := rfl
    rw [start, ok_bind, lineStop_of_lines lines onward ends, ok_bind, text, cuts, own, Option.map_some,
      Option.getD_some, content]
    rfl

/-- An offset on a line, before the next one starts, is found to be on that line. -/
theorem lineAt_of_lines {before after : List Line} {l : Line} {u b : List Char} {d : Document}
    (lines : d.lines = before ++ l :: after) (onward : l.onward = u ++ b)
    (next : ∀ l' ∈ after.head?, byteLength l'.onward < byteLength b) :
    (ofText d.chars).lineAt (byteLength (d.above l ++ u)) = .ok before.length := by
  have starts := starts_of_lines lines
  have whole := Document.above_append (d := d) (l := l) (by simp [lines])
  have count : before.length = (before.map fun l => byteLength (d.above l)).length := by
    rw [List.length_map]
  rw [count]
  refine lineAt_eq starts ?_ ?_ ?_
  · have ordered := starts ▸ starts_ordered d.chars
    exact fun k member => (List.pairwise_append.mp ordered).2.2 k member _ List.mem_cons_self
  · rw [byteLength_append]
    exact Nat.le_add_right _ _
  · rw [List.head?_map]
    intro k isNext
    obtain ⟨l', first, rfl⟩ := Option.map_eq_some_iff.mp isNext
    have member : l' ∈ d.lines := by
      rw [lines]
      exact List.mem_append_right _ (List.mem_cons_of_mem _ (List.mem_of_mem_head? first))
    have shorter := next l' first
    have sizes := congrArg byteLength (whole.symm.trans (Document.above_append member))
    rw [onward, ← List.append_assoc, byteLength_append (d.above l ++ u),
      byteLength_append (d.above l')] at sizes
    omega

/-- The position of every offset where characters meet is found. -/
theorem position_eq {a b : List Char} (text : d.chars = a ++ b) :
    (ofText d.chars).position (byteLength a) = .ok (Position.origin.after a) := by
  obtain ⟨before, l, after, prior, u, lines, rfl, onward, oneLine, next⟩ := exists_line_at 0 a b
  rw [← text, ← d.lines_eq_linesFrom] at lines
  have above : d.above l = prior :=
    Document.above_of_append (by rw [text, onward, List.append_assoc])
  have found := lineAt_of_lines lines onward next
  rw [above] at found
  have start : itemAt (ofText d.chars).starts before.length = .ok (byteLength prior) := by
    rw [itemAt, starts_of_lines lines, above]
    simp
  have inside : min (byteLength (prior ++ u)) (byteLength d.chars) = byteLength (prior ++ u) := by
    rw [text, byteLength_append (prior ++ u)]
    omega
  have cuts : slice d.chars (byteLength prior) (byteLength (prior ++ u)) = .ok u := by
    rw [text, slice_append]
  have place : Position.origin.after prior = ⟨before.length, 0⟩ := by
    obtain ⟨-, -, -, number, -⟩ := Document.linesFrom_split (d.lines_eq_linesFrom ▸ lines)
    rw [← above, Document.after_above (by simp [lines]), number, Nat.zero_add]
  have text : (ofText d.chars).text = d.chars := rfl
  rw [position, Position.after_append, place, Position.after_of_one_line oneLine, Nat.zero_add]
  simp only [text, inside, found, ok_bind, start, cuts, pure_eq_ok]

/-- An offset has a position just if characters meet there or it is past the end. -/
theorem exists_position_iff {offset : Nat} :
    (∃ p, (ofText d.chars).position offset = .ok p) ↔
      Meets d.chars (min offset (byteLength d.chars)) := by
  constructor
  · rintro ⟨p, found⟩
    obtain ⟨line, -, found⟩ := exists_of_bind_eq_ok found
    obtain ⟨start, -, found⟩ := exists_of_bind_eq_ok found
    obtain ⟨part, slices, -⟩ := exists_of_bind_eq_ok found
    exact meets_of_slice slices
  · rintro ⟨a, b, text, place⟩
    have found := position_eq d text
    have clamped : (ofText d.chars).position offset = (ofText d.chars).position (byteLength a) := by
      have whole : (ofText d.chars).text = d.chars := rfl
      rw [position, position, whole, ← place, Nat.min_assoc, Nat.min_self]
    exact ⟨_, clamped.trans found⟩

theorem stop_eq : (ofText d.chars).stop = .ok d.stop :=
  position_eq d (List.append_nil d.chars).symm

theorem lineSpan_eq (number : Nat) : (ofText d.chars).lineSpan number = .ok (d.lineSpan number) := by
  rw [lineSpan, line_eq]
  rfl

theorem columnOf_eq {number : Nat} {a b : List Char} (line : d.lineText number = a ++ b) :
    (ofText d.chars).columnOf number (byteLength a) = .ok a.length := by
  have inside : min (byteLength a) (byteLength (a ++ b)) = byteLength a := by
    rw [byteLength_append]
    omega
  have cuts : slice (a ++ b) 0 (byteLength a) = .ok a := slice_append [] a b
  rw [columnOf, line_eq, ok_bind, line, inside, cuts]
  rfl

/-- An offset in a line has a column just if characters meet there or it is past the end. -/
theorem exists_columnOf_iff {number byte : Nat} :
    (∃ column, (ofText d.chars).columnOf number byte = .ok column) ↔
      Meets (d.lineText number) (min byte (byteLength (d.lineText number))) := by
  rw [columnOf, line_eq, ok_bind]
  constructor
  · rintro ⟨column, found⟩
    obtain ⟨part, slices, -⟩ := exists_of_bind_eq_ok found
    exact meets_of_slice slices
  · rintro ⟨a, b, line, place⟩
    have slices : slice (a ++ b) 0 (byteLength a) = .ok a := slice_append [] a b
    rw [place, line, slices]
    exact ⟨a.length, rfl⟩

theorem offset_eq (p : Position) : (ofText d.chars).offset p = .ok (d.offset? p) := by
  rw [offset, lineCount_eq, Document.offset?]
  split
  · rename_i past
    rw [line?_of_le past]
    rfl
  · rename_i inside
    obtain ⟨l, found, line⟩ := exists_line? inside
    have place : d.lines[p.line]? = some l := found
    have start : itemAt (ofText d.chars).starts p.line = .ok (d.lineStart p.line) := by
      rw [itemAt, ← lineStart_eq, lineStart, starts_eq, List.getElem?_map, place]
      rfl
    rw [start, ok_bind, line_eq, ok_bind, line, found]
    rfl

end Agreement

end LineIndex

end SymbolIndex.Bytewise
