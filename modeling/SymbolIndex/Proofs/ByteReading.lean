import SymbolIndex.Bytewise.Extraction
import SymbolIndex.Proofs.LineStarts
import SymbolIndex.Proofs.Sites

/-! A line is read by byte offsets as it is by columns. Where a declaration stands is a sum of offsets: of
the line, of its indent and of the name or brace within the trimmed text. Every step may fail where an
offset goes wrong, and none does: each sum is the length of the text before the place, so each slice ends
where characters meet. -/
namespace SymbolIndex.Bytewise

open Text

/-- What is found is the first occurrence, and what follows it is what is cut off behind it. -/
theorem find?_cases (part s : List Char) :
    find? part s = none ∧ afterFirst? part s = none ∨
      ∃ before rest, s = before ++ part ++ rest ∧ find? part s = some (byteLength before) ∧
        afterFirst? part s = some rest := by
  induction s with
  | nil =>
    rw [find?, startsWith, afterFirst?]
    cases opens : afterPrefix? part [] with
    | none => exact .inl ⟨rfl, rfl⟩
    | some rest => exact .inr ⟨[], rest, afterPrefix?_eq_some_iff.mp opens, rfl, rfl⟩
  | cons c s ih =>
    rw [find?, startsWith, afterFirst?]
    cases opens : afterPrefix? part (c :: s) with
    | none =>
      rcases ih with ⟨nowhere, absent⟩ | ⟨before, rest, rfl, place, found⟩
      · exact .inl ⟨by rw [nowhere]; rfl, absent⟩
      · exact .inr ⟨c :: before, rest, rfl, by rw [place]; rfl, found⟩
    | some rest => exact .inr ⟨[], rest, afterPrefix?_eq_some_iff.mp opens, rfl, rfl⟩

/-- Comments are read with no slice out of place. -/
theorem readComment_eq (isOpen : Bool) (line : List Char) :
    readComment isOpen line = .ok (Comment.read isOpen line) := by
  unfold readComment Comment.read
  cases isOpen with
  | true =>
    rw [if_pos rfl, if_pos rfl]
    rcases find?_cases Comment.closeMark line with ⟨none, absent⟩ | ⟨before, rest, text, place, found⟩
    · rw [none, absent]
    · have cuts : sliceFrom line (byteLength before + 2) = .ok rest := by
        rw [text, ← sliceFrom_append (before ++ Comment.closeMark) rest, byteLength_append]
        rfl
      simp only [place, found, cuts, ok_bind, pure_eq_ok]
  | false =>
    rw [if_neg Bool.false_ne_true, if_neg Bool.false_ne_true, startsWith]
    cases opens : afterPrefix? Comment.openMark line with
    | none => rfl
    | some rest =>
      have text := afterPrefix?_eq_some_iff.mp opens
      have cuts : sliceFrom line 2 = .ok rest := by
        rw [text]
        exact sliceFrom_append Comment.openMark rest
      rw [Option.isSome_some, if_pos rfl, cuts]
      rfl

/-- What a text loses at its beginning is the width of its indent. -/
theorem indent_eq (s : List Char) :
    minus (byteLength s) (byteLength (trimStart s)) = .ok (byteLength (Text.indent s)) := by
  have size := congrArg byteLength (indent_append_trimStart s)
  rw [byteLength_append] at size
  rw [minus, if_pos (by omega), ← size, Nat.add_sub_cancel]

section OnLine

variable {d : Document} {l : Line}

/-- The line of a document, as declarations on it are placed. -/
def Place.ofLine (d : Document) (l : Line) : Place :=
  ⟨LineIndex.ofText d.chars, l.number, byteLength (Text.indent l.content)⟩

/-- The offset of a column counts the indent of its line. -/
theorem byteOffset_content {column : Nat} (inside : column ≤ l.trimmed.length) :
    byteOffset l.content (l.indent + column) =
      byteLength (Text.indent l.content) + byteOffset l.trimmed column := by
  obtain ⟨blanks, whole, -⟩ := exists_trim_append l.content
  have content : l.content = Text.indent l.content ++ (l.trimmed ++ blanks) :=
    whole.trans (List.append_assoc ..)
  calc byteOffset l.content (l.indent + column)
      = byteLength ((Text.indent l.content ++ (l.trimmed ++ blanks)).take
          ((Text.indent l.content).length + column)) := by rw [← content]; rfl
    _ = _ := by
      rw [List.take_length_add_append, byteLength_append, List.take_append_of_le_length inside]
      rfl

/-- The brace of a head is the last byte that the head takes. -/
theorem headBrace_eq {head : Shape.Head} (heads : Shape.containerHead? l.trimmed = some head) :
    minus (byteOffset l.trimmed (head.braceAt + 1)) 1 = .ok (byteOffset l.trimmed head.braceAt) := by
  obtain ⟨before, rest, trimmed, width, -⟩ := Shape.containerHead?_brace heads
  have through : l.trimmed.take (head.braceAt + 1) = l.trimmed.take head.braceAt ++ ['\x7b'] := by
    rw [trimmed, ← width, List.take_length_add_append, List.take_left]
    rfl
  rw [byteOffset, through, byteLength_append]
  exact if_pos (Nat.le_add_left _ _)

variable (member : l ∈ d.lines)
include member

/-- A column of the trimmed line, from its offset. -/
theorem column_eq {column : Nat} (inside : column ≤ l.trimmed.length) :
    (Place.ofLine d l).column (byteOffset l.trimmed column) = .ok (l.indent + column) := by
  have line := Document.lineText_of_mem member
  rw [← List.take_append_drop (l.indent + column) l.content] at line
  have found := LineIndex.columnOf_eq d line
  rw [← byteOffset, byteOffset_content inside, List.length_take_of_le] at found
  · exact found
  · obtain ⟨blanks, whole, -⟩ := exists_trim_append l.content
    have size := congrArg List.length whole
    rw [List.length_append, List.length_append] at size
    have : l.trimmed.length = (trim l.content).length := rfl
    rw [Line.indent]
    omega

theorem lineStop_eq : (Place.ofLine d l).lineStop = .ok l.stop := by
  rw [Place.lineStop, Place.ofLine, LineIndex.lineSpan_eq, Document.lineSpan_of_mem member]
  rfl

/-- A declaration is placed where it stands. -/
theorem site_eq {nameAt : Nat} (inside : nameAt ≤ l.trimmed.length) (name : String) (stop : Position) :
    (Place.ofLine d l).site (byteOffset l.trimmed nameAt) name stop = .ok (l.site nameAt name stop) := by
  have start := column_eq member (Nat.zero_le l.trimmed.length)
  have header : (Place.ofLine d l).index.lineSpan (Place.ofLine d l).number = .ok l.span := by
    rw [Place.ofLine, LineIndex.lineSpan_eq, Document.lineSpan_of_mem member]
  rw [Place.site, show (0 : Nat) = byteOffset l.trimmed 0 from rfl, start, column_eq member inside,
    ok_bind, ok_bind, header]
  rfl

theorem site_zero_eq (name : String) (stop : Position) :
    (Place.ofLine d l).site 0 name stop = .ok (l.site 0 name stop) :=
  site_eq member (Nat.zero_le _) name stop

theorem leaf_eq (kind : Kind) {nameAt : Nat} (inside : nameAt ≤ l.trimmed.length) (name : String)
    (stop : Position) :
    (Place.ofLine d l).leaf kind name (byteOffset l.trimmed nameAt) stop =
      .ok (.leaf kind name (l.site nameAt name stop)) := by
  rw [Place.leaf, site_eq member inside, ok_bind, pure_eq_ok]

theorem leaf_zero_eq (kind : Kind) (name : String) (stop : Position) :
    (Place.ofLine d l).leaf kind name 0 stop = .ok (.leaf kind name (l.site 0 name stop)) :=
  leaf_eq member kind (Nat.zero_le _) name stop

/-- A block stops behind the byte of its closing brace, or with the text. -/
theorem blockStop_eq {kind : Kind} {braceAt : Nat} (body : l.bodyBrace? kind = some braceAt) :
    (Place.ofLine d l).blockStop (byteOffset l.trimmed braceAt) = .ok (l.blockStop braceAt) := by
  obtain ⟨before, behind, upTo, -⟩ := Document.upTo_brace member body
  obtain ⟨lead, rest, trimmed, rfl⟩ := Line.brace_of_bodyBrace? body
  have inside : lead.length ≤ l.trimmed.length := by simp [trimmed]
  have openAt : (Place.ofLine d l).offset (byteOffset l.trimmed lead.length) = byteLength before := by
    have offset := upTo.offset
    rw [Document.offset?, Document.line?_of_mem member, Option.map_some,
      byteOffset_content inside] at offset
    rw [← Option.some.inj offset, Place.offset, ← Nat.add_assoc]
    exact congrArg (· + _ + _) (LineIndex.lineStart_eq d l.number)
  have scans : matchingClose (bytes d.chars) (byteLength before) =
      .ok (matchingClose? d.chars (byteLength before)) := by
    rw [upTo.text, matchingClose_bytes]
  have stops := (Document.stopsAt_blockStop member body).1
  rw [Place.blockStop, openAt]
  have text : (Place.ofLine d l).index.text = d.chars := rfl
  rw [text, scans, ok_bind]
  generalize l.blockStop lead.length = p at stops
  cases stops with
  | lineEnd bodiless =>
    rw [bodiless] at body
    cases body
  | brace body' opens closes _ isBrace past =>
    obtain rfl := Option.some.inj (body.symm.trans body')
    obtain rfl := Option.some.inj (upTo.offset.symm.trans opens)
    obtain ⟨u, v, text, rfl⟩ := isBrace
    have size : byteLength u + 1 = byteLength (u ++ ['\x7d']) := by
      rw [byteLength_append]
      rfl
    rw [List.append_cons] at text
    rw [size, Document.position?_of_append text] at past
    rw [closes, ← Option.some.inj past, ← LineIndex.position_eq d text, ← size]
    rfl
  | documentEnd body' opens unclosed =>
    obtain rfl := Option.some.inj (body.symm.trans body')
    obtain rfl := Option.some.inj (upTo.offset.symm.trans opens)
    rw [unclosed]
    exact LineIndex.stop_eq d

theorem bodyStop_eq {c : Shape.Callable} (reads : Shape.callable? l.trimmed = some c) :
    (Place.ofLine d l).bodyStop l.trimmed c.body = .ok (Container.bodyStop l c.body) := by
  cases shape : c.body with
  | expression => exact lineStop_eq member
  | block braceAt =>
    have body : l.bodyBrace? .function = some braceAt := by
      rw [Line.bodyBrace?_callable rfl, reads, Option.map_some, shape]
    exact blockStop_eq member body

/-- A callable is written down with its parameters and its result. -/
theorem callable_eq (kind : Kind) {c : Shape.Callable} (reads : Shape.callable? l.trimmed = some c) :
    (Place.ofLine d l).callable l.trimmed kind c =
      .ok { Record.leaf kind c.name (l.site 0 c.name (Container.bodyStop l c.body)) with
        parameters := c.signature.parameters, type := c.signature.result } := by
  rw [Place.callable, bodyStop_eq member reads, ok_bind, leaf_zero_eq member, ok_bind, pure_eq_ok]

/-- The block that a head opens stops where that of the container does. -/
theorem headStop_eq {head : Shape.Head} (heads : Shape.containerHead? l.trimmed = some head) :
    (Place.ofLine d l).blockStop (byteOffset l.trimmed head.braceAt) =
      .ok (l.blockStop head.braceAt) := by
  have body : l.bodyBrace? .classType = some head.braceAt := by
    rw [Line.bodyBrace?_container rfl, heads, Option.map_some]
  exact blockStop_eq member body

/-- A line at the top level is written down as what it declares. -/
theorem topLevel_eq : (Place.ofLine d l).topLevel l.trimmed =
    .ok ((Reading.topLevel? l).map Symbol.record) := by
  rw [Place.topLevel, Reading.topLevel?]
  cases rule : Shape.topLine? l.trimmed with
  | none => rfl
  | some read =>
    rcases Shape.topLine?_some rule with ⟨c, reads, -, rfl⟩ | ⟨-, c, reads, rfl⟩
    · simp only [callable_eq member _ reads, ok_bind, pure_eq_ok]
      rfl
    · obtain ⟨lead, rest, trimmed, width, -⟩ := Shape.constant?_nameAt reads
      have inside : c.nameAt ≤ l.trimmed.length := by
        rw [trimmed, ← width, List.append_assoc, List.length_append]
        exact Nat.le_add_right _ _
      simp only [lineStop_eq member, leaf_eq member _ inside, ok_bind, pure_eq_ok]
      rfl

end OnLine

end SymbolIndex.Bytewise
