import SymbolIndex.Proofs.Declarations

/-! Documents one below the other. A document whose reading ends at the top level, and whose blocks are
all closed in it, hands nothing on to what is written below it, so the symbols of both are those of
the first and then those of the second, moved down. -/
namespace SymbolIndex

open Document

/-- The same stretch, so many lines further down. -/
def Span.down (lines : Nat) (span : Span) : Span := ⟨span.start.down lines, span.stop.down lines⟩

/-- The same place, so many lines further down. -/
def Site.down (lines : Nat) (site : Site) : Site :=
  ⟨site.span.down lines, site.selection.down lines, site.header.down lines⟩

namespace Line

/-- The same line, so many lines further down. -/
def down (lines : Nat) (l : Line) : Line := { l with number := l.number + lines }

/-- The same line of a document that goes on. -/
def extend (more : List Char) (l : Line) : Line := { l with onward := l.onward ++ more }

theorem site_down (lines : Nat) (l : Line) (nameAt : Nat) (name : String) (stop : Position) :
    (l.down lines).site nameAt name (stop.down lines) = (l.site nameAt name stop).down lines := rfl

theorem blockStop_down (lines : Nat) (l : Line) (braceAt : Nat) :
    (l.down lines).blockStop braceAt = (l.blockStop braceAt).down lines :=
  Position.down_after lines ⟨l.number, l.indent + braceAt⟩ (l.block braceAt)

/-- A line that is moved down declares the same, moved down. -/
theorem down_matches (lines : Nat) (l : Line) :
    l.Matches (fun _ site site' => True → site' = site.down lines) (l.down lines) where
  trimmed := rfl
  mentions := rfl
  alone _ nameAt name _ := site_down lines l nameAt name l.stop
  container _ head _ _ _ := by rw [blockStop_down, site_down]
  callable _ c braceAt _ _ _ _ := by rw [blockStop_down, site_down]

end Line

namespace Document

/-- Whether a scan of the document finds the brace that closes the body of a declaration of the
kind, on the line with the number. A declaration without a block has nothing to close. -/
def BlockCloses (d : Document) (kind : Kind) (number : Nat) : Prop :=
  ∀ l ∈ d.line? number, ∀ braceAt ∈ l.bodyBrace? kind,
    ∃ openAt ∈ d.offset? ⟨number, l.indent + braceAt⟩, (matchingClose? d.chars openAt).isSome

instance (d : Document) (kind : Kind) (number : Nat) : Decidable (d.BlockCloses kind number) :=
  inferInstanceAs (Decidable (∀ l ∈ d.line? number, ∀ braceAt ∈ l.bodyBrace? kind,
    ∃ openAt ∈ d.offset? ⟨number, l.indent + braceAt⟩, (matchingClose? d.chars openAt).isSome))

/-- A block that closes in a document is the same when the document goes on. -/
theorem blockStop_extend {d : Document} {l : Line} (member : l ∈ d.lines) {kind : Kind}
    {braceAt : Nat} (closes : d.BlockCloses kind l.number) (body : l.bodyBrace? kind = some braceAt)
    (more : List Char) : (l.extend more).blockStop braceAt = l.blockStop braceAt := by
  obtain ⟨openAt, place, found⟩ := closes l (line?_of_mem member) braceAt body
  obtain ⟨before, behind, upTo, onward⟩ := upTo_brace member body
  obtain rfl : openAt = Text.byteLength before :=
    Option.some.inj (Option.mem_def.mp place |>.symm.trans upTo.offset)
  rw [upTo.text, matchingClose?_brace, Option.isSome_map] at found
  obtain ⟨index, closing⟩ := Option.isSome_iff_exists.mp found
  obtain ⟨closing', taken⟩ := closingBrace?_append closing more
  have onward' : (l.extend more).onward.drop ((l.extend more).indent + braceAt) =
      '\x7b' :: behind ++ more := by
    have reaches : l.indent + braceAt ≤ l.onward.length := by
      by_contra beyond
      rw [List.drop_eq_nil_of_le (by omega)] at onward
      cases onward
    show (l.onward ++ more).drop (l.indent + braceAt) = _
    rw [List.drop_append_of_le_length reaches, onward]
  have block := Line.block_of_closing onward closing
  have block' := (Line.block_of_closing onward' closing').trans taken
  exact congrArg (Position.mk l.number _ |>.after ·) (block'.trans block.symm)

/-- A line of a document declares the same when the document goes on, as far as its blocks are
closed. -/
theorem extend_matches {d : Document} {l : Line} (member : l ∈ d.lines) (more : List Char) :
    l.Matches (fun kind site site' => d.BlockCloses kind site.line → site' = id site)
      (l.extend more) := by
  apply Line.matches_of_bodies
  · rfl
  · rfl
  · exact fun _ _ _ _ => rfl
  · intro kind braceAt name body closes
    exact congrArg (l.site 0 name) (blockStop_extend member closes body more)

theorem linesFrom_add (number lines : Nat) (s : List Char) :
    linesFrom (number + lines) s = (linesFrom number s).map (Line.down lines) := by
  induction s using lineInduction generalizing number with
  | last raw oneLine =>
    rw [linesFrom_of_one_line oneLine, linesFrom_of_one_line oneLine]
    rfl
  | line raw s oneLine ih =>
    rw [linesFrom_line_append oneLine, linesFrom_line_append oneLine, List.map_cons, ← ih,
      Nat.add_right_comm]
    rfl

/-- The lines of two texts, one below the other, are those of the first and those of the second. -/
theorem linesFrom_append (number : Nat) (a b : List Char) :
    linesFrom number (a ++ '\n' :: b) =
      (linesFrom number a).map (Line.extend ('\n' :: b)) ++
        linesFrom (number + (a.count '\n' + 1)) b := by
  induction a using lineInduction generalizing number with
  | last raw oneLine =>
    rw [linesFrom_line_append oneLine, linesFrom_of_one_line oneLine,
      List.count_eq_zero_of_not_mem oneLine, Nat.zero_add]
    simp [lineOf, Line.extend]
  | line raw s oneLine ih =>
    have lines : number + ((raw ++ '\n' :: s).count '\n' + 1) = number + 1 + (s.count '\n' + 1) := by
      rw [List.count_append, List.count_eq_zero_of_not_mem oneLine, List.count_cons_self]
      omega
    rw [List.append_assoc, List.cons_append, linesFrom_line_append oneLine, ih,
      linesFrom_line_append oneLine, lines]
    simp [lineOf, Line.extend]

/-- The lines above the beginning of a line do not depend on what is below it, but for what they go
on with. -/
theorem linesFrom_above {number n : Nat} {prior : List Char}
    (place : (Position.mk number 0).after prior = ⟨n, 0⟩) :
    ∃ contents, ∀ s, ∃ above, linesFrom number (prior ++ s) = above ++ linesFrom n s ∧
      above.map Line.content = contents := by
  have count := Position.line_after ⟨number, 0⟩ prior
  rw [place] at count
  obtain rfl | ⟨prior, c, rfl⟩ := List.eq_nil_or_concat' prior
  · obtain rfl : n = number := count
    exact ⟨[], fun s => ⟨[], rfl, rfl⟩⟩
  · have last := Position.getLast?_of_after (p := ⟨number, 0⟩) (congrArg Position.column place) (by simp)
    obtain rfl : c = '\n' := by simpa using last
    have below : n = number + (prior.count '\n' + 1) := by simpa using count
    refine ⟨(linesFrom number prior).map Line.content, fun s => ?_⟩
    refine ⟨(linesFrom number prior).map (Line.extend ('\n' :: s)), ?_, ?_⟩
    · rw [List.append_assoc, List.singleton_append, linesFrom_append, below]
    · rw [List.map_map]
      rfl

end Document

theorem Reading.eq_start {r : Reading} (free : r.container = none) (top : r.depth = 0)
    (outside : r.inComment = false) : r = .start := by
  obtain ⟨inComment, container, depth⟩ := r
  obtain rfl : container = none := free
  obtain rfl : depth = 0 := top
  obtain rfl : inComment = false := outside
  rfl

/-- Two documents, one below the other: if the reading of the first ends at the top level and all
its blocks are closed, the symbols are those of the first and then those of the second, further
down by the lines of the first. -/
theorem symbols_of_concatenation (a b : List Char)
    (free : (Reading.start.after (Document.mk a).lines).container = none)
    (top : (Reading.start.after (Document.mk a).lines).depth = 0)
    (outside : (Reading.start.after (Document.mk a).lines).inComment = false)
    (closes : ∀ s ∈ (Model.ofDocument ⟨a⟩).symbols,
      Document.BlockCloses ⟨a⟩ s.kind s.site.line ∧
        ∀ m ∈ s.members, Document.BlockCloses ⟨a⟩ m.kind m.site.line) :
    (Model.ofDocument ⟨a ++ '\n' :: b⟩).symbols =
      (Model.ofDocument ⟨a⟩).symbols ++
        (Model.ofDocument ⟨b⟩).symbols.map (Symbol.mapSites (Site.down (a.count '\n' + 1))) := by
  have lines : (Document.mk (a ++ '\n' :: b)).lines =
      (Document.mk a).lines.map (Line.extend ('\n' :: b)) ++
        (Document.mk b).lines.map (Line.down (a.count '\n' + 1)) := by
    rw [lines_eq_linesFrom, linesFrom_append, linesFrom_add]
    rfl
  have above : List.Forall₂ (Line.Matches fun kind site site' =>
      Document.BlockCloses ⟨a⟩ kind site.line → site' = id site) (Document.mk a).lines
      ((Document.mk a).lines.map (Line.extend ('\n' :: b))) := by
    rw [List.forall₂_map_right_iff, List.forall₂_same]
    exact fun l member => extend_matches member _
  have below : List.Forall₂ (Line.Matches fun _ site site' =>
      True → site' = site.down (a.count '\n' + 1)) (Document.mk b).lines
      ((Document.mk b).lines.map (Line.down (a.count '\n' + 1))) := by
    rw [List.forall₂_map_right_iff, List.forall₂_same]
    exact fun l _ => l.down_matches _
  obtain ⟨reached, first⟩ :=
    Reading.symbols_match (r := .start) (Reading.Matches.refl_of_free rfl) above
  obtain ⟨-, second⟩ :=
    Reading.symbols_match (r := .start) (Reading.Matches.refl_of_free rfl) below
  have anew : Reading.start.after ((Document.mk a).lines.map (Line.extend ('\n' :: b))) = .start := by
    rw [reached.eq_of_free free]
    exact Reading.eq_start free top outside
  show Reading.start.symbols (Document.mk (a ++ '\n' :: b)).lines = _
  rw [lines, Reading.symbols_append, anew, eq_map_mapSites_of_matches first closes,
    eq_map_mapSites_of_matches second fun _ _ => ⟨trivial, fun _ _ => trivial⟩]
  have still : Symbol.mapSites id = id := funext Symbol.mapSites_id
  rw [still, List.map_id]
  rfl

/-- A class with a method that has a body, and blanks below it. -/
def upper : List Char := "Box \x7b\n  open() \x7b\n    \x7b \x7d\n  \x7d\n\x7d\n  ".toList

/-- A constant and an interface. -/
def lower : List Char := "const WIDTH = 2\nShape \x7b\n  area(): Number\n\x7d".toList

/-- The constant on the first line of `lower` comes down to the seventh. -/
theorem concatenation_of_upper_and_lower :
    (Model.ofDocument ⟨upper ++ '\n' :: lower⟩).symbols =
      (Model.ofDocument ⟨upper⟩).symbols ++
        (Model.ofDocument ⟨lower⟩).symbols.map (Symbol.mapSites (Site.down 6)) ∧
    (Model.ofDocument ⟨upper ++ '\n' :: lower⟩).symbols.map (fun s => (s.name, s.site.line)) =
      [("Box", 0), ("WIDTH", 6), ("Shape", 7)] :=
  ⟨symbols_of_concatenation upper lower (by decide +kernel) (by decide +kernel)
    (by decide +kernel) (by decide +kernel), by decide +kernel⟩

end SymbolIndex
