import SymbolIndex.Proofs.Reading

/-! Declarations come in source order. A container is listed only when it closes, below all of its members,
and what it has read until then waits in lists of its own. But each list grows by what the line at hand
declares, and the line that closes a container declares nothing besides; so whichever list the container
closes with, its head and its members stand above everything that is listed later. -/
namespace SymbolIndex

/-- The lines that a symbol and its members start on, in the order in which they are listed. -/
def Symbol.startLines (s : Symbol) : List Nat := s.site.line :: s.members.map (·.site.line)

/-- The lines that the declarations of a model start on, every symbol before its members. -/
def Model.startLines (m : Model) : List Nat := m.symbols.flatMap Symbol.startLines

/-- Line numbers ascend, and all stay below a limit. -/
def Ascending (numbers : List Nat) (limit : Nat) : Prop := (numbers ++ [limit]).Pairwise (· < ·)

section Ascending

variable {numbers : List Nat} {limit later : Nat}

theorem ascending_iff :
    Ascending numbers limit ↔ numbers.Pairwise (· < ·) ∧ ∀ n ∈ numbers, n < limit := by
  simp [Ascending, List.pairwise_append]

/-- What ascends below one line ascends below every later one. -/
theorem Ascending.mono (ascends : Ascending numbers limit) (below : limit < later) :
    Ascending numbers later := by
  obtain ⟨ordered, bounded⟩ := ascending_iff.mp ascends
  apply ascending_iff.mpr
  refine ⟨ordered, ?_⟩
  intro n member
  exact Nat.lt_trans (bounded n member) below

/-- The limit itself can come next. -/
theorem Ascending.push (ascends : Ascending numbers limit) (below : limit < later) :
    Ascending (numbers ++ [limit]) later := by
  apply ascending_iff.mpr
  refine ⟨ascends, ?_⟩
  intro n member
  rcases List.mem_append.mp member with before | last
  · exact (ascends.mono below |> ascending_iff.mp).2 n before
  · exact List.mem_singleton.mp last ▸ below

theorem ascending_singleton (below : limit < later) : Ascending [limit] later := by
  simpa [Ascending] using below

end Ascending

namespace Container

/-- Whatever the container turns out to be, its members start below its head, in the order in which they
were read, and above a line. -/
structure Ascends (b : Container) (limit : Nat) : Prop where
  signatures : Ascending (b.site.line :: b.signatures.toList.map (·.site.line)) limit
  members : Ascending (b.site.line :: b.members.toList.map (·.site.line)) limit

variable {b : Container} {l : Line} {limit : Nat}

theorem Ascends.mono (ascends : b.Ascends limit) {later : Nat} (below : limit < later) :
    b.Ascends later :=
  ⟨ascends.signatures.mono below, ascends.members.mono below⟩

theorem Ascends.noting (ascends : b.Ascends limit) (l : Line) : (b.noting l).Ascends limit :=
  ⟨ascends.signatures, ascends.members⟩

theorem ascends_ofHead (head : Shape.Head) (below : l.number < limit) :
    (ofHead l head).Ascends limit :=
  ⟨ascending_singleton below, ascending_singleton below⟩

/-- A line adds at most itself, to one of the lists. -/
theorem Ascends.collect (ascends : b.Ascends l.number) (below : l.number < limit) :
    (b.collect l).Ascends limit := by
  have stays := ascends.mono below
  have line {entry : Entry} (declares : declared? l = some entry) : entry.member.site.line = l.number :=
    (declared?_declares declares).hosts.line_eq
  have pushed {members : Array Member} {entry : Entry} (declares : declared? l = some entry)
      (before : Ascending (b.site.line :: members.toList.map (·.site.line)) l.number) :
      Ascending (b.site.line :: (members.push entry.member).toList.map (·.site.line)) limit := by
    rw [Array.toList_push, List.map_append, List.map_singleton, line declares, ← List.cons_append]
    exact before.push below
  unfold Container.collect
  split
  · exact ⟨stays.signatures, stays.members⟩
  · split
    · next declares => exact ⟨pushed declares ascends.signatures, stays.members⟩
    · next declares => exact ⟨stays.signatures, pushed declares ascends.members⟩
    · next declares => exact ⟨stays.signatures, pushed declares ascends.members⟩
    · exact stays

theorem Ascends.grown (ascends : b.Ascends l.number) (below : l.number < limit) :
    (b.grown l).Ascends limit := by
  have noted := ascends.noting l
  unfold Container.grown
  dsimp only
  split
  · have collected := noted.collect below
    exact ⟨collected.signatures, collected.members⟩
  · have stays := noted.mono below
    exact ⟨stays.signatures, stays.members⟩

theorem Ascends.close (ascends : b.Ascends limit) : Ascending b.close.startLines limit := by
  unfold Symbol.startLines Container.close Symbol.members
  cases b.isInterface with
  | true => exact ascends.signatures
  | false => exact ascends.members

end Container

namespace Reading

/-- If all that the open container has read stands above a line, then behind the line all that is open,
and all that the line completes, stands above every later one. -/
theorem step_ascends {r : Reading} {l : Line} {limit : Nat}
    (inside : ∀ b, r.container = some b → b.Ascends l.number) (below : l.number < limit) :
    (∀ b, (r.step l).1.container = some b → b.Ascends limit) ∧
      ∀ s, (r.step l).2 = some s → Ascending s.startLines limit := by
  have noted (b : Container) (isOpen : (r.note l).container = some b) : b.Ascends limit := by
    obtain ⟨b', before, rfl⟩ := Option.map_eq_some_iff.mp isOpen
    exact ((inside b' before).noting l).mono below
  have alone (free : r.container = none) (b : Container) (isOpen : r.container = some b) :
      b.Ascends limit := nomatch free.symm.trans isOpen
  generalize next : r.step l = result
  cases next ▸ step_outcome r l with
  | blank | comment => exact ⟨noted, nofun⟩
  | nested _ free => exact ⟨alone free, nofun⟩
  | declared _ free =>
    refine ⟨alone free, ?_⟩
    intro s declares
    rcases topLevel?_some declares with ⟨c, -, -, rfl⟩ | ⟨-, c, -, rfl⟩
    · exact ascending_singleton below
    · exact ascending_singleton below
  | opened _ _ _ head =>
    refine ⟨?_, nofun⟩
    rintro _ ⟨⟩
    exact Container.ascends_ofHead head below
  | whole _ free _ head =>
    refine ⟨alone free, ?_⟩
    rintro _ ⟨⟩
    exact (Container.ascends_ofHead head below).close
  | grown _ b isOpen =>
    refine ⟨?_, nofun⟩
    rintro _ ⟨⟩
    exact (inside b isOpen).grown below
  | closed _ b isOpen =>
    refine ⟨nofun, ?_⟩
    rintro _ ⟨⟩
    exact (((inside b isOpen).noting l).mono below).close

/-- All that the open container has read, if one is open, stands above each of some lines. -/
def Above (r : Reading) (lines : List Line) : Prop :=
  ∀ b, r.container = some b → ∀ l ∈ lines, b.Ascends l.number

theorem start_above (lines : List Line) : start.Above lines := nofun

theorem Above.here {r : Reading} {l : Line} {later : List Line} (above : r.Above (l :: later)) :
    ∀ b, r.container = some b → b.Ascends l.number := by
  intro b isOpen
  exact above b isOpen l List.mem_cons_self

/-- The line at hand may go to the open container, and stands above the later ones itself. -/
theorem Above.step {r : Reading} {l : Line} {later : List Line} (above : r.Above (l :: later))
    (first : ∀ l' ∈ later, l.number < l'.number) : (r.step l).1.Above later := by
  intro b isOpen l' member
  exact (step_ascends above.here (first l' member)).1 b isOpen

/-- While no container is open, declarations start only on lines that are still to be read. -/
theorem exists_line_of_free {lines : List Line} {r : Reading} (free : r.container = none) {n : Nat}
    (listed : n ∈ (r.symbols lines).flatMap Symbol.startLines) : ∃ l ∈ lines, l.number = n := by
  have placed : ∀ s ∈ r.symbols lines, s.Throughout fun _ _ site => ∃ l ∈ lines, l.number = site.line := by
    apply symbols_throughout
    · intro b isOpen
      cases free.symm.trans isOpen
    · intro before l after split _ kind name site declares
      refine ⟨l, ?_, declares.hosts.line_eq.symm⟩
      rw [split]
      exact List.mem_append_right before List.mem_cons_self
  obtain ⟨s, member, starts⟩ := List.mem_flatMap.mp listed
  rcases List.mem_cons.mp starts with rfl | inside
  · exact (placed s member).1
  · obtain ⟨m, isMember, rfl⟩ := List.mem_map.mp inside
    exact (placed s member).2 m isMember

/-- The symbols that some lines complete, with their members, start on one line after another. -/
theorem symbols_ascend {lines : List Line} {r : Reading}
    (ordered : lines.Pairwise fun a b => a.number < b.number)
    (above : r.Above lines) : ((r.symbols lines).flatMap Symbol.startLines).Pairwise (· < ·) := by
  induction lines generalizing r with
  | nil => exact .nil
  | cons l later ih =>
    obtain ⟨first, rest⟩ := List.pairwise_cons.mp ordered
    rw [symbols_cons, List.flatMap_append]
    apply List.pairwise_append.mpr
    refine ⟨?_, ih rest (above.step first), ?_⟩
    · cases completes : (r.step l).2 with
      | none => exact .nil
      | some s =>
        have ascends := (step_ascends above.here (Nat.lt_succ_self _)).2 s completes
        simpa using (ascending_iff.mp ascends).1
    · intro n listed n' later'
      obtain ⟨s, completes, starts⟩ := List.mem_flatMap.mp listed
      rw [Option.mem_toList] at completes
      obtain ⟨l', member, rfl⟩ := exists_line_of_free (step_symbol completes).1 later'
      have ascends := (step_ascends above.here (first l' member)).2 s completes
      exact (ascending_iff.mp ascends).2 n starts

end Reading

theorem Model.startLines_ascend (d : Document) : (Model.ofDocument d).startLines.Pairwise (· < ·) := by
  apply Reading.symbols_ascend
  · exact Document.linesFrom_ordered 0 d.chars
  · exact Reading.start_above d.lines

/-- The symbols of a document have their heads on one line after another. -/
theorem Model.heads_ascend (d : Document) :
    (Model.ofDocument d).symbols.Pairwise fun s t => s.site.line < t.site.line := by
  apply (List.pairwise_flatMap.mp (Model.startLines_ascend d)).2.imp
  intro s t above
  exact above _ List.mem_cons_self _ List.mem_cons_self

/-- The declarations of a document start on lines that it has. -/
theorem Model.startLines_exist (d : Document) :
    ∀ n ∈ (Model.ofDocument d).startLines, (d.line? n).isSome = true := by
  intro n listed
  obtain ⟨l, member, rfl⟩ := Reading.exists_line_of_free rfl listed
  rw [Document.line?_of_mem member]
  rfl

end SymbolIndex
