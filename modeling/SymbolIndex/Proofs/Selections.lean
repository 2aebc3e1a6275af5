import SymbolIndex.Proofs.Words

/-! The outline and the search for references agree. Whatever a line declares, its name is a word of
the line: blanks or nothing stand before it, and blanks or a mark behind it. So the search finds the
selection of every symbol, and a cursor on the selection is on that word and on no other. -/
namespace SymbolIndex

namespace Shape

/-- A name that heads a line is a word of it. -/
theorem Heads.hasWord {line : List Char} {name : String} {mark : Char} (heads : Heads line name mark)
    (outside : Text.isWordChar mark = false) : Text.HasWord line 0 name.toList := by
  obtain ⟨gap, rest, rfl, nonempty, chars, blank⟩ := heads
  refine ⟨[], gap ++ mark :: rest, rfl, rfl, isWord_of_nameChars nonempty chars, Text.boundary_nil _, .inr ?_⟩
  intro c first
  rcases Text.head?_append_cons first with inGap | rfl
  · exact Text.isWordChar_of_isBlank (blank c inGap)
  · exact outside

/-- The name of a constant is a word of its line. -/
theorem constant?_hasWord {line : List Char} {c : Constant} (reads : constant? line = some c) :
    Text.HasWord line c.nameAt c.name.toList := by
  obtain ⟨gap, rest, rfl, nonempty, blank, heads, place⟩ := constant?_some reads
  have ends : ∀ d, (constWord ++ gap).getLast? = some d → Text.isWordChar d = false := by
    intro d last
    rw [List.getLast?_append_of_ne_nil _ nonempty] at last
    exact blank.getLast? d last
  have has := (heads.hasWord rfl).append_left ends
  rw [List.append_assoc, ← place, Nat.add_zero] at has
  exact has

end Shape

/-- What a line declares is selected where its name stands as a word. -/
theorem Line.Declares.hasWord {l : Line} {kind : Kind} {name : String} {site : Site}
    (declares : l.Declares kind name site) :
    ∃ column, Text.HasWord l.content column name.toList ∧
      site.selection = Span.onLine l.number column (column + name.toList.length) := by
  have place {column : Nat} {stop : Position} (has : Text.HasWord l.trimmed column name.toList) :
      ∃ column', Text.HasWord l.content column' name.toList ∧
        (l.site column name stop).selection =
          Span.onLine l.number column' (column' + name.toList.length) :=
    ⟨_, has.of_trim, by rw [String.length_toList]; rfl⟩
  cases declares with
  | container _ heads =>
    rcases Shape.containerHead?_heads heads with brace | colon
    · exact place (brace.hasWord rfl)
    · exact place (colon.hasWord rfl)
  | callable _ reads => exact place ((Shape.callable?_heads reads).hasWord rfl)
  | signature reads => exact place ((Shape.signature?_heads reads).hasWord rfl)
  | wrapped _ reads => exact place ((Shape.wrapped?_heads reads).hasWord rfl)
  | field reads => exact place ((Shape.field?_heads reads).hasWord rfl)
  | constant reads => exact place (Shape.constant?_hasWord reads)

namespace Document

/-- A declaration that the search for references knows under its name. -/
structure SelectsWord (d : Document) (name : String) (site : Site) : Prop where
  /-- The selection is a reference to the name. -/
  reference : site.selection ∈ d.references name.toList
  /-- A cursor at the selection is on the name, and the name is all of the word there. -/
  word : d.wordAt? site.selection.start = some (name.toList, site.selection)
  /-- Asked for references at the selection, the search finds the selection. -/
  found : site.selection ∈ d.referencesAt site.selection.start true

theorem selectsWord_of_declares {d : Document} {l : Line} (member : l ∈ d.lines) {kind : Kind}
    {name : String} {site : Site} (declares : l.Declares kind name site) : d.SelectsWord name site := by
  obtain ⟨column, has, selects⟩ := declares.hasWord
  have reference := mem_references_of_hasWord member has
  have word := wordAt?_of_hasWord member has (Nat.le_refl column) (Nat.le_add_right ..)
  rw [← selects] at reference word
  have start : site.selection.start = ⟨l.number, column⟩ := by rw [selects]; rfl
  rw [← start] at word
  refine ⟨reference, word, ?_⟩
  simpa [referencesAt, word, referencesTo] using reference

end Document

/-- Every symbol and every member of a document is a reference to its own name, and the word under a
cursor on it is its name, from the first character to the last. -/
theorem selections_are_words (d : Document) :
    ∀ s ∈ (Model.ofDocument d).symbols,
      d.SelectsWord s.name s.site ∧ ∀ m ∈ s.members, d.SelectsWord m.name m.site := by
  apply Model.throughout_of_declares (P := fun _ name site => d.SelectsWord name site)
  intro l member kind name site declares
  exact Document.selectsWord_of_declares member declares

/-- A document where letters beyond ASCII stand around names, which also occur within longer words. -/
def lettered : Document :=
  .ofString "const É_LAST = 1\n\tPair\t\x7b // éPair\n  size: int // sizeé\n\x7d\nconst LAST = É_LAST\r\n"

/-- The container of `lettered` and its field are words under the cursor and references. -/
theorem selections_of_lettered :
    ∃ s ∈ (Model.ofDocument lettered).symbols, s.name = "Pair" ∧ lettered.SelectsWord s.name s.site ∧
      ∃ m ∈ s.members, m.name = "size" ∧ lettered.SelectsWord m.name m.site := by
  have reads : ∃ s ∈ (Model.ofDocument lettered).symbols, s.name = "Pair" ∧
      ∃ m ∈ s.members, m.name = "size" := by decide +kernel
  obtain ⟨s, member, name, m, inside, named⟩ := reads
  obtain ⟨own, members⟩ := selections_are_words lettered s member
  exact ⟨s, member, name, own, m, inside, named, members m inside⟩

end SymbolIndex
