import SymbolIndex.Pattern
import SymbolIndex.Document

/-!
Words of a document and references to a name.

A word is a run of word characters that is as long as possible, so it never crosses a line.  A
reference to a name is a word that equals it.  The word under a cursor is the one that the cursor
touches; since two words never touch each other, there is at most one.
-/

namespace SymbolIndex

/-- A word of a line. -/
structure Word where
  /-- The column of its first character. -/
  column : Nat
  text : List Char
  deriving DecidableEq, Repr

namespace Word

/-- The column past its last character. -/
def stop (w : Word) : Nat := w.column + w.text.length

/-- Whether a cursor at the column touches the word. -/
def touches (w : Word) (column : Nat) : Bool := w.column ≤ column && column ≤ w.stop

/-- The stretch of its line that the word takes. -/
def span (w : Word) (line : Nat) : Span := Span.onLine line w.column w.stop

/-- One more character before some words: a word character joins the word that starts right after
it. -/
def extend : Char × Nat → List Word → List Word
  | (c, column), words =>
    if Text.isWordChar c then
      match words with
      | [] => [⟨column, [c]⟩]
      | w :: later =>
        if w.column = column + 1 then ⟨column, c :: w.text⟩ :: later else ⟨column, [c]⟩ :: words
    else words

/-- The words of a text that begins at a column of its line, from left to right. -/
def runs (column : Nat) (s : List Char) : List Word := (s.zipIdx column).foldr extend []

end Word

/-- The words of a line, from left to right. -/
def Line.words (l : Line) : List Word := Word.runs 0 l.content

/-- Whether a text is a word and nothing else (`is_word`). -/
def isWord (text : List Char) : Bool := !text.isEmpty && text.all Text.isWordChar

namespace Line

/-- The references of a line to a name. -/
def references (l : Line) (name : List Char) : List Span :=
  (l.words.filter (·.text == name)).map (·.span l.number)

/-- The words after which a line declares what it goes on with. -/
def declarationWords : List (List Char) :=
  [['l', 'e', 't'], ['c', 'o', 'n', 's', 't'], ['f', 'n']]

/-- Whether a line begins with a word that declares something. -/
def isDeclaration (content : List Char) : Bool :=
  declarationWords.any fun word =>
    (Pattern.take? [.blanks, .literal word, .some1 Text.isBlank] content).isSome

end Line

namespace Document

/-- All references to a name, in document order (`resolve_references`). -/
def references (d : Document) (name : List Char) : List Span :=
  d.lines.flatMap (·.references name)

/-- The spans that do not start on a line that declares something and mentions the name
(`filter_declarations`). -/
def withoutDeclarations (d : Document) (name : List Char) (spans : List Span) : List Span :=
  let lines := d.lines.toArray
  spans.filter fun span =>
    match lines[span.start.line]? with
    | some l => !(Line.isDeclaration l.content && Text.occursIn name l.content)
    | none => true

/-- The references to a name, with or without those on lines that declare something
(`find_references`). -/
def referencesTo (d : Document) (name : List Char) (keepDeclarations : Bool) : List Span :=
  if keepDeclarations then d.references name
  else d.withoutDeclarations name (d.references name)

/-- The word under a position and where it stands (`word_at`).  A column past the end of the line
means the end. -/
def wordAt? (d : Document) (p : Position) : Option (List Char × Span) :=
  (d.line? p.line).bind fun l =>
    (l.words.find? (·.touches (min p.column l.content.length))).map fun w =>
      (w.text, w.span p.line)

/-- The references to the word under a position. -/
def referencesAt (d : Document) (p : Position) (keepDeclarations : Bool) : List Span :=
  match d.wordAt? p with
  | some (name, _) => d.referencesTo name keepDeclarations
  | none => []

end Document

end SymbolIndex
