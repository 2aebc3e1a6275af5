import SymbolIndex.Container
import SymbolIndex.Lexical.Comment

/-!
The symbol model of a document: its top-level declarations in the order in which they end.

The document is read line by line.  Blank lines and comment lines declare nothing and leave the
depth of braces as it is.  While a container is open, lines belong to it; otherwise a line declares
something only at depth zero, so nothing inside a function's body is taken for a declaration.  A
container that the document does not close is not in the model.

Reading is a machine: `Reading.step` takes one line, and `Reading.symbols` the symbols that a run
of lines declares.  No document is malformed; one that makes little sense just has a smaller model.
-/

namespace SymbolIndex

/-- What the lines read so far leave behind: the state of the loop of `extract`. -/
structure Reading where
  /-- Whether a block comment is open. -/
  inComment : Bool
  /-- The container that is open, if one is. -/
  container : Option Container
  /-- The depth of braces outside containers, never below zero. -/
  depth : Int

namespace Reading

/-- Before the first line. -/
def start : Reading := { inComment := false, container := none, depth := 0 }

/-- The symbol for what a line at the top level reads as. -/
def symbolOn (l : Line) : Shape.TopLine → Symbol
  | .function c =>
    { name := c.name
      site := l.site 0 c.name (Container.bodyStop l c.body)
      form := .function c.signature }
  | .constant c =>
    { name := c.name, site := l.site c.nameAt c.name l.stop, form := .constant c.value }

/-- The function or the constant that a line declares at the top level (`top_level_symbol`). -/
def topLevel? (l : Line) : Option Symbol := (Shape.topLine? l.trimmed).map (symbolOn l)

/-- The reading after a line of code at the top level, and the symbol that it completes. -/
def topStep (r : Reading) (l : Line) : Reading × Option Symbol :=
  let deeper := { r with depth := max 0 (r.depth + braceBalance l.trimmed) }
  if r.depth ≠ 0 then (deeper, none)
  else
    match Shape.containerHead? l.trimmed with
    | none => (deeper, topLevel? l)
    | some head =>
      let opened := Container.ofHead l head
      if opened.depth ≤ 0 then (r, some opened.close)
      else ({ r with container := some opened }, none)

/-- The reading after a line of code inside a container, and the container if the line closes it. -/
def bodyStep (r : Reading) (b : Container) (l : Line) : Reading × Option Symbol :=
  let depth := b.depth + braceBalance l.trimmed
  if depth ≤ 0 then ({ r with container := none }, some b.close)
  else
    let collected := if b.depth = 1 then b.collect l else b
    ({ r with container := some { collected with depth } }, none)

/-- The reading after a line that is no comment and not blank. -/
def codeStep (r : Reading) (l : Line) : Reading × Option Symbol :=
  match r.container with
  | some b => r.bodyStep b l
  | none => r.topStep l

/-- An open container takes note of every line that mentions a constructor, comments included. -/
def note (r : Reading) (l : Line) : Reading :=
  { r with
    container := r.container.map fun b =>
      { b with mentionsConstructor := b.mentionsConstructor || Container.mentions l } }

/-- The reading after one more line, and the symbol that the line completes: one turn of the loop of
`extract`. -/
def step (r : Reading) (l : Line) : Reading × Option Symbol :=
  let r := r.note l
  if l.trimmed.isEmpty then (r, none)
  else
    let comment := Comment.read r.inComment l.trimmed
    let r := { r with inComment := comment.leavesOpen }
    if comment.isComment then (r, none) else r.codeStep l

/-- The reading after some lines. -/
def after (r : Reading) (lines : List Line) : Reading :=
  lines.foldl (fun r l => (r.step l).1) r

/-- The symbols that some lines complete. -/
def symbols (r : Reading) : List Line → List Symbol
  | [] => []
  | l :: later =>
    match r.step l with
    | (r', some symbol) => symbol :: symbols r' later
    | (r', none) => symbols r' later

end Reading

/-- The symbols of a document (`SymbolModel`). -/
structure Model where
  symbols : List Symbol
  deriving DecidableEq, Repr

namespace Model

/-- Reads a document (`extract`). -/
def ofDocument (d : Document) : Model := ⟨Reading.start.symbols d.lines⟩

/-- Reads a text. -/
def ofString (text : String) : Model := ofDocument (.ofString text)

/-- The symbols of a kind, in document order. -/
def ofKind (m : Model) (kind : Kind) : List Symbol := m.symbols.filter (·.kind == kind)

end Model

end SymbolIndex
