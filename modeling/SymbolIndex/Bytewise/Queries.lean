import SymbolIndex.Bytewise.LineIndex
import SymbolIndex.Definition

/-!
The queries for a name, by byte offsets.

What they find in a text or on a line is given by two offsets, each the length of the text before it, and
is reported by the positions of the two.
-/

namespace SymbolIndex

namespace Text

/-- Whether a word begins or ends between two neighbours. The ends of a text count as no word. -/
def wordBreak (previous next : Option Char) : Bool :=
  previous.any isWordChar != next.any isWordChar

/-- Whether a name stands behind what is read already, between two word breaks. -/
def standsBehind (name read s : List Char) : Bool :=
  match afterPrefix? name s with
  | some rest => wordBreak read.getLast? s.head? && wordBreak name.getLast? rest.head?
  | none => false

/-- The search for a name between word breaks, as the texts before the matches. A match takes its
characters, so the next one is looked for behind it. -/
def wholeWords (name : List Char) : (read : List Char) → (taken : Nat) → List Char → List (List Char)
  | _, _, [] => []
  | read, taken + 1, c :: s => wholeWords name (read ++ [c]) taken s
  | read, 0, c :: s =>
    if standsBehind name read (c :: s) then
      read :: wholeWords name (read ++ [c]) (name.length - 1) s
    else wholeWords name (read ++ [c]) 0 s

end Text

namespace Bytewise

open Text

/-- The matches of a form in some lines, the first `skipped` of which belong to an earlier match. -/
def matchesIn (index : LineIndex) (form : Definition.Form) (name : List Char) :
    (skipped : Nat) → List Line → Except Breach (List Span)
  | _, [] => .ok []
  | skipped + 1, _ :: later => matchesIn index form name skipped later
  | 0, l :: later =>
    match form.match? name l.onward with
    | none => matchesIn index form name 0 later
    | some m => do
      let first := index.lineStart l.number + byteOffset l.onward m.column
      let span ← index.span first (first + byteLength name)
      return span :: (← matchesIn index form name m.breaks later)

/-- The definitions of a name (`resolve_definition`). What is not a word has none. -/
def definitions (text name : List Char) : Except Breach (List Definition) :=
  if isWord name then
    let index := LineIndex.ofText text
    let lines := (Document.mk text).lines
    (Definition.formsFor name).foldlM
      (fun found form => do
        return Definition.addNew found form.kind (← matchesIn index form name 0 lines)) []
  else .ok []

/-- The references of a line to a name. -/
def lineReferences (index : LineIndex) (name : List Char) (l : Line) : Except Breach (List Span) :=
  (l.words.filter (·.text == name)).mapM fun w =>
    let first := index.lineStart l.number + byteOffset l.content w.column
    index.span first (first + byteLength name)

/-- All references to a name, in document order (`resolve_references`). What is not a word has none. -/
def references (text name : List Char) : Except Breach (List Span) :=
  if isWord name then do
    let index := LineIndex.ofText text
    return (← (Document.mk text).lines.mapM (lineReferences index name)).flatten
  else .ok []

/-- The spans that do not start on a line that declares something and mentions the name
(`filter_declarations`). -/
def withoutDeclarations (index : LineIndex) (name : List Char) :
    List Span → Except Breach (List Span)
  | [] => .ok []
  | span :: later => do
    let line ← index.line span.start.line
    let kept ← withoutDeclarations index name later
    return if Line.isDeclaration line && occursIn name line then kept else span :: kept

/-- The references to a name, with or without those on lines that declare something
(`find_references`). -/
def referencesTo (text name : List Char) (keepDeclarations : Bool) : Except Breach (List Span) := do
  let found ← references text name
  if keepDeclarations then return found
  else withoutDeclarations (LineIndex.ofText text) name found

/-- The word under a position and where it stands (`word_at`). -/
def wordAt (text : List Char) (p : Position) : Except Breach (Option (List Char × Span)) :=
  let index := LineIndex.ofText text
  if index.lineCount ≤ p.line then .ok none
  else do
    let line ← index.line p.line
    let cursor := byteOffset line p.column
    let touched := (Word.runs 0 line).find? fun w =>
      byteOffset line w.column ≤ cursor && cursor ≤ byteOffset line w.stop
    match touched with
    | none => return none
    | some w => do
      let first ← index.columnOf p.line (byteOffset line w.column)
      let last ← index.columnOf p.line (byteOffset line w.stop)
      return some (w.text, Span.onLine p.line first last)

/-- The search for a name in a text, by byte offsets. What is not a word is not searched for. -/
def wholeWords (text name : List Char) : Except Breach (List Span) :=
  if isWord name then
    (Text.wholeWords name [] 0 text).mapM fun before =>
      let first := Text.byteLength before
      (LineIndex.ofText text).span first (first + Text.byteLength name)
  else .ok []

end Bytewise

end SymbolIndex
