import SymbolIndex.Bytewise.LineIndex
import SymbolIndex.Lexical.Comment
import SymbolIndex.Model
import SymbolIndex.Record

/-!
The declarations of a text, read by byte offsets.

What a line declares is found on its trimmed text and placed by sums of offsets: of the line, of its
indent and of the name or brace within it.  It is written down as a record, and while a container is open
its records wait in three lists: methods without a body, which only an interface keeps, and fields and
callables with a body and callables with wrapped parameters, which only a class does.  A class that closes
puts its two lists together and sorts them by where its members start.
-/

namespace SymbolIndex.Bytewise

open Text

/-- The byte offset of the first occurrence of a text in another. -/
def find? (part : List Char) : List Char → Option Nat
  | [] => if startsWith part [] then some 0 else none
  | c :: s => if startsWith part (c :: s) then some 0 else (find? part s).map (c.utf8Size + ·)

/-- Reads a line for comments, given whether a block comment is open before it (`is_comment`). -/
def readComment (isOpen : Bool) (line : List Char) : Except Breach Comment.Reading :=
  if isOpen then
    match find? Comment.closeMark line with
    | some place => do
      let code := trim (← sliceFrom line (place + 2))
      return ⟨code.isEmpty || startsWith Comment.lineMark code, false⟩
    | none => .ok ⟨true, true⟩
  else if startsWith Comment.openMark line then do
    return ⟨true, !occursIn Comment.closeMark (← sliceFrom line 2)⟩
  else .ok ⟨startsWith Comment.lineMark line, false⟩

/-- A line of a text, as declarations on it are placed (`LineAt`). -/
structure Place where
  index : LineIndex
  number : Nat
  /-- The bytes of the blanks that the line begins with. -/
  indent : Nat

namespace Place

/-- The offset in the text of an offset in the trimmed line. -/
def offset (place : Place) (inTrimmed : Nat) : Nat :=
  place.index.lineStart place.number + place.indent + inTrimmed

/-- The column of an offset in the trimmed line. -/
def column (place : Place) (inTrimmed : Nat) : Except Breach Nat :=
  place.index.columnOf place.number (place.indent + inTrimmed)

/-- The position of the line's end (`line_end`). -/
def lineStop (place : Place) : Except Breach Position := do
  return (← place.index.lineSpan place.number).stop

/-- The position past the block whose opening brace stands at an offset in the trimmed line
(`block_span`). -/
def blockStop (place : Place) (braceAt : Nat) : Except Breach Position := do
  match ← matchingClose (bytes place.index.text) (place.offset braceAt) with
  | some closeAt => place.index.position (closeAt + 1)
  | none => place.index.stop

/-- The site of a declaration, given the offset of its name in the trimmed line and where it stops. -/
def site (place : Place) (nameAt : Nat) (name : String) (stop : Position) : Except Breach Site := do
  let start ← place.column 0
  let nameStart ← place.column nameAt
  return {
    span := ⟨⟨place.number, start⟩, stop⟩
    selection := Span.onLine place.number nameStart (nameStart + name.length)
    header := ← place.index.lineSpan place.number }

/-- Where the body of a callable stops. -/
def bodyStop (place : Place) (trimmed : List Char) : Shape.Body → Except Breach Position
  | .expression => place.lineStop
  | .block braceAt => place.blockStop (byteOffset trimmed braceAt)

/-- A declaration of a kind on the line, with nothing but its name and its site filled in. -/
def leaf (place : Place) (kind : Kind) (name : String) (nameAt : Nat) (stop : Position) :
    Except Breach Record := do
  return .leaf kind name (← place.site nameAt name stop)

/-- A callable with a body, as a declaration of a kind. -/
def callable (place : Place) (trimmed : List Char) (kind : Kind) (c : Shape.Callable) :
    Except Breach Record := do
  let leaf ← place.leaf kind c.name 0 (← place.bodyStop trimmed c.body)
  return { leaf with parameters := c.signature.parameters, type := c.signature.result }

/-- The function or the constant that a line declares at the top level (`top_level_symbol`). -/
def topLevel (place : Place) (trimmed : List Char) : Except Breach (Option Record) :=
  match Shape.topLine? trimmed with
  | some (.function c) => do return some (← place.callable trimmed .function c)
  | some (.constant c) => do
    let leaf ← place.leaf .constant c.name (byteOffset trimmed c.nameAt) (← place.lineStop)
    return some { leaf with value := some c.value }
  | none => .ok none

end Place

/-- A container whose end has not been read yet. -/
structure OpenContainer where
  name : String
  implements : List String
  /-- Whether its head has an implements clause, so that it is no interface. -/
  explicitClass : Bool
  site : Site
  /-- The depth of braces, counted from before its head. -/
  depth : Int
  /-- Whether a line so far mentions a constructor. -/
  sawConstructor : Bool
  /-- The methods without a body, kept if it turns out to be an interface. -/
  signatures : List Record
  /-- The fields and the callables with a body, kept if it turns out to be a class. -/
  members : List Record
  /-- The callables whose parameters go on after their line.  A class keeps them, but they make no
  block a class. -/
  wrapped : List Record
  /-- Whether the next line continues the parameters of such a callable. -/
  paramsOpen : Bool

namespace OpenContainer

/-- The container that a head opens (`start`).  Its brace is the last byte that the head takes. -/
def ofHead (place : Place) (raw trimmed : List Char) (head : Shape.Head) :
    Except Breach OpenContainer := do
  let braceAt ← minus (byteOffset trimmed (head.braceAt + 1)) 1
  return {
    name := head.name
    implements := head.implements.getD []
    explicitClass := head.implements.isSome
    site := ← place.site 0 head.name (← place.blockStop braceAt)
    depth := ← balance (bytes trimmed)
    sawConstructor := occursIn Shape.constructorName.toList raw
    signatures := []
    members := []
    wrapped := []
    paramsOpen := false }

/-- The kind of a member that is a callable: a constructor, or else a method. -/
def callableKind (name : String) : Kind :=
  if name = Shape.constructorName then .constructor else .method

/-- The container with one more line directly in its body.  A line that continues wrapped parameters
declares nothing, and the first with a closing parenthesis is the last of them. -/
def collect (place : Place) (trimmed : List Char) (b : OpenContainer) : Except Breach OpenContainer :=
  if b.paramsOpen then .ok { b with paramsOpen := !trimmed.contains ')' }
  else
    match Shape.memberLine? trimmed with
    | some (.signature name signature) => do
      let leaf ← place.leaf .method name 0 (← place.lineStop)
      let method := { leaf with parameters := signature.parameters, type := signature.result }
      return { b with signatures := b.signatures ++ [method] }
    | some (.callable c) => do
      let callable ← place.callable trimmed (callableKind c.name) c
      return { b with members := b.members ++ [callable] }
    | some (.wrapped name parameters) => do
      let leaf ← place.leaf (callableKind name) name 0 (← place.lineStop)
      return { b with wrapped := b.wrapped ++ [{ leaf with parameters }], paramsOpen := true }
    | some (.field f) => do
      let leaf ← place.leaf .field f.name 0 (← place.lineStop)
      return { b with members := b.members ++ [{ leaf with type := some f.type }] }
    | none => .ok b

/-- Whether the container turns out to be an interface: it has no implements clause, no line of it
mentions a constructor, and it declared no field and no callable with a body. -/
def isInterface (b : OpenContainer) : Bool :=
  !b.explicitClass && !b.sawConstructor && b.members.isEmpty

/-- The members of a class: those of both lists, sorted by where they start. -/
def classMembers (b : OpenContainer) : List Record :=
  (b.members ++ b.wrapped).mergeSort Record.startsNoLater

/-- The declaration of the container once it is closed. -/
def finish (b : OpenContainer) : Record :=
  { Record.leaf (if b.isInterface then .interfaceType else .classType) b.name b.site with
    implements := b.implements
    members := if b.isInterface then b.signatures else b.classMembers }

end OpenContainer

/-- What the lines read so far leave behind: the state of the loop of `extract`. -/
structure Extraction where
  /-- Whether a block comment is open. -/
  inComment : Bool
  /-- The container that is open, if one is. -/
  container : Option OpenContainer
  /-- The depth of braces outside containers, never below zero. -/
  depth : Int

namespace Extraction

/-- Before the first line. -/
def start : Extraction := { inComment := false, container := none, depth := 0 }

/-- What a line of code inside a container leaves behind, and the container if the line closes it. -/
def bodyStep (place : Place) (trimmed : List Char) (e : Extraction) (b : OpenContainer) :
    Except Breach (Extraction × Option Record) := do
  let depth := b.depth + (← balance (bytes trimmed))
  if depth ≤ 0 then return ({ e with container := none }, some b.finish)
  else
    let collected ← (if b.depth = 1 then b.collect place trimmed else .ok b)
    return ({ e with container := some { collected with depth } }, none)

/-- What a line of code at the top level leaves behind, and the declaration that it completes. -/
def topStep (place : Place) (raw trimmed : List Char) (e : Extraction) :
    Except Breach (Extraction × Option Record) :=
  if e.depth ≠ 0 then do
    return ({ e with depth := max 0 (e.depth + (← balance (bytes trimmed))) }, none)
  else
    match Shape.containerHead? trimmed with
    | some head => do
      let opened ← OpenContainer.ofHead place raw trimmed head
      if opened.depth ≤ 0 then return (e, some opened.finish)
      else return ({ e with container := some opened }, none)
    | none => do
      let declared ← place.topLevel trimmed
      return ({ e with depth := max 0 (e.depth + (← balance (bytes trimmed))) }, declared)

/-- What a line that is no comment and not blank leaves behind, and the declaration that it completes. -/
def codeStep (place : Place) (raw trimmed : List Char) (e : Extraction) :
    Except Breach (Extraction × Option Record) :=
  match e.container with
  | some b => e.bodyStep place trimmed b
  | none => e.topStep place raw trimmed

/-- An open container takes note of every line that mentions a constructor, comments included. -/
def note (raw : List Char) (e : Extraction) : Extraction :=
  { e with
    container := e.container.map fun b =>
      { b with sawConstructor := b.sawConstructor || occursIn Shape.constructorName.toList raw } }

/-- What one more line leaves behind, and the declaration that it completes: one turn of the loop. -/
def step (index : LineIndex) (e : Extraction) (number : Nat) :
    Except Breach (Extraction × Option Record) := do
  let raw ← index.line number
  let trimmed := trim raw
  let e := e.note raw
  if trimmed.isEmpty then return (e, none)
  else
    let comment ← readComment e.inComment trimmed
    let e := { e with inComment := comment.leavesOpen }
    if comment.isComment then return (e, none)
    else
      let indent ← minus (byteLength raw) (byteLength (trimStart raw))
      e.codeStep { index, number, indent } raw trimmed

/-- The declarations that the lines of some numbers complete. -/
def records (index : LineIndex) (e : Extraction) : (numbers : List Nat) → Except Breach (List Record)
  | [] => .ok []
  | number :: later => do
    let (next, record) ← step index e number
    return record.toList ++ (← records index next later)

end Extraction

/-- The declarations of a text, in the order in which they end.  A container that the text does not
close is not among them. -/
def extract (text : List Char) : Except Breach (List Record) :=
  let index := LineIndex.ofText text
  Extraction.start.records index (List.range index.lineCount)

/-- The model of a text. -/
def model (text : List Char) : Except Breach Model := do
  return ⟨(← extract text).map Record.symbol⟩

end SymbolIndex.Bytewise
