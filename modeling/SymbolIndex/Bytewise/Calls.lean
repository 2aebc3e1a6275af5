import SymbolIndex.Bytewise.Extraction
import SymbolIndex.Call
import SymbolIndex.Diagnostic
import SymbolIndex.Outline

/-!
Operations on a text by byte offsets that end in its model: the call before a cursor, read backwards from
byte to byte, with the help for it; the outline; and the diagnostics.
-/

namespace SymbolIndex.Bytewise

open Text

/-- The characters of a text beside their byte offsets. -/
def charIndices : (offset : Nat) → List Char → List (Nat × Char)
  | _, [] => []
  | offset, c :: s => (offset, c) :: charIndices (offset + c.utf8Size) s

/-- The name that a text ends in, blanks after it aside (`callee_before`). -/
def calleeBefore (head : List Char) : Except Breach (Option (List Char)) :=
  let head := trimEnd head
  match ((charIndices 0 head).reverse.takeWhile fun x => Call.isCalleeChar x.2).getLast? with
  | none => .ok none
  | some (start, _) => do return some (← sliceFrom head start)

/-- The innermost open call before an index of a text. -/
def searchBack (text : List Char) : (index closed commas : Nat) → Except Breach (Option Call)
  | 0, _, _ => .ok none
  | index + 1, closed, commas => do
    let b ← itemAt (bytes text) index
    if b = ')'.toUInt8 then searchBack text index (closed + 1) commas
    else if b = '('.toUInt8 then
      if closed = 0 then
        match ← calleeBefore (← slice text 0 index) with
        | some name => return some ⟨name, commas⟩
        | none => searchBack text index 0 0
      else searchBack text index (← minus closed 1) commas
    else if b = ','.toUInt8 ∧ closed = 0 then searchBack text index closed (commas + 1)
    else searchBack text index closed commas

/-- The innermost call that the text before a cursor leaves open (`call_context`). -/
def callBefore (text : List Char) : Except Breach (Option Call) :=
  searchBack text (byteLength text) 0 0

/-- Help with the call that a position is in (`signature_help`). -/
def callHelp (text : List Char) (p : Position) : Except Breach (Option CallHelp) :=
  let index := LineIndex.ofText text
  if index.lineCount ≤ p.line then .ok none
  else do
    let line ← index.line p.line
    match ← callBefore (← slice line 0 (byteOffset line p.column)) with
    | none => return none
    | some call =>
      let model ← model text
      let name := String.ofList call.name
      return (model.callee? name).map fun callee =>
        let parameters := callee.signature.parameterList
        { label := callee.label name
          parameters
          active := min call.argument (parameters.length - 1) }

/-- The outline of a text (`document_outline`). -/
def outline (text : List Char) : Except Breach (List OutlineEntry) := do return (← model text).outline

/-- The diagnostics of a text (`diagnose`). -/
def diagnostics (text : List Char) : Except Breach (List Diagnostic) := do
  return (← model text).diagnostics

end SymbolIndex.Bytewise
