import SymbolIndex.Text.Utf8

/-!
The two scans for braces, as loops over the bytes of a text.

They look one byte back and one byte ahead, go over both bytes of a comment's mark at once, and read
every byte by its index.  What could go wrong on the way is a `Breach`, so an index out of range or a
loop that does not end would show in the result.
-/

namespace SymbolIndex

/-- What can go wrong while a text is taken apart by byte offsets. -/
inductive Breach where
  /-- An index or an offset past the end. -/
  | outOfRange
  /-- A cut inside a character. -/
  | insideCharacter
  /-- A difference less than zero. -/
  | belowZero
  /-- A loop with more steps than there are bytes. -/
  | outOfSteps
  deriving DecidableEq, Repr

namespace Bytewise

/-- The item of a list at an index. -/
def itemAt {α : Type} (items : List α) (index : Nat) : Except Breach α :=
  match items[index]? with
  | some item => .ok item
  | none => .error .outOfRange

/-- The difference of two numbers, if the second is not greater than the first. -/
def minus (a b : Nat) : Except Breach Nat := if b ≤ a then .ok (a - b) else .error .belowZero

/-- Where a byte stands, as far as a scan remembers. -/
inductive State where
  | code
  | quoted (mark : UInt8)
  | lineComment
  | blockComment
  deriving DecidableEq, Repr

namespace State

/-- How much a byte adds to the depth of braces. -/
def weight (state : State) (b : UInt8) : Int :=
  match state with
  | code => if b = '\x7b'.toUInt8 then 1 else if b = '\x7d'.toUInt8 then -1 else 0
  | _ => 0

/-- Whether a byte is a quote mark. -/
def isQuoteByte (b : UInt8) : Bool := b = '\x22'.toUInt8 || b = '\x27'.toUInt8

/-- The number of bytes that one step goes over from a byte on, and the state behind them (`step`). -/
def read (state : State) (previous b : UInt8) (next : Option UInt8) : Nat × State :=
  match state with
  | quoted mark => (1, if b = mark ∧ previous ≠ '\\'.toUInt8 then code else quoted mark)
  | lineComment => (1, if b = '\n'.toUInt8 then code else lineComment)
  | blockComment =>
    if b = '*'.toUInt8 ∧ next = some '/'.toUInt8 then (2, code) else (1, blockComment)
  | code =>
    if b = '/'.toUInt8 ∧ next = some '/'.toUInt8 then (2, lineComment)
    else if b = '/'.toUInt8 ∧ next = some '*'.toUInt8 then (2, blockComment)
    else if isQuoteByte b ∧ previous ≠ '\\'.toUInt8 then (1, quoted b)
    else (1, code)

end State

/-- What a scan knows at an index: the byte before it, and where it stands. -/
structure Cursor where
  index : Nat
  previous : UInt8
  state : State

/-- The cursor after one step. -/
def Cursor.advance (bytes : List UInt8) (cursor : Cursor) : Except Breach Cursor := do
  let b ← itemAt bytes cursor.index
  let (width, state) := cursor.state.read cursor.previous b bytes[cursor.index + 1]?
  let index := cursor.index + width
  return { index, previous := ← itemAt bytes (← minus index 1), state }

/-- The depth at the end of some bytes, `depth` being that at the cursor. -/
def depthFrom (bytes : List UInt8) : (steps : Nat) → Cursor → (depth : Int) → Except Breach Int
  | 0, cursor, depth => if cursor.index < bytes.length then .error .outOfSteps else .ok depth
  | steps + 1, cursor, depth =>
    if cursor.index < bytes.length then do
      let b ← itemAt bytes cursor.index
      depthFrom bytes steps (← cursor.advance bytes) (depth + cursor.state.weight b)
    else .ok depth

/-- The index of the brace that brings the depth down to zero, `depth` being that at the cursor. -/
def closeFrom (bytes : List UInt8) :
    (steps : Nat) → Cursor → (depth : Int) → Except Breach (Option Nat)
  | 0, cursor, _ => if cursor.index < bytes.length then .error .outOfSteps else .ok none
  | steps + 1, cursor, depth =>
    if cursor.index < bytes.length then do
      let b ← itemAt bytes cursor.index
      let change := cursor.state.weight b
      if change = -1 ∧ depth + change = 0 then return some cursor.index
      closeFrom bytes steps (← cursor.advance bytes) (depth + change)
    else .ok none

/-- The opening braces less the closing braces over some bytes (`brace_delta`). -/
def balance (bytes : List UInt8) : Except Breach Int :=
  depthFrom bytes bytes.length ⟨0, 0, .code⟩ 0

/-- The byte before an index; before the first there is a zero. -/
def byteBefore (bytes : List UInt8) (index : Nat) : Except Breach UInt8 :=
  if index = 0 then .ok 0 else do itemAt bytes (← minus index 1)

/-- The index of the brace that balances the block opened at an index (`find_matching_close`). -/
def matchingClose (bytes : List UInt8) (openAt : Nat) : Except Breach (Option Nat) :=
  if bytes.length ≤ openAt then .ok none
  else do
    let previous ← byteBefore bytes openAt
    closeFrom bytes (bytes.length - openAt) ⟨openAt, previous, .code⟩ 0

end Bytewise

end SymbolIndex
