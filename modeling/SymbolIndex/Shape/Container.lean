import SymbolIndex.Pattern

/-!
The heads of containers, as one trimmed line writes them.

`Name {` opens a block that is a class or an interface; only its body tells which. `Name : First,
Second {` opens a class that implements the listed interfaces.
-/

namespace SymbolIndex.Shape

/-- The head of a container (`ContainerHead`). -/
structure Head where
  name : String
  /-- The interfaces of the implements clause; a head without a clause has none to list. -/
  implements : Option (List String)
  /-- The column of the brace that opens the body. -/
  braceAt : Nat
  deriving DecidableEq, Repr

/-- The name of a container begins with an ASCII capital. -/
def containerName : Piece := .word Char.isUpper Text.isNameChar

/-- A head without an implements clause. -/
def plainHead : Pattern := [containerName, .blanks, .literal ['\x7b']]

/-- The characters of an implements clause. -/
def isClauseChar (c : Char) : Bool := Text.isNameChar c || c == ',' || Text.isBlank c

/-- An implements clause is a capital and at least one character more. -/
def implementingHead : Pattern :=
  [containerName, .blanks, .literal [':'], .blanks,
    .word Char.isUpper (fun _ => false), .some1 isClauseChar, .literal ['\x7b']]

/-- Reads `Name {` (`match_container_head`). -/
def plainHead? (line : List Char) : Option Head :=
  match plainHead.take? line with
  | some ([name, gap, _], _) =>
    some { name := String.ofList name, implements := none, braceAt := Pattern.width [name, gap] }
  | _ => none

/-- Reads `Name : First, Second {` (`match_class_head`). -/
def implementingHead? (line : List Char) : Option Head :=
  match implementingHead.take? line with
  | some ([name, gap, colon, gap', capital, clause, _], _) =>
    some {
      name := String.ofList name
      implements := some ((Text.entries (capital ++ clause)).map String.ofList)
      braceAt := Pattern.width [name, gap, colon, gap', capital, clause] }
  | _ => none

/-- Reads the head of a container of either form. -/
def containerHead? (line : List Char) : Option Head :=
  (plainHead? line).or (implementingHead? line)

end SymbolIndex.Shape
