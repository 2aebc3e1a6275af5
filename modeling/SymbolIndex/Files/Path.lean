import SymbolIndex.Text.Basic

/-!
Paths relative to a directory.

A path is an optional lead, the root or the current directory, and the parts between its slashes.
Empty parts and single dots name nothing, so they do not count when one path is compared with the
beginning of another; inside what is left over they stay as they are written.
-/

namespace SymbolIndex.Path

/-- What a path begins with. -/
inductive Lead where
  | root
  | here
  | nothing
  deriving DecidableEq, Repr

/-- The text of a lead. -/
def Lead.text : Lead → List Char
  | root => ['/']
  | here => ['.']
  | nothing => []

/-- A path as its lead and the text after it. -/
def split : List Char → Lead × List Char
  | '/' :: body => (.root, body)
  | ['.'] => (.here, [])
  | '.' :: '/' :: body => (.here, '/' :: body)
  | body => (.nothing, body)

/-- The text between the slashes of a body. -/
def parts (body : List Char) : List (List Char) := Text.splitOn '/' body

/-- Whether a part names nothing. -/
def isVoid (part : List Char) : Bool := part == [] || part == ['.']

/-- The parts without the void ones at the end. -/
def dropLastVoid (ps : List (List Char)) : List (List Char) :=
  (ps.reverse.dropWhile isVoid).reverse

/-- What is left of some parts after named parts at their beginning. -/
def after? : (names ps : List (List Char)) → Option (List (List Char))
  | [], ps => some ps
  | name :: names, ps =>
    match ps.dropWhile isVoid with
    | [] => none
    | part :: later => if part = name then after? names later else none

/-- The text of some parts. -/
def join (ps : List (List Char)) : List Char := ['/'].intercalate ps

/-- A path below a directory as it is written from there, or the path itself if it is not below
(`normalized_relative`). -/
def relativeTo (directory path : String) : String :=
  let (lead, body) := split path.toList
  let (lead', body') := split directory.toList
  let names := (parts body').filter (!isVoid ·)
  let whole := lead.text ++ join (dropLastVoid (parts body))
  if lead' = .nothing ∧ names = [] then String.ofList whole
  else if lead ≠ lead' then path
  else
    match after? names (parts body) with
    | none => path
    | some ps => String.ofList (join (dropLastVoid (ps.dropWhile isVoid)))

end SymbolIndex.Path
