import SymbolIndex.Files.Exclusion
import SymbolIndex.Files.Glob

/-!
Directory trees and the files that are selected from them.

Files carry a content of whatever type; selecting does not look at it.  The selected files come in
the order of their paths below the root, so the order in which a directory lists its entries does
not matter.
-/

namespace SymbolIndex

/-- An entry of a directory. -/
inductive Entry (α : Type) where
  | file (name : String) (content : α)
  | directory (name : String) (entries : List (Entry α))

/-- A file that has been selected (`SourceFile`). -/
structure FoundFile (α : Type) where
  /-- The path below the root, with slashes. -/
  relative : String
  content : α

namespace Entry

variable {α : Type}

/-- The name of an entry within its directory. -/
def name : Entry α → String
  | file name _ => name
  | directory name _ => name

mutual

/-- The selected files of an entry, `above` being the path of its directory with a slash at the end
(`find_files_recursive`). -/
def selected (selectors : List Selector) (exclusion : Exclusion) (above : String) :
    Entry α → List (FoundFile α)
  | file name content =>
    let relative := above ++ name
    if selectors.any (·.selects relative name) then [⟨relative, content⟩] else []
  | directory name entries =>
    if exclusion.excludes name then []
    else selectedAll selectors exclusion (above ++ name ++ "/") entries

/-- The selected files of some entries of one directory. -/
def selectedAll (selectors : List Selector) (exclusion : Exclusion) (above : String) :
    List (Entry α) → List (FoundFile α)
  | [] => []
  | entry :: later =>
    selected selectors exclusion above entry ++ selectedAll selectors exclusion above later

end

/-- The selected files below a root, in the order of their paths (`find_files`); none once the
search is cancelled. -/
def find (selectors : List Selector) (exclusion : Exclusion) (cancelled : Bool)
    (entries : List (Entry α)) : List (FoundFile α) :=
  if cancelled then []
  else
    (selectedAll selectors exclusion "" entries).mergeSort fun a b => decide (a.relative ≤ b.relative)

/-- The entries of a directory among some entries. -/
def subdirectory? (name : String) (entries : List (Entry α)) : Option (List (Entry α)) :=
  entries.findSome? fun entry =>
    match entry with
    | directory other inside => if other = name then some inside else none
    | file _ _ => none

/-- The entries of the directory that a path leads to from some entries, those of the directories
above being at hand for the way back. -/
def walk? : (above : List (List (Entry α))) → (here : List (Entry α)) → (parts : List String) →
    Option (List (Entry α))
  | _, here, [] => some here
  | above, here, part :: parts =>
    if part = "" ∨ part = "." then walk? above here parts
    else if part = ".." then
      match above with
      | [] => none
      | parent :: above => walk? above parent parts
    else
      match subdirectory? part here with
      | none => none
      | some inside => walk? (here :: above) inside parts

/-- The entries of the directory at a relative path. -/
def directory? (path : String) (entries : List (Entry α)) : Option (List (Entry α)) :=
  match path.toList with
  | [] => none
  | '/' :: _ => none
  | chars => walk? [] entries ((Text.splitOn '/' chars).map String.ofList)

/-- Some entries with one more file, or with an empty directory if there is no content, at the path
that the parts name.  Directories on the way are made. -/
def insert (content : Option α) : (parts : List String) → List (Entry α) → List (Entry α)
  | [], entries => entries
  | name :: parts, entries =>
    let others := entries.filter (·.name != name)
    match parts, content with
    | [], some content => others ++ [file name content]
    | parts, _ =>
      others ++ [directory name (insert content parts ((subdirectory? name entries).getD []))]

/-- The tree of some paths.  A path that ends in a slash names an empty directory. -/
def ofPaths (files : List (String × α)) : List (Entry α) :=
  files.foldl
    (fun entries (path, content) =>
      let parts := (Text.splitOn '/' path.toList).map String.ofList
      if parts.getLast? = some "" then insert none (parts.dropLast) entries
      else insert (some content) parts entries)
    []

end Entry

end SymbolIndex
