/-!
Directories that are never entered, by name.  The case of ASCII letters does not matter.
-/

namespace SymbolIndex

/-- The names of the directories that are not entered (`ExclusionFilter`). -/
structure Exclusion where
  names : List String
  deriving DecidableEq, Repr

namespace Exclusion

/-- The directories that hold no sources of one's own. -/
def usual : List String :=
  [".git", ".hg", ".svn", ".idea", ".vscode", ".cache", "node_modules", "target", "out", "dist",
    "build", "coverage"]

/-- Whether two names are the same but for the case of ASCII letters. -/
def sameName (a b : String) : Bool := a.toList.map Char.toLower == b.toList.map Char.toLower

/-- Whether a directory is not entered (`is_excluded`). -/
def excludes (e : Exclusion) (name : String) : Bool := e.names.any (sameName · name)

/-- The exclusion with one more name, unless it has that already. -/
def add (e : Exclusion) (name : String) : Exclusion :=
  if e.excludes name then e else ⟨e.names ++ [name]⟩

/-- The exclusion of some names, and of the usual ones unless they are switched off. -/
def ofList (names : List String) (withoutUsual : Bool) : Exclusion :=
  names.foldl add ⟨if withoutUsual then [] else usual⟩

end Exclusion

end SymbolIndex
