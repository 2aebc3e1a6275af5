import SymbolIndex.Files.Path
import SymbolIndex.Proofs.Occurrence

/-! Paths below a directory. Going down from a directory by names puts each name behind a slash, and what is
then left of the path without the directory is the names with slashes between them, however the directory
was written: what the directory begins with and its named parts stand at the beginning of the path again,
and neither the slash at its end nor a void part in it adds anything. -/
namespace SymbolIndex

namespace Path

/-- A name that an entry of a directory can have. -/
structure IsName (name : List Char) : Prop where
  nonempty : name ≠ []
  elsewhere : name ≠ ['.']
  noSlash : '/' ∉ name

instance (name : List Char) : Decidable (IsName name) :=
  decidable_of_iff (name ≠ [] ∧ name ≠ ['.'] ∧ '/' ∉ name)
    ⟨fun ⟨nonempty, elsewhere, noSlash⟩ => ⟨nonempty, elsewhere, noSlash⟩,
      fun ⟨nonempty, elsewhere, noSlash⟩ => ⟨nonempty, elsewhere, noSlash⟩⟩

/-- What stands between a directory and the name of an entry: a slash, unless the directory ends with one
or is not written at all. -/
def gap (directory : List Char) : List Char :=
  if directory = [] ∨ directory.getLast? = some '/' then [] else ['/']

/-- The path of an entry of a directory. -/
def entry (directory name : List Char) : List Char := directory ++ gap directory ++ name

/-- The path that some names lead to from a directory. -/
def down (directory : List Char) (names : List (List Char)) : List Char := names.foldl entry directory

theorem IsName.not_void {name : List Char} (isName : IsName name) : isVoid name = false := by
  simp [isVoid, isName.nonempty, isName.elsewhere]

theorem IsName.gap_entry {name : List Char} (isName : IsName name) (directory : List Char) :
    gap (entry directory name) = ['/'] := by
  apply if_neg
  rintro (none | slash)
  · exact isName.nonempty (List.append_eq_nil_iff.mp none).2
  · rw [entry, List.getLast?_append, List.getLast?_eq_some_getLast isName.nonempty] at slash
    have last : name.getLast isName.nonempty = '/' := Option.some.inj slash
    exact isName.noSlash (last ▸ List.getLast_mem isName.nonempty)

section Names

variable {names : List (List Char)} (areNames : ∀ name ∈ names, IsName name) (nonempty : names ≠ [])

include areNames nonempty

/-- The names are the parts of the text with slashes between them. -/
theorem parts_join : parts (join names) = names :=
  Text.splitOn_intercalate nonempty fun name member => (areNames name member).noSlash

/-- Going down by names, there is a slash between each name and the next. -/
theorem down_eq (directory : List Char) :
    down directory names = directory ++ gap directory ++ join names := by
  induction names generalizing directory with
  | nil => exact absurd rfl nonempty
  | cons name later ih =>
    obtain ⟨first, others⟩ := List.forall_mem_cons.mp areNames
    cases later with
    | nil => simp [down, entry, join]
    | cons next later =>
      have onward := ih others (List.cons_ne_nil next later) (entry directory name)
      rw [first.gap_entry] at onward
      calc down directory (name :: next :: later)
          = entry directory name ++ ['/'] ++ join (next :: later) := onward
        _ = directory ++ gap directory ++ join (name :: next :: later) := by
          simp [entry, join]

end Names

/-- Only a path that is not written at all begins with nothing and has no named part. -/
theorem eq_nil_of_nothing {directory : List Char} (lead : (split directory).1 = .nothing)
    (unnamed : (parts (split directory).2).filter (!isVoid ·) = []) : directory = [] := by
  have whole : (split directory).2 = directory := by
    fun_cases split directory <;> first | rfl | cases lead
  rw [whole] at unnamed
  have joined : join (parts directory) = directory := Text.intercalate_splitOn '/' directory
  obtain ⟨part, later, cut⟩ := List.exists_cons_of_ne_nil (Text.splitOn_ne_nil '/' directory)
  rw [parts, cut] at unnamed joined
  have void : part = [] ∨ part = ['.'] := by
    have notNamed := List.filter_eq_nil_iff.mp unnamed part List.mem_cons_self
    simpa [isVoid, Classical.or_iff_not_imp_left] using notNamed
  cases later with
  | nil =>
    rcases void with rfl | rfl
    · exact joined.symm
    · rw [← joined] at lead
      cases lead
  | cons next later =>
    rw [join, Text.intercalate_cons_cons] at joined
    rcases void with rfl | rfl <;> rw [← joined] at lead <;> cases lead

theorem split_join {names : List (List Char)} (areNames : ∀ name ∈ names, IsName name)
    (nonempty : names ≠ []) : split (join names) = (.nothing, join names) := by
  have named : ∀ part ∈ parts (join names), IsName part := by
    rw [parts_join areNames nonempty]
    exact areNames
  generalize join names = text at named
  fun_cases split text with
  | case1 body =>
    have void : [] ∈ parts ('/' :: body) := List.mem_cons_self
    exact absurd rfl (named [] void).nonempty
  | case2 => exact absurd rfl (named ['.'] List.mem_cons_self).elsewhere
  | case3 body =>
    have void : ['.'] ∈ parts ('.' :: '/' :: body) := List.mem_cons_self
    exact absurd rfl (named ['.'] void).elsewhere
  | case4 => rfl

/-- What a path begins with is settled before its first slash, unless that begins it. -/
theorem split_append {directory : List Char} (written : directory ≠ []) (more : List Char) :
    split (directory ++ '/' :: more) = ((split directory).1, (split directory).2 ++ '/' :: more) := by
  fun_cases split directory with
  | case1 body => rfl
  | case2 => rfl
  | case3 body => rfl
  | case4 directory noRoot noDot noHere =>
    generalize whole : directory ++ '/' :: more = text
    fun_cases split text with
    | case1 body =>
      obtain ⟨body, same, -⟩ := (List.append_eq_cons_iff.mp whole).resolve_left (written ·.1)
      exact absurd same (noRoot body)
    | case2 =>
      obtain ⟨same, -⟩ := (List.append_eq_singleton_iff.mp whole).resolve_left (written ·.1)
      exact absurd same noDot
    | case3 body =>
      obtain ⟨later, rfl, onward⟩ := (List.append_eq_cons_iff.mp whole).resolve_left (written ·.1)
      rcases List.append_eq_cons_iff.mp onward.symm with ⟨rfl, -⟩ | ⟨body, rfl, -⟩
      · exact absurd rfl noDot
      · exact absurd rfl (noHere body)
    | case4 => rfl

/-- What lies below a directory begins as the directory does, and its parts are those of the directory, as
far as they name anything, and the names. -/
theorem exists_parts_down (directory : List Char) {names : List (List Char)}
    (areNames : ∀ name ∈ names, IsName name) (nonempty : names ≠ []) :
    ∃ body before, split (down directory names) = ((split directory).1, body) ∧
      parts body = before ++ names ∧
      before.filter (!isVoid ·) = (parts (split directory).2).filter (!isVoid ·) ∧
      (directory = [] → before = []) := by
  have cut := parts_join areNames nonempty
  -- Below a directory that is followed by a slash.
  have behind {upper : List Char} (written : upper ≠ []) :
      split (upper ++ '/' :: join names) = ((split upper).1, (split upper).2 ++ '/' :: join names) ∧
        parts ((split upper).2 ++ '/' :: join names) = parts (split upper).2 ++ names :=
    ⟨split_append written _, by rw [parts, Text.splitOn_append_cons, ← parts, ← parts, cut]⟩
  rw [down_eq areNames nonempty]
  by_cases written : directory = []
  · subst written
    exact ⟨join names, [], split_join areNames nonempty, cut, rfl, fun _ => rfl⟩
  by_cases slashed : directory.getLast? = some '/'
  · rw [gap, if_pos (.inr slashed), List.append_nil]
    obtain ⟨upper, rfl⟩ := List.getLast?_eq_some_iff.mp slashed
    by_cases top : upper = []
    · subst top
      exact ⟨join names, [], rfl, cut, rfl, fun _ => rfl⟩
    · obtain ⟨below, divided⟩ := behind top
      have end' := split_append top []
      refine ⟨_, parts (split upper).2, ?_, divided, ?_, (absurd · written)⟩
      · rw [List.append_assoc, List.singleton_append, below, end']
      · rw [end', parts, parts, Text.splitOn_append_cons, List.filter_append]
        exact (List.append_nil _).symm
  · rw [gap, if_neg (not_or.mpr ⟨written, slashed⟩), List.append_assoc, List.singleton_append]
    obtain ⟨below, divided⟩ := behind written
    exact ⟨_, parts (split directory).2, below, divided, rfl, (absurd · written)⟩

/-- Behind the named parts of a beginning stands what follows it, but for what names nothing. -/
theorem after?_append (before ps : List (List Char)) :
    (after? (before.filter (!isVoid ·)) (before ++ ps)).map (·.dropWhile isVoid) =
      some (ps.dropWhile isVoid) := by
  induction before with
  | nil => rfl
  | cons part before ih =>
    cases void : isVoid part with
    | true =>
      have dropped (rest : List (List Char)) :
          (part :: rest).dropWhile isVoid = rest.dropWhile isVoid := List.dropWhile_cons_of_pos void
      rw [List.filter_cons_of_neg (by simp [void]), ← ih]
      cases before.filter (!isVoid ·) with
      | nil => exact congrArg some (dropped (before ++ ps))
      | cons name names => rw [List.cons_append, after?, dropped, after?]
    | false =>
      have kept : (part :: (before ++ ps)).dropWhile isVoid = part :: (before ++ ps) :=
        List.dropWhile_cons_of_neg (by simp [void])
      rw [List.filter_cons_of_pos (by simp [void]), List.cons_append, after?, kept]
      exact (congrArg _ (if_pos rfl)).trans ih

theorem dropWhile_names {names : List (List Char)} (areNames : ∀ name ∈ names, IsName name) :
    names.dropWhile isVoid = names := by
  cases names with
  | nil => rfl
  | cons name later =>
    have named := (areNames name List.mem_cons_self).not_void
    exact List.dropWhile_cons_of_neg (by simp [named])

theorem dropLastVoid_names {names : List (List Char)} (areNames : ∀ name ∈ names, IsName name) :
    dropLastVoid names = names := by
  have reversed : ∀ name ∈ names.reverse, IsName name := fun name member =>
    areNames name (List.mem_reverse.mp member)
  rw [dropLastVoid, dropWhile_names reversed, List.reverse_reverse]

/-- Seen from a directory, what some names lead to from there is the names with slashes between them,
however the directory is written. -/
theorem relativeTo_down (directory : String) {names : List (List Char)}
    (areNames : ∀ name ∈ names, IsName name) (nonempty : names ≠ []) :
    relativeTo directory (String.ofList (down directory.toList names)) = String.ofList (join names) := by
  obtain ⟨body, before, begins, cut, named, unwritten⟩ :=
    exists_parts_down directory.toList areNames nonempty
  rw [relativeTo, String.toList_ofList, begins]
  dsimp only
  split
  · rename_i bare
    have none : directory.toList = [] := eq_nil_of_nothing bare.1 bare.2
    rw [cut, unwritten none, List.nil_append, dropLastVoid_names areNames, bare.1]
    rfl
  · rw [if_neg (not_not_intro rfl), ← named, cut]
    obtain ⟨ps, found, rest⟩ := Option.map_eq_some_iff.mp (after?_append before names)
    rw [found]
    dsimp only
    rw [rest, dropWhile_names areNames, dropLastVoid_names areNames]

end Path

end SymbolIndex
