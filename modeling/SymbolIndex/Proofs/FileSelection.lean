import Mathlib.Data.List.Forall2
import Mathlib.Data.List.Nodup
import SymbolIndex.Proofs.FileByFile
import SymbolIndex.Proofs.RelativePaths
import SymbolIndex.Proofs.Wildcards

/-! Which files are selected. A file is known by the names of the directories above it and by its own name.
It is selected if none of those directories is excluded and some pattern covers its path, or its name if
there is no slash in the pattern. Names differ within each directory, so paths differ everywhere, and the
order of the paths leaves no choice in which order the files are listed. -/
namespace SymbolIndex

namespace Exclusion

/-- The same character, or the other case of the same ASCII letter. -/
def SameLetter (c d : Char) : Prop :=
  c = d ∨ 65 ≤ c.toNat ∧ c.toNat ≤ 90 ∧ d.toNat = c.toNat + 32 ∨
    65 ≤ d.toNat ∧ d.toNat ≤ 90 ∧ c.toNat = d.toNat + 32

end Exclusion

/-- A directory has one of the excluded names, but for the case of ASCII letters. -/
def Options.Excludes (options : Options) (directory : String) : Prop :=
  ∃ name ∈ (if options.withoutUsual then [] else Exclusion.usual) ++ options.excludes,
    List.Forall₂ Exclusion.SameLetter name.toList directory.toList

namespace Selector

/-- A pattern with slashes for its backslashes. -/
def slashed (pattern : String) : List Char := pattern.toList.map fun c => if c = '\\' then '/' else c

/-- A pattern as it is matched: with slashes only, and without one `./` in front. -/
inductive Normal (pattern : String) : List Char → Prop where
  | dotted {text : List Char} (whole : slashed pattern = '.' :: '/' :: text) : Normal pattern text
  | undotted (plain : ¬ ['.', '/'] <+: slashed pattern) : Normal pattern (slashed pattern)

/-- A pattern with a slash in it is for the path of a file, and any other is for its name. -/
def Chooses (pattern relative name : String) : Prop :=
  ∃ text, Normal pattern text ∧
    Glob.Covers (Text.bytes text) (Text.bytes (if '/' ∈ text then relative else name).toList)

end Selector

namespace Entry

variable {α : Type}

/-- A file that lies below some entries, by the names of the directories above it and its own. -/
inductive Holds : List (Entry α) → (directories : List String) → (name : String) → (content : α) →
    Prop where
  | file {entries : List (Entry α)} {name : String} {content : α}
      (listed : .file name content ∈ entries) : Holds entries [] name content
  | directory {entries inside : List (Entry α)} {outer : String} {directories : List String}
      {name : String} {content : α} (listed : .directory outer inside ∈ entries)
      (below : Holds inside directories name content) :
      Holds entries (outer :: directories) name content

/-- The entries of a directory have names, each its own, and so have those of the directories below. -/
inductive WellNamed : List (Entry α) → Prop where
  | intro {entries : List (Entry α)} (areNames : ∀ e ∈ entries, Path.IsName e.name.toList)
      (distinct : (entries.map name).Nodup)
      (below : ∀ outer inside, .directory outer inside ∈ entries → WellNamed inside) :
      WellNamed entries

/-- The path of a file. -/
def path (directories : List String) (name : String) : String := "/".intercalate (directories ++ [name])

end Entry

/-- The files that the options select below a root, in the order of the bytes of their paths: those below
no excluded directory that some pattern chooses, and no others. -/
structure Options.Finds {α : Type} (options : Options) (entries : List (Entry α))
    (found : List (FoundFile α)) : Prop where
  ascending : found.Pairwise fun a b => Text.bytes a.relative.toList < Text.bytes b.relative.toList
  exactly (file : FoundFile α) : file ∈ found ↔ ∃ directories name,
    Entry.Holds entries directories name file.content ∧ file.relative = Entry.path directories name ∧
      (∀ directory ∈ directories, ¬ options.Excludes directory) ∧
      ∃ pattern ∈ options.globs, Selector.Chooses pattern file.relative name

namespace Exclusion

theorem toNat_toLower (c : Char) :
    c.toLower.toNat = if 65 ≤ c.toNat ∧ c.toNat ≤ 90 then c.toNat + 32 else c.toNat := by
  by_cases capital : 65 ≤ c.toNat ∧ c.toNat ≤ 90
  · have moved : c.toLower = ⟨c.val + 32, _⟩ := dif_pos capital
    rw [if_pos capital, moved]
    show (c.val + 32).toNat = c.val.toNat + 32
    rw [UInt32.toNat_add]
    exact Nat.mod_eq_of_lt (Nat.lt_of_le_of_lt (Nat.add_le_add_right capital.2 32) (by decide))
  · have kept : c.toLower = c := dif_neg capital
    rw [if_neg capital, kept]

theorem toLower_eq_iff {c d : Char} : c.toLower = d.toLower ↔ SameLetter c d := by
  rw [← Char.toNat_inj, toNat_toLower, toNat_toLower, SameLetter, ← Char.toNat_inj]
  split <;> split <;> omega

theorem sameName_iff {a b : String} :
    sameName a b = true ↔ List.Forall₂ SameLetter a.toList b.toList := by
  rw [sameName, beq_iff_eq, ← List.forall₂_eq_eq_eq, List.forall₂_map_left_iff,
    List.forall₂_map_right_iff]
  simp only [toLower_eq_iff]

/-- A name that is there already in another case excludes no more than that one does. -/
theorem excludes_add (e : Exclusion) (name directory : String) :
    (e.add name).excludes directory = (e.excludes directory || sameName name directory) := by
  rw [add]
  split
  · rename_i there
    refine (Bool.or_eq_left_iff_imp.mpr fun same => ?_).symm
    obtain ⟨other, member, alike⟩ := List.any_eq_true.mp there
    refine List.any_eq_true.mpr ⟨other, member, ?_⟩
    rw [sameName, beq_iff_eq] at alike same ⊢
    exact alike.trans same
  · rw [excludes, List.any_append, List.any_cons, List.any_nil, Bool.or_false, excludes]

theorem excludes_foldl (e : Exclusion) (names : List String) (directory : String) :
    (names.foldl add e).excludes directory =
      (e.excludes directory || names.any (sameName · directory)) := by
  induction names generalizing e with
  | nil => exact (Bool.or_false _).symm
  | cons name names ih => rw [List.foldl_cons, ih, excludes_add, List.any_cons, Bool.or_assoc]

end Exclusion

theorem Options.excludes_iff {options : Options} {directory : String} :
    (Exclusion.ofList options.excludes options.withoutUsual).excludes directory = true ↔
      options.Excludes directory := by
  rw [Exclusion.ofList, Exclusion.excludes_foldl, Exclusion.excludes, ← List.any_append,
    List.any_eq_true]
  simp only [Exclusion.sameName_iff, Options.Excludes]

namespace Selector

theorem normal_iff {pattern : String} {text : List Char} :
    Normal pattern text ↔ (Text.afterPrefix? ['.', '/'] (slashed pattern)).getD (slashed pattern) = text := by
  cases cut : Text.afterPrefix? ['.', '/'] (slashed pattern) with
  | some rest =>
    have whole := Text.afterPrefix?_eq_some_iff.mp cut
    constructor
    · rintro (same | plain)
      · exact List.append_cancel_left (whole.symm.trans same)
      · exact absurd ⟨rest, whole.symm⟩ plain
    · rintro rfl
      exact .dotted whole
  | none =>
    have plain : ¬ ['.', '/'] <+: slashed pattern := by
      rintro ⟨rest, whole⟩
      rw [Text.afterPrefix?_eq_some_iff.mpr whole.symm] at cut
      cases cut
    constructor
    · rintro (same | _)
      · exact absurd ⟨text, same.symm⟩ plain
      · rfl
    · rintro rfl
      exact .undotted plain

/-- The selector of a pattern takes the files that the pattern chooses. -/
theorem selects_ofString {pattern relative name : String} :
    (ofString pattern).selects relative name = true ↔ Chooses pattern relative name := by
  simp only [Chooses, normal_iff, exists_eq_left']
  rw [selects, Glob.isMatch, Glob.matchesBytes_iff, Text.toList_toUTF8, Text.toList_toUTF8]
  simp only [ofString, String.toList_ofList, List.contains_iff_mem]
  rfl

end Selector

namespace Entry

section Trees

variable {α : Type} {selectors : List Selector} {exclusion : Exclusion}

theorem path_nil (name : String) : path [] name = name := String.intercalate_singleton

theorem append_path_cons (above outer : String) (directories : List String) (name : String) :
    above ++ path (outer :: directories) name = above ++ outer ++ "/" ++ path directories name := by
  have cut : path (outer :: directories) name = outer ++ "/" ++ path directories name :=
    String.intercalate_cons_of_ne_nil (by simp)
  rw [cut, String.append_assoc, String.append_assoc, String.append_assoc]

theorem toList_path (directories : List String) (name : String) :
    (path directories name).toList = Path.join ((directories ++ [name]).map String.toList) :=
  String.toList_intercalate

/-- The names above a file and its own are names. -/
theorem Holds.areNames {entries : List (Entry α)} {directories : List String} {name : String}
    {content : α} (holds : Holds entries directories name content) (wellNamed : WellNamed entries) :
    ∀ n ∈ (directories ++ [name]).map String.toList, Path.IsName n := by
  induction holds with
  | file listed =>
    obtain ⟨areNames, -, -⟩ := wellNamed
    exact List.forall_mem_singleton.mpr (areNames _ listed)
  | directory listed below ih =>
    obtain ⟨areNames, -, inner⟩ := wellNamed
    exact List.forall_mem_cons.mpr ⟨areNames _ listed, ih (inner _ _ listed)⟩

/-- Seen from a root, the path that leads to a file is the path of that file, however the root is
written. -/
theorem Holds.relativeTo {entries : List (Entry α)} {directories : List String} {name : String}
    {content : α} (holds : Holds entries directories name content) (wellNamed : WellNamed entries)
    (root : String) :
    Path.relativeTo root
        (String.ofList (Path.down root.toList ((directories ++ [name]).map String.toList))) =
      path directories name := by
  rw [Path.relativeTo_down root (holds.areNames wellNamed) (by simp), ← toList_path, String.ofList_toList]

theorem Holds.mono {entries more : List (Entry α)} {directories : List String} {name : String}
    {content : α} (holds : Holds entries directories name content) (within : entries ⊆ more) :
    Holds more directories name content := by
  cases holds with
  | file listed => exact .file (within listed)
  | directory listed below => exact .directory (within listed) below

theorem selectedAll_eq (above : String) (entries : List (Entry α)) :
    selectedAll selectors exclusion above entries =
      entries.flatMap (selected selectors exclusion above) := by
  induction entries with
  | nil => rfl
  | cons e later ih => rw [selectedAll, ih, List.flatMap_cons]

/-- A file is selected below some entries whose directory has the path `above`. -/
def Takes (selectors : List Selector) (exclusion : Exclusion) (above : String)
    (entries : List (Entry α)) (file : FoundFile α) : Prop :=
  ∃ directories name, Holds entries directories name file.content ∧
    file.relative = above ++ path directories name ∧
    (∀ directory ∈ directories, exclusion.excludes directory = false) ∧
    selectors.any (·.selects file.relative name) = true

theorem Takes.mono {above : String} {entries more : List (Entry α)} {file : FoundFile α}
    (takes : Takes selectors exclusion above entries file) (within : entries ⊆ more) :
    Takes selectors exclusion above more file := by
  obtain ⟨directories, name, holds, rest⟩ := takes
  exact ⟨directories, name, holds.mono within, rest⟩

/-- A search finds no file but those that are selected. -/
theorem takes_of_mem {file : FoundFile α} : (entries : List (Entry α)) → (above : String) →
    file ∈ selectedAll selectors exclusion above entries →
      Takes selectors exclusion above entries file
  | [], _, found => absurd found List.not_mem_nil
  | .file name content :: later, above, found => by
    rw [selectedAll, List.mem_append] at found
    rcases found with here | behind
    · rw [selected] at here
      split at here
      · rename_i selects
        obtain rfl := List.mem_singleton.mp here
        exact ⟨[], name, .file List.mem_cons_self, rfl, nofun, selects⟩
      · exact absurd here List.not_mem_nil
    · exact (takes_of_mem later above behind).mono (List.subset_cons_self _ later)
  | .directory outer inside :: later, above, found => by
    rw [selectedAll, List.mem_append] at found
    rcases found with below | behind
    · rw [selected] at below
      split at below
      · exact absurd below List.not_mem_nil
      · rename_i entered
        obtain ⟨directories, name, holds, relative, free, selects⟩ := takes_of_mem inside _ below
        refine ⟨outer :: directories, name, .directory List.mem_cons_self holds, ?_, ?_, selects⟩
        · rw [relative, append_path_cons]
        · exact List.forall_mem_cons.mpr ⟨eq_false_of_ne_true entered, free⟩
    · exact (takes_of_mem later above behind).mono (List.subset_cons_self _ later)

/-- A search does not miss a selected file, however deep it lies. -/
theorem mem_of_holds {entries : List (Entry α)} {directories : List String} {name : String}
    {content : α} (holds : Holds entries directories name content) {above : String}
    (free : ∀ directory ∈ directories, exclusion.excludes directory = false)
    (selects : selectors.any (·.selects (above ++ path directories name) name) = true) :
    ⟨above ++ path directories name, content⟩ ∈ selectedAll selectors exclusion above entries := by
  induction holds generalizing above with
  | file listed =>
    rw [selectedAll_eq]
    refine List.mem_flatMap_of_mem listed ?_
    rw [path_nil] at selects ⊢
    rw [selected, if_pos selects]
    exact List.mem_singleton_self _
  | @directory _ _ outer directories name _ listed below ih =>
    obtain ⟨entered, free⟩ := List.forall_mem_cons.mp free
    rw [append_path_cons] at selects ⊢
    rw [selectedAll_eq]
    refine List.mem_flatMap_of_mem listed ?_
    rw [selected, if_neg (ne_true_of_eq_false entered)]
    exact ih free selects

theorem mem_selectedAll {above : String} {entries : List (Entry α)} {file : FoundFile α} :
    file ∈ selectedAll selectors exclusion above entries ↔
      Takes selectors exclusion above entries file := by
  constructor
  · exact takes_of_mem entries above
  · rintro ⟨directories, name, holds, relative, free, selects⟩
    rw [relative] at selects
    obtain ⟨_, content⟩ := file
    obtain rfl : _ = above ++ path directories name := relative
    exact mem_of_holds holds free selects

/-- Behind the path of a directory comes the name of the entry that a file is or lies below. -/
theorem exists_of_mem_selected {e : Entry α} (isName : Path.IsName e.name.toList) {above : String}
    {file : FoundFile α} (found : file ∈ selected selectors exclusion above e) :
    ∃ below, file.relative.toList = above.toList ++ below ∧
      (Path.parts below).head? = some e.name.toList := by
  have noSlash := isName.noSlash
  cases e with
  | file name content =>
    rw [Entry.name] at noSlash
    rw [selected] at found
    split at found
    · obtain rfl := List.mem_singleton.mp found
      refine ⟨name.toList, String.toList_append, ?_⟩
      rw [Path.parts, Text.splitOn_of_not_mem noSlash]
      rfl
    · exact absurd found List.not_mem_nil
  | directory outer inside =>
    rw [Entry.name] at noSlash
    rw [selected] at found
    split at found
    · exact absurd found List.not_mem_nil
    · obtain ⟨directories, name, -, relative, -⟩ := mem_selectedAll.mp found
      refine ⟨outer.toList ++ '/' :: (path directories name).toList, ?_, ?_⟩
      · rw [relative]
        simp
      · rw [Path.parts, Text.splitOn_append noSlash]
        rfl

/-- The selected files have different paths. -/
theorem WellNamed.nodup_selectedAll {entries : List (Entry α)} (wellNamed : WellNamed entries)
    (above : String) : ((selectedAll selectors exclusion above entries).map FoundFile.relative).Nodup := by
  induction wellNamed generalizing above with
  | intro areNames distinct below ih =>
    rw [selectedAll_eq, List.map_flatMap, List.nodup_flatMap]
    constructor
    · intro e listed
      cases e with
      | file name content =>
        rw [selected]
        split
        · exact List.nodup_singleton _
        · exact List.nodup_nil
      | directory outer inside =>
        rw [selected]
        split
        · exact List.nodup_nil
        · exact ih outer inside listed _
    · refine (List.pairwise_map.mp distinct).imp_of_mem fun {e e'} listed listed' other => ?_
      intro relative inFirst inSecond
      obtain ⟨file, found, rfl⟩ := List.mem_map.mp inFirst
      obtain ⟨file', found', same⟩ := List.mem_map.mp inSecond
      obtain ⟨below, whole, first⟩ := exists_of_mem_selected (areNames e listed) found
      obtain ⟨below', whole', first'⟩ := exists_of_mem_selected (areNames e' listed') found'
      rw [same, whole] at whole'
      obtain rfl := List.append_cancel_left whole'
      rw [first] at first'
      exact other (String.toList_inj.mp (Option.some.inj first'))

end Trees

end Entry

/-- A selection takes the files that it is to take, in the one order that they have. -/
theorem Options.finds_select {α : Type} (options : Options) {entries : List (Entry α)}
    (wellNamed : Entry.WellNamed entries) : options.Finds entries (Program.select options false entries) where
  ascending :=
    (FoundFile.inOrder_ascends (wellNamed.nodup_selectedAll "")).imp fun before => Text.bytes_lt before
  exactly file := by
    refine FoundFile.mem_inOrder.trans (Entry.mem_selectedAll.trans ?_)
    refine exists_congr fun directories => exists_congr fun name => ?_
    refine and_congr_right' (and_congr ?_ (and_congr ?_ ?_))
    · rw [String.empty_append]
    · refine forall₂_congr fun directory _ => ?_
      rw [← Options.excludes_iff, Bool.not_eq_true]
    · rw [List.any_map, List.any_eq_true]
      exact exists_congr fun pattern => and_congr_right' Selector.selects_ofString

end SymbolIndex
