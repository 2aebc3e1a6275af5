import Mathlib.Algebra.Order.Group.Multiset
import Mathlib.Logic.Relation
import Mathlib.Tactic.Abel
import SymbolIndex.Proofs.FileSelection

/-! The search for files. Directories list their entries in no particular order, and several of them are
read at a time. Whatever entry of whatever directory comes next, the files that have been found and those
that are still below the directories being read are the selected ones together, in some order. A search
cannot go on for ever and ends only when there is nothing left to look at; its files, put in the order of
their paths, are then the selection. -/
namespace SymbolIndex

namespace Entry

variable {α : Type}

/-- The same entries, listed in another order here or in any directory below. -/
inductive Rearranged : List (Entry α) → List (Entry α) → Prop where
  | nil : Rearranged [] []
  | file (name : String) (content : α) {later later' : List (Entry α)}
      (others : Rearranged later later') :
      Rearranged (.file name content :: later) (.file name content :: later')
  | directory (name : String) {inside inside' later later' : List (Entry α)}
      (below : Rearranged inside inside') (others : Rearranged later later') :
      Rearranged (.directory name inside :: later) (.directory name inside' :: later')
  | reorder {entries entries' entries'' : List (Entry α)} (same : Rearranged entries entries')
      (order : entries'.Perm entries'') : Rearranged entries entries''

/-- The selected files are the same in whatever order entries are listed. -/
theorem Rearranged.selectedAll_perm {selectors : List Selector} {exclusion : Exclusion}
    {entries entries' : List (Entry α)} (rearranged : Rearranged entries entries') (above : String) :
    (selectedAll selectors exclusion above entries).Perm
      (selectedAll selectors exclusion above entries') := by
  induction rearranged generalizing above with
  | nil => exact .refl _
  | file name content others ih =>
    rw [selectedAll, selectedAll]
    exact (ih above).append_left _
  | directory name below others ihBelow ihOthers =>
    rw [selectedAll, selectedAll]
    refine .append ?_ (ihOthers above)
    rw [selected, selected]
    split
    · exact .refl _
    · exact ihBelow _
  | reorder same order ih =>
    refine (ih above).trans ?_
    rw [selectedAll_eq, selectedAll_eq]
    exact order.flatMap_right _

mutual

/-- The number of entries that an entry is, with all that lie below it. -/
def size : Entry α → Nat
  | file _ _ => 1
  | directory _ entries => sizeAll entries + 1

/-- The number of some entries with all that lie below them. -/
def sizeAll : List (Entry α) → Nat
  | [] => 0
  | e :: later => size e + sizeAll later

end

theorem sizeAll_append_cons (earlier later : List (Entry α)) (e : Entry α) :
    sizeAll (earlier ++ e :: later) = size e + sizeAll (earlier ++ later) := by
  induction earlier with
  | nil => rw [List.nil_append, List.nil_append, sizeAll]
  | cons first earlier ih =>
    rw [List.cons_append, List.cons_append, sizeAll, sizeAll, ih, Nat.add_left_comm]

end Entry

/-- A directory that is being read: its path with a slash at the end, and the entries that have not been
looked at. -/
structure Visit (α : Type) where
  above : String
  remaining : List (Entry α)

/-- A search under way. -/
structure Search (α : Type) where
  /-- The directories that are being read. -/
  visits : List (Visit α)
  found : List (FoundFile α)

namespace Search

variable {α : Type}

/-- A search that has just come to a root. -/
def start (entries : List (Entry α)) : Search α := ⟨[⟨"", entries⟩], []⟩

/-- There is nothing left to look at. -/
def Complete (s : Search α) : Prop := ∀ v ∈ s.visits, v.remaining = []

section Steps

variable (selectors : List Selector) (exclusion : Exclusion)

/-- The files that are found by a look at an entry. -/
def taken (above : String) : Entry α → List (FoundFile α)
  | .file name content =>
    if selectors.any (·.selects (above ++ name) name) then [⟨above ++ name, content⟩] else []
  | .directory _ _ => []

/-- The directories that are read from then on. -/
def opened (above : String) : Entry α → List (Visit α)
  | .file _ _ => []
  | .directory name inside => if exclusion.excludes name then [] else [⟨above ++ name ++ "/", inside⟩]

/-- Any of the directories goes on with any of its entries. -/
inductive Step : Search α → Search α → Prop where
  | look (before after : List (Visit α)) (above : String) (earlier later : List (Entry α)) (e : Entry α)
      (found : List (FoundFile α)) :
      Step ⟨before ++ ⟨above, earlier ++ e :: later⟩ :: after, found⟩
        ⟨before ++ ⟨above, earlier ++ later⟩ :: after ++ opened exclusion above e,
          found ++ taken selectors above e⟩

/-- The selected files below the directories that are being read. -/
def pending (visits : List (Visit α)) : List (FoundFile α) :=
  visits.flatMap fun v => Entry.selectedAll selectors exclusion v.above v.remaining

variable {selectors exclusion}

/-- What an entry holds is found at once or lies below a directory that is read from then on. -/
theorem taken_append_pending (above : String) (e : Entry α) :
    taken selectors above e ++ pending selectors exclusion (opened exclusion above e) =
      Entry.selected selectors exclusion above e := by
  cases e with
  | file name content => exact List.append_nil _
  | directory name inside =>
    rw [Entry.selected, opened, taken, List.nil_append]
    split
    · rfl
    · exact List.append_nil _

theorem pending_append (visits more : List (Visit α)) :
    pending selectors exclusion (visits ++ more) =
      pending selectors exclusion visits ++ pending selectors exclusion more :=
  List.flatMap_append

theorem pending_cons (v : Visit α) (visits : List (Visit α)) :
    pending selectors exclusion (v :: visits) =
      Entry.selectedAll selectors exclusion v.above v.remaining ++ pending selectors exclusion visits :=
  List.flatMap_cons

/-- The files that are found and those that lie ahead are the same before and after a step, all together:
what an entry holds is found at once or lies below the directory that the entry is. -/
theorem Step.perm {s t : Search α} (step : Step selectors exclusion s t) :
    (s.found ++ pending selectors exclusion s.visits).Perm
      (t.found ++ pending selectors exclusion t.visits) := by
  obtain ⟨before, after, above, earlier, later, e, found⟩ := step
  have own : (Entry.selectedAll selectors exclusion above (earlier ++ e :: later)).Perm
      (taken selectors above e ++ pending selectors exclusion (opened exclusion above e) ++
        Entry.selectedAll selectors exclusion above (earlier ++ later)) := by
    rw [taken_append_pending, Entry.selectedAll_eq, Entry.selectedAll_eq, ← List.flatMap_cons]
    exact List.perm_middle.flatMap_right _
  rw [← Multiset.coe_eq_coe] at own ⊢
  simp only [pending_append, pending_cons, ← Multiset.coe_add] at own ⊢
  rw [own]
  abel

/-- So they are along a whole search. -/
theorem perm_of_reached {s t : Search α}
    (reached : Relation.ReflTransGen (Step selectors exclusion) s t) :
    (s.found ++ pending selectors exclusion s.visits).Perm
      (t.found ++ pending selectors exclusion t.visits) := by
  induction reached with
  | refl => exact .refl _
  | tail _ step ih => exact ih.trans step.perm

theorem pending_of_complete {s : Search α} (complete : s.Complete) :
    pending selectors exclusion s.visits = [] := by
  refine List.flatMap_eq_nil_iff.mpr fun v member => ?_
  rw [complete v member]
  rfl

/-- However a search goes, once it is complete it has found the selected files, in some order. -/
theorem found_perm {entries : List (Entry α)} {s : Search α}
    (reached : Relation.ReflTransGen (Step selectors exclusion) (start entries) s)
    (complete : s.Complete) :
    s.found.Perm (Entry.selectedAll selectors exclusion "" entries) := by
  have kept := perm_of_reached reached
  rw [pending_of_complete complete, List.append_nil, start, pending_cons] at kept
  simpa [pending] using kept.symm

/-- A search that cannot go on is complete. -/
theorem complete_or_step (s : Search α) : s.Complete ∨ ∃ t, Step selectors exclusion s t := by
  by_cases complete : s.Complete
  · exact .inl complete
  · right
    obtain ⟨visits, found⟩ := s
    obtain ⟨⟨above, remaining⟩, member, left⟩ : ∃ v ∈ visits, v.remaining ≠ [] := by
      simpa [Complete] using complete
    obtain ⟨before, after, rfl⟩ := List.append_of_mem member
    obtain ⟨e, later, rfl⟩ := List.exists_cons_of_ne_nil left
    exact ⟨_, .look before after above [] later e found⟩

/-- The number of entries that there are left, at most, to look at. -/
def weight (visits : List (Visit α)) : Nat := (visits.map fun v => Entry.sizeAll v.remaining).sum

theorem weight_append (visits more : List (Visit α)) :
    weight (visits ++ more) = weight visits + weight more := by
  rw [weight, List.map_append, List.sum_append, weight, weight]

theorem weight_cons (v : Visit α) (visits : List (Visit α)) :
    weight (v :: visits) = Entry.sizeAll v.remaining + weight visits := by
  rw [weight, List.map_cons, List.sum_cons, weight]

theorem weight_opened_lt (above : String) (e : Entry α) : weight (opened exclusion above e) < e.size := by
  cases e with
  | file name content => exact Nat.one_pos
  | directory name inside =>
    rw [opened, Entry.size]
    split
    · exact Nat.succ_pos _
    · exact Nat.lt_succ_self _

theorem Step.weight_lt {s t : Search α} (step : Step selectors exclusion s t) :
    weight t.visits < weight s.visits := by
  obtain ⟨before, after, above, earlier, later, e, found⟩ := step
  have opens : weight (opened exclusion above e) < e.size := weight_opened_lt above e
  have looked := Entry.sizeAll_append_cons earlier later e
  simp only [weight_append, weight_cons]
  omega

/-- No search goes on for ever. -/
theorem step_wf : WellFounded fun t s : Search α => Step selectors exclusion s t :=
  Subrelation.wf Step.weight_lt (measure fun s : Search α => weight s.visits).wf

end Steps

end Search

/-- Files with different paths come into one order, however they were listed. -/
theorem FoundFile.inOrder_of_perm {α : Type} {listed found : List (FoundFile α)}
    (same : listed.Perm found) (distinct : (found.map FoundFile.relative).Nodup) :
    inOrder listed = inOrder found := by
  have sorted (files : List (FoundFile α)) : (inOrder files).Perm files := List.mergeSort_perm files _
  refine eq_of_pairwise_lt ((sorted listed).trans (same.trans (sorted found).symm)) ?_
    (inOrder_ascends distinct)
  exact inOrder_ascends ((same.map FoundFile.relative).nodup_iff.mpr distinct)

/-- A step of a search for the files that the options select. -/
def Options.Step {α : Type} (options : Options) : Search α → Search α → Prop :=
  Search.Step (options.globs.map Selector.ofString)
    (Exclusion.ofList options.excludes options.withoutUsual)

/-- Of a tree in which every directory gives its entries names of their own, the files that the options
select are found, each once and in the order of the bytes of its path, and no others. The path of a file is
the one that is left of the way to it when the root is taken off. It makes no difference in which order
directories list their entries. Nor does it which entry a search looks at next: it goes on until it is
complete, which it is at some time, and then the files that it has found, whatever order they are in, come
into the same one. -/
theorem files_found_exactly {α : Type} (options : Options) {entries : List (Entry α)}
    (wellNamed : Entry.WellNamed entries) :
    options.Finds entries (Program.select options false entries) ∧
    (∀ root directories name content, Entry.Holds entries directories name content →
      Path.relativeTo root
          (String.ofList (Path.down root.toList ((directories ++ [name]).map String.toList))) =
        Entry.path directories name) ∧
    (∀ entries', Entry.Rearranged entries entries' →
      Program.select options false entries' = Program.select options false entries) ∧
    WellFounded (fun t s : Search α => options.Step s t) ∧
    ∀ s, Relation.ReflTransGen options.Step (.start entries) s →
      (s.Complete ∨ ∃ t, options.Step s t) ∧
        (s.Complete → ∀ listed, listed.Perm s.found →
          FoundFile.inOrder listed = Program.select options false entries) := by
  refine ⟨options.finds_select wellNamed, ?_, ?_, Search.step_wf, ?_⟩
  · intro root directories name content holds
    exact holds.relativeTo wellNamed root
  · intro entries' rearranged
    apply FoundFile.inOrder_of_perm (rearranged.selectedAll_perm "").symm
    exact wellNamed.nodup_selectedAll ""
  · intro s reached
    refine ⟨s.complete_or_step, ?_⟩
    intro complete listed order
    apply FoundFile.inOrder_of_perm (order.trans (Search.found_perm reached complete))
    exact wellNamed.nodup_selectedAll ""

/-- A tree with a directory that is not entered and a file of the same name. -/
def thicket : List (Entry Nat) :=
  [.file "b.liva" 1,
    .directory "lib" [.directory "Out" [.file "x.liva" 2], .file "out" 3, .file "A.liva" 4],
    .file "notes" 5]

/-- Options with a pattern for names and one for paths. -/
def foraging : Options :=
  { root := ".", globs := ["*.LIVA", ".\\lib\\o*"], mode := .check, keepDeclarations := true,
    format := .yaml, timeout := none, excludes := [], withoutUsual := false }

/-- The directory `Out` is not entered, since `out` is excluded; the file of that name is found. A capital
comes before any small letter. -/
theorem files_found_in_thicket :
    Entry.WellNamed thicket ∧ foraging.Finds thicket (Program.select foraging false thicket) ∧
      (Program.select foraging false thicket).map FoundFile.relative =
        ["b.liva", "lib/A.liva", "lib/out"] := by
  have wellNamed : Entry.WellNamed thicket := by
    refine .intro (by decide +kernel) (by decide +kernel) ?_
    intro outer inside listed
    obtain ⟨rfl, rfl⟩ : outer = "lib" ∧ inside = _ := by simpa [thicket] using listed
    refine .intro (by decide +kernel) (by decide +kernel) ?_
    intro outer inside listed
    obtain ⟨rfl, rfl⟩ : outer = "Out" ∧ inside = _ := by simpa using listed
    exact .intro (by decide +kernel) (by decide +kernel) (by simp)
  have finds := (files_found_exactly foraging wellNamed).1
  refine ⟨wellNamed, finds, ?_⟩
  have taken : (Entry.selectedAll (foraging.globs.map Selector.ofString)
      (Exclusion.ofList foraging.excludes foraging.withoutUsual) "" thicket).map FoundFile.relative =
        ["b.liva", "lib/out", "lib/A.liva"] := by decide +kernel
  have order : ((Program.select foraging false thicket).map FoundFile.relative).Perm
      ["b.liva", "lib/A.liva", "lib/out"] := by
    refine ((List.mergeSort_perm _ _).map FoundFile.relative).trans ?_
    rw [taken]
    decide +kernel
  have ascends : ((Program.select foraging false thicket).map FoundFile.relative).Pairwise
      fun a b => Text.bytes a.toList < Text.bytes b.toList := List.pairwise_map.mpr finds.ascending
  refine order.eq_of_pairwise ?_ ascends (by decide +kernel)
  intro a b _ _ before after
  exact absurd (List.lt_trans before after) (List.lt_irrefl _)

end SymbolIndex
