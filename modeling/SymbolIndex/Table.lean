/-!
Tables: values under names, at most one for each name, in the order of the names.

Names are ordered by their code points, which is also the order of their UTF-8 bytes.  The order is
strict and part of the type, so every name has one place.  Inserting under a name that is there
replaces its value (`find?_insert`), and erasing takes away just that name (`find?_erase`).
-/

namespace SymbolIndex

/-- A table, as its entries in the order of their names. -/
structure Table (α : Type) where
  entries : List (String × α)
  ordered : entries.Pairwise fun a b => a.1 < b.1

namespace Table

variable {α : Type}

/-- The table without entries. -/
def empty : Table α := ⟨[], .nil⟩

/-- The entries with a value put under a name. -/
def insertEntry (name : String) (value : α) : List (String × α) → List (String × α)
  | [] => [(name, value)]
  | (other, old) :: later =>
    if name < other then (name, value) :: (other, old) :: later
    else if name = other then (name, value) :: later
    else (other, old) :: insertEntry name value later

private theorem mem_insertEntry {name : String} {value : α} {entry : String × α}
    {entries : List (String × α)} (member : entry ∈ insertEntry name value entries) :
    entry = (name, value) ∨ entry ∈ entries := by
  induction entries with
  | nil => exact .inl (by simpa [insertEntry] using member)
  | cons first later ih =>
    obtain ⟨other, old⟩ := first
    unfold insertEntry at member
    split at member
    · exact List.mem_cons.mp member
    · split at member
      · rcases List.mem_cons.mp member with same | inside
        · exact .inl same
        · exact .inr (List.mem_cons_of_mem _ inside)
      · rcases List.mem_cons.mp member with same | inside
        · exact .inr (same ▸ List.mem_cons_self)
        · exact (ih inside).imp id (List.mem_cons_of_mem _)

private theorem insertEntry_ordered (name : String) (value : α) {entries : List (String × α)}
    (ordered : entries.Pairwise fun a b => a.1 < b.1) :
    (insertEntry name value entries).Pairwise fun a b => a.1 < b.1 := by
  induction entries with
  | nil => simp [insertEntry]
  | cons first later ih =>
    obtain ⟨other, old⟩ := first
    obtain ⟨below, laterOrdered⟩ := List.pairwise_cons.mp ordered
    unfold insertEntry
    split
    · rename_i before
      refine List.pairwise_cons.mpr ⟨fun entry member => ?_, ordered⟩
      rcases List.mem_cons.mp member with rfl | inside
      · exact before
      · exact String.lt_trans before (below entry inside)
    · rename_i notBefore
      split
      · rename_i same
        subst same
        exact List.pairwise_cons.mpr ⟨below, laterOrdered⟩
      · rename_i different
        refine List.pairwise_cons.mpr ⟨fun entry member => ?_, ih laterOrdered⟩
        rcases mem_insertEntry member with rfl | inside
        · by_cases after : other < name
          · exact after
          · exact absurd (String.le_antisymm (String.not_lt.mp after) (String.not_lt.mp notBefore))
              different
        · exact below entry inside

/-- The table with a value put under a name. -/
def insert (t : Table α) (name : String) (value : α) : Table α :=
  ⟨insertEntry name value t.entries, insertEntry_ordered name value t.ordered⟩

/-- The value under a name. -/
def find? (t : Table α) (name : String) : Option α :=
  (t.entries.find? (·.1 == name)).map Prod.snd

/-- The table without what is under a name. -/
def erase (t : Table α) (name : String) : Table α :=
  ⟨t.entries.filter (·.1 != name), t.ordered.filter _⟩

/-- The number of names. -/
def size (t : Table α) : Nat := t.entries.length

/-- Whether there is no name at all. -/
def isEmpty (t : Table α) : Bool := t.entries.isEmpty

/-- The table of some entries; of two under one name the later counts. -/
def ofList (entries : List (String × α)) : Table α :=
  entries.foldl (fun t (name, value) => t.insert name value) empty

/-- Under the name that was inserted stands the new value, under any other what stood there. -/
theorem find?_insert (t : Table α) (name query : String) (value : α) :
    (t.insert name value).find? query = if query = name then some value else t.find? query := by
  obtain ⟨entries, ordered⟩ := t
  simp only [find?, insert]
  clear ordered
  induction entries with
  | nil =>
    by_cases same : query = name
    · simp [insertEntry, same]
    · simp [insertEntry, same, Ne.symm same]
  | cons first later ih =>
    obtain ⟨other, old⟩ := first
    unfold insertEntry
    split
    · by_cases same : query = name
      · simp [same]
      · simp [same, Ne.symm same]
    · split
      · rename_i equal
        subst equal
        by_cases same : query = name
        · simp [same]
        · simp [same, Ne.symm same]
      · rename_i different
        by_cases here : other = query
        · subst here
          simp [Ne.symm different]
        · simpa [here] using ih

/-- Erasing takes away one name and no other. -/
theorem find?_erase (t : Table α) (name query : String) :
    (t.erase name).find? query = if query = name then none else t.find? query := by
  simp only [find?, erase]
  induction t.entries with
  | nil => simp
  | cons first later ih =>
    by_cases erased : first.1 = name
    · by_cases same : query = name
      · simp [same]
      · simpa [erased, same, Ne.symm same] using ih
    · by_cases here : first.1 = query
      · subst here
        simp [erased]
      · simpa [erased, here] using ih

end Table

end SymbolIndex
