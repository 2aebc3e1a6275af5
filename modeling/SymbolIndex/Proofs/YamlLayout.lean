import SymbolIndex.Proofs.Printed
import SymbolIndex.Proofs.Scalars
import SymbolIndex.Report.Yaml

/-! The layout of YAML. How far to the right a line stands and the key that it begins with say what it
belongs to: a run of deeper lines ends at the first line that is none of them, and of sections that may
be left out the keys say which are there. -/
namespace SymbolIndex.Yaml

/-- Whether a text is a key of letters. -/
def isKey (key : String) : Bool := !key.toList.isEmpty && key.toList.all Char.isAlpha

theorem letter_of_isKey {key : String} (is : isKey key = true) : ∀ c ∈ key.toList, c.isAlpha = true := by
  rw [isKey, Bool.and_eq_true] at is
  exact List.all_eq_true.mp is.2

/-- Whether a text and some others are keys and it is none of them. -/
def isKeyApart (key : String) (keys : List String) : Bool :=
  isKey key && keys.all fun other => isKey other && key != other

theorem isKeyApart_iff {key : String} {keys : List String} :
    isKeyApart key keys = true ↔ isKey key = true ∧ ∀ other ∈ keys, isKey other = true ∧ key ≠ other := by
  simp [isKeyApart]

section Lines

/-- Whether a line has no line break in it. -/
def OneLine (line : String) : Prop := '\n' ∉ line.toList

instance (line : String) : Decidable (OneLine line) := inferInstanceAs (Decidable ('\n' ∉ line.toList))

theorem oneLine_append {a b : String} : OneLine (a ++ b) ↔ OneLine a ∧ OneLine b := by
  simp [OneLine, not_or]

theorem oneLine_indented {width : Nat} {text : String} : OneLine (indented width text) ↔ OneLine text := by
  simp [OneLine, indented, List.mem_replicate]

theorem oneLine_toString (n : Nat) : OneLine (toString n) := by
  intro newline
  rw [Nat.toString_eq_ofList_toDigits, String.toList_ofList] at newline
  cases isDigit_of_mem_toDigits newline

theorem oneLine_inlined (value : String) : OneLine (inlined value) := by
  rw [OneLine, inlined, String.toList_ofList]
  exact Scalar.not_mem_inlined value.toList

theorem oneLine_of_isKey {key : String} (is : isKey key = true) : OneLine key := by
  intro newline
  cases letter_of_isKey is '\n' newline

theorem oneLine_plain {width : Nat} {key value : String} (is : isKey key = true)
    (oneValue : OneLine value) : OneLine (plain width key value) := by
  rw [plain, oneLine_indented, oneLine_append, oneLine_append]
  exact ⟨⟨oneLine_of_isKey is, by decide⟩, oneValue⟩

theorem oneLine_scalar {width : Nat} {key : String} (is : isKey key = true) (value : String) :
    OneLine (scalar width key value) :=
  oneLine_plain is (oneLine_inlined value)

theorem oneLine_number {width : Nat} {key : String} (is : isKey key = true) (n : Nat) :
    OneLine (number width key n) :=
  oneLine_plain is (oneLine_toString n)

theorem oneLine_item {width : Nat} {line : String} (oneLine : OneLine line) :
    OneLine (item width line) := by
  rw [item, oneLine_indented, oneLine_append]
  exact ⟨by decide, oneLine⟩

/-- A line that may be left out has what it would have. -/
theorem forall_mem_optional {α : Type} {p : String → Prop} {write : α → String} (holds : ∀ x, p (write x))
    (there : Option α) : ∀ line ∈ (there.map write).toList, p line := by
  cases there with
  | none => exact nofun
  | some x => exact List.forall_mem_singleton.mpr (holds x)

theorem oneLine_list {width : Nat} {key : String} {lines : List String} (is : isKey key = true)
    (oneLine : ∀ line ∈ lines, OneLine line) : ∀ line ∈ list width key lines, OneLine line := by
  unfold list
  split
  · exact nofun
  · refine List.forall_mem_cons.mpr ⟨?_, oneLine⟩
    rw [opening, oneLine_indented, oneLine_append]
    exact ⟨oneLine_of_isKey is, by decide⟩

/-- Lines that are written one below the other are the parts between the line breaks. -/
theorem splitOn_join {lines : List String} (oneLine : ∀ line ∈ lines, OneLine line) :
    Text.splitOn '\n' (String.join (lines.map (· ++ "\n"))).toList = lines.map String.toList ++ [[]] := by
  rw [String.toList_join, List.flatMap_map]
  induction lines with
  | nil => rfl
  | cons line lines ih =>
    obtain ⟨first, later⟩ := List.forall_mem_cons.mp oneLine
    have ended : (line ++ "\n").toList = line.toList ++ ['\n'] := String.toList_append
    rw [List.flatMap_cons, ended, List.append_assoc, List.singleton_append, Text.splitOn_append first,
      ih later, List.map_cons, List.cons_append]

/-- Lines that are written one below the other can be told apart. -/
theorem join_inj {lines lines' : List String} (oneLine : ∀ line ∈ lines, OneLine line)
    (oneLine' : ∀ line ∈ lines', OneLine line)
    (same : String.join (lines.map (· ++ "\n")) = String.join (lines'.map (· ++ "\n"))) :
    lines = lines' := by
  have parts := congrArg (fun text => Text.splitOn '\n' text.toList) same
  rw [splitOn_join oneLine, splitOn_join oneLine'] at parts
  exact List.map_injective_iff.mpr (fun _ _ => String.toList_inj.mp) (List.append_cancel_right parts)

theorem indented_inj {width : Nat} {a b : String} (same : indented width a = indented width b) : a = b :=
  (String.append_right_inj _).mp same

theorem indented_indented (width more : Nat) (text : String) :
    indented width (indented more text) = indented (width + more) text := by
  rw [indented, indented, indented, ← String.append_assoc, ← String.ofList_append,
    List.replicate_append_replicate]

theorem indented_zero (text : String) : indented 0 text = text := String.empty_append

theorem plain_inj {width : Nat} {key a b : String} (same : plain width key a = plain width key b) : a = b :=
  (String.append_right_inj _).mp (indented_inj same)

theorem number_inj {width : Nat} {key : String} {m n : Nat}
    (same : number width key m = number width key n) : m = n := by
  have digits := plain_inj same
  rw [Nat.toString_eq_ofList_toDigits, Nat.toString_eq_ofList_toDigits, String.ofList_inj] at digits
  exact toDigits_inj digits

theorem inlined_inj {a b : String} (same : inlined a = inlined b) : a = b := by
  rw [inlined, inlined, String.ofList_inj] at same
  exact String.toList_inj.mp (Scalar.inlined_inj same)

theorem scalar_inj {width : Nat} {key a b : String} (same : scalar width key a = scalar width key b) :
    a = b :=
  inlined_inj (plain_inj same)

/-- A line that may be left out tells what it is written for. -/
theorem optional_inj {α : Type} {write : α → String} (inj : ∀ {x y}, write x = write y → x = y)
    {x y : Option α} (same : (x.map write).toList = (y.map write).toList) : x = y := by
  cases x with
  | none =>
    cases y with
    | none => rfl
    | some y => cases same
  | some x =>
    cases y with
    | none => cases same
    | some y => rw [inj (List.cons.inj same).1]

theorem figure_inj {width : Nat} {key : String} {m n : Nat}
    (same : figure width key m = figure width key n) : m = n := by
  unfold figure at same
  by_cases zero : m = 0 <;> by_cases zero' : n = 0
  · rw [zero, zero']
  · rw [if_pos zero, if_neg zero'] at same
    cases same
  · rw [if_neg zero, if_pos zero'] at same
    cases same
  · rw [if_neg zero, if_neg zero'] at same
    exact number_inj (List.cons.inj same).1

theorem item_inj {width : Nat} {a b : String} (same : item width a = item width b) : a = b :=
  (String.append_right_inj _).mp (indented_inj same)

theorem list_inj {width : Nat} {key : String} {a b : List String}
    (same : list width key a = list width key b) : a = b := by
  cases a with
  | nil =>
    cases b with
    | nil => rfl
    | cons line lines => cases same
  | cons line lines =>
    cases b with
    | nil => cases same
    | cons line' lines' => exact (List.cons.inj same).2

end Lines

/-- Whether a line is empty or stands at least so far to the right. -/
def From (width : Nat) (line : String) : Prop := line = "" ∨ ∃ text, line = indented width text

theorem from_indented {width further : Nat} (right : width ≤ further) (text : String) :
    From width (indented further text) := by
  refine .inr ⟨indented (further - width) text, ?_⟩
  rw [indented_indented, Nat.add_sub_cancel' right]

theorem From.mono {width further : Nat} {line : String} (stands : From further line)
    (right : width ≤ further) : From width line := by
  rcases stands with rfl | ⟨text, rfl⟩
  · exact .inl rfl
  · exact from_indented right text

/-- A line is not deeper than the character that it begins with. -/
theorem not_from_indented {width : Nat} {c : Char} {text : String} {later : List Char}
    (begins : text.toList = c :: later) (other : c ≠ ' ') : ¬ From (width + 1) (indented width text) := by
  rintro (empty | ⟨deeper, same⟩)
  · have none := congrArg String.toList empty
    simp [indented, begins] at none
  · -- Behind the same blanks one of the lines goes on with a blank.
    rw [← indented_indented width 1] at same
    have first := congrArg String.toList (indented_inj same)
    rw [begins] at first
    exact other (List.cons.inj (first.trans (by simp [indented]; rfl))).1

theorem not_from_item (width : Nat) (line : String) : ¬ From (width + 1) (item width line) := by
  have dash : ("- " ++ line).toList = '-' :: ' ' :: line.toList := by
    rw [String.toList_append]
    rfl
  exact not_from_indented dash (by decide)

/-- A line that begins with a key. -/
def Keyed (width : Nat) (key line : String) : Prop := ∃ value, line = indented width (key ++ (":" ++ value))

theorem keyed_plain (width : Nat) (key value : String) : Keyed width key (plain width key value) := by
  have colon : ": " = ":" ++ " " := rfl
  exact ⟨" " ++ value, by rw [plain, String.append_assoc, colon, String.append_assoc]⟩

theorem keyed_opening (width : Nat) (key : String) : Keyed width key (opening width key) :=
  ⟨"", by rw [opening, String.append_empty]⟩

theorem Keyed.unique {width : Nat} {key other line : String} (keyed : Keyed width key line)
    (keyed' : Keyed width other line) (isKey₁ : isKey key = true) (isKey₂ : isKey other = true) :
    key = other := by
  obtain ⟨value, rfl⟩ := keyed
  obtain ⟨value', same⟩ := keyed'
  have texts := congrArg String.toList (indented_inj same)
  simp only [String.toList_append] at texts
  obtain ⟨keys, -⟩ := Text.run_unique (letter_of_isKey isKey₁) (letter_of_isKey isKey₂) rfl rfl texts
  exact String.toList_inj.mp keys

/-- Whether a line begins with a letter. -/
def Lettered (line : String) : Prop := ∃ c ∈ line.toList.head?, c.isAlpha = true

theorem From.not_lettered {line : String} (stands : From 1 line) : ¬ Lettered line := by
  rintro ⟨c, first, letter⟩
  rcases stands with rfl | ⟨text, rfl⟩
  · cases first
  · have space : c = ' ' := by simpa [indented, eq_comm] using first
    rw [space] at letter
    cases letter

theorem not_lettered_item (line : String) : ¬ Lettered (item 0 line) := by
  rintro ⟨c, first, letter⟩
  rw [item, indented_zero, String.toList_append] at first
  cases first
  cases letter

theorem Keyed.lettered {key line : String} (keyed : Keyed 0 key line) (is : isKey key = true) :
    Lettered line := by
  obtain ⟨value, rfl⟩ := keyed
  rw [isKey, Bool.and_eq_true] at is
  rw [indented_zero]
  cases text : key.toList with
  | nil => simp [text] at is
  | cons c later =>
    rw [text, List.all_cons, Bool.and_eq_true] at is
    exact ⟨c, by simp [text], is.2.1⟩

section Runs

variable {under : String → Prop} {a a' b b' : List String}

/-- A run of lines ends at the first line that does not belong to it. -/
theorem split_run (inside : ∀ line ∈ a, under line) (inside' : ∀ line ∈ a', under line)
    (stops : ∀ line ∈ b.head?, ¬ under line) (stops' : ∀ line ∈ b'.head?, ¬ under line)
    (same : a ++ b = a' ++ b') : a = a' ∧ b = b' := by
  induction a generalizing a' with
  | nil =>
    cases a' with
    | nil => exact ⟨rfl, same⟩
    | cons line a' =>
      rw [List.nil_append] at same
      exact absurd (inside' line List.mem_cons_self) (stops line (by simp [same]))
  | cons line a ih =>
    cases a' with
    | nil =>
      rw [List.nil_append] at same
      exact absurd (inside line List.mem_cons_self) (stops' line (by simp [← same]))
    | cons line' a' =>
      obtain ⟨rfl, rest⟩ := List.cons.inj same
      obtain ⟨rfl, later⟩ :=
        ih (List.forall_mem_cons.mp inside).2 (List.forall_mem_cons.mp inside').2 rest
      exact ⟨rfl, later⟩

variable {width : Nat} {key : String} {keys : List String}

/-- Lines that are left out or begin with a key, and below it go on with others. -/
def Section (under : String → Prop) (width : Nat) (key : String) (lines : List String) : Prop :=
  lines = [] ∨ ∃ head body, lines = head :: body ∧ Keyed width key head ∧ ∀ line ∈ body, under line

/-- Lines that are left out or a single one with a key. -/
def Field (width : Nat) (key : String) (lines : List String) : Prop :=
  Section (fun _ => False) width key lines

theorem Field.section (field : Field width key a) : Section under width key a := by
  rcases field with none | ⟨head, body, lines, keyed, alone⟩
  · exact .inl none
  · exact .inr ⟨head, body, lines, keyed, fun line member => (alone line member).elim⟩

theorem field_single {line : String} (keyed : Keyed width key line) : Field width key [line] :=
  .inr ⟨line, [], rfl, keyed, nofun⟩

theorem field_optional {α : Type} {write : α → String} (keyed : ∀ x, Keyed width key (write x))
    (there : Option α) : Field width key (there.map write).toList := by
  cases there with
  | none => exact .inl rfl
  | some x => exact field_single (keyed x)

theorem field_figure (width : Nat) (key : String) (n : Nat) : Field width key (figure width key n) := by
  unfold figure
  split
  · exact .inl rfl
  · exact field_single (keyed_plain ..)

/-- Lines that begin with one of some keys, if there are any. -/
def Begins (width : Nat) (keys : List String) (lines : List String) : Prop :=
  ∀ line ∈ lines.head?, ∃ key ∈ keys, Keyed width key line

theorem Section.begins (first : Section under width key a) (rest : Begins width keys b) :
    Begins width (key :: keys) (a ++ b) := by
  rcases first with rfl | ⟨head, body, rfl, keyed, -⟩
  · intro line member
    obtain ⟨other, among, keyed⟩ := rest line member
    exact ⟨other, List.mem_cons_of_mem _ among, keyed⟩
  · rintro line ⟨⟩
    exact ⟨key, List.mem_cons_self, keyed⟩

theorem Section.begins_self (only : Section under width key a) : Begins width [key] a := by
  have none : Begins width [] [] := nofun
  simpa using only.begins none

theorem section_list (inside : ∀ line ∈ a, under line) : Section under width key (list width key a) := by
  unfold list
  split
  · exact .inl rfl
  · exact .inr ⟨_, a, rfl, keyed_opening width key, inside⟩

/-- Sections under different keys can be told apart. -/
theorem split_section (first : Section under width key a) (first' : Section under width key a')
    (rest : Begins width keys b) (rest' : Begins width keys b')
    (above : ∀ key line, isKey key = true → Keyed width key line → ¬ under line)
    (apart : isKeyApart key keys = true) (same : a ++ b = a' ++ b') : a = a' ∧ b = b' := by
  obtain ⟨isKey, others⟩ := isKeyApart_iff.mp apart
  have stops {b : List String} (rest : Begins width keys b) : ∀ line ∈ b.head?, ¬ under line := by
    intro line member
    obtain ⟨other, among, keyed⟩ := rest line member
    exact above other line (others other among).1 keyed
  have missing {b : List String} (rest : Begins width keys b) {head : String}
      (keyed : Keyed width key head) : head ∉ b.head? := by
    intro member
    obtain ⟨other, among, keyed'⟩ := rest head member
    exact (others other among).2 (keyed.unique keyed' isKey (others other among).1)
  rcases first with rfl | ⟨head, body, rfl, keyed, inside⟩ <;>
    rcases first' with rfl | ⟨head', body', rfl, keyed', inside'⟩
  · exact ⟨rfl, same⟩
  -- If one of the two is left out, what follows it would begin with the key of the other.
  · rw [List.nil_append] at same
    exact absurd (by simp [same]) (missing rest keyed')
  · rw [List.nil_append] at same
    exact absurd (by simp [← same]) (missing rest' keyed)
  · obtain ⟨rfl, later⟩ := List.cons.inj same
    obtain ⟨rfl, behind⟩ := split_run inside inside' (stops rest) (stops rest') later
    exact ⟨rfl, behind⟩

theorem split_field (first : Field width key a) (first' : Field width key a') (rest : Begins width keys b)
    (rest' : Begins width keys b') (apart : isKeyApart key keys = true) (same : a ++ b = a' ++ b') :
    a = a' ∧ b = b' :=
  split_section first first' rest rest' (fun _ _ _ _ => id) apart same

end Runs

/-- The lines of a list item: that of its dash, and those below it, which stand further to the right. -/
def Item (width : Nat) (lines : List String) : Prop :=
  ∃ first body, lines = item width first :: body ∧ ∀ line ∈ body, From (width + 1) line

theorem Item.from {width : Nat} {lines : List String} (isItem : Item width lines) :
    ∀ line ∈ lines, From width line := by
  obtain ⟨first, body, rfl, deeper⟩ := isItem
  refine List.forall_mem_cons.mpr ⟨from_indented (Nat.le_refl width) _, fun line member => ?_⟩
  exact (deeper line member).mono (Nat.le_succ width)

/-- Things that are written as items of a list can be told apart if single ones can. -/
theorem map_eq_of_items {α β : Type} {write : α → List String} {seen : α → β} {width : Nat}
    (items : ∀ x, Item width (write x)) {xs ys : List α}
    (tells : ∀ x ∈ xs, ∀ y ∈ ys, write x = write y → seen x = seen y)
    (same : xs.flatMap write = ys.flatMap write) : xs.map seen = ys.map seen := by
  have stops (xs : List α) : ∀ line ∈ (xs.flatMap write).head?, ¬ From (width + 1) line := by
    cases xs with
    | nil => exact nofun
    | cons x xs =>
      obtain ⟨first, body, lines, -⟩ := items x
      rw [List.flatMap_cons, lines]
      rintro line ⟨⟩
      exact not_from_item width first
  induction xs generalizing ys with
  | nil =>
    cases ys with
    | nil => rfl
    | cons y ys =>
      obtain ⟨first, body, lines, -⟩ := items y
      simp [lines] at same
  | cons x xs ih =>
    cases ys with
    | nil =>
      obtain ⟨first, body, lines, -⟩ := items x
      simp [lines] at same
    | cons y ys =>
      obtain ⟨first, body, lines, deeper⟩ := items x
      obtain ⟨first', body', lines', deeper'⟩ := items y
      rw [List.flatMap_cons, List.flatMap_cons, lines, lines', List.cons_append, List.cons_append] at same
      obtain ⟨dash, rest⟩ := List.cons.inj same
      obtain ⟨rfl, later⟩ := split_run deeper deeper' (stops xs) (stops ys) rest
      have here := tells x List.mem_cons_self y List.mem_cons_self
        (lines.trans (dash ▸ lines'.symm))
      have others := ih (fun x inXs y inYs => tells x (List.mem_cons_of_mem _ inXs) y
        (List.mem_cons_of_mem _ inYs)) later
      rw [List.map_cons, List.map_cons, here, others]

theorem eq_of_items {α : Type} {write : α → List String} {width : Nat} (items : ∀ x, Item width (write x))
    {xs ys : List α} (tells : ∀ x ∈ xs, ∀ y ∈ ys, write x = write y → x = y)
    (same : xs.flatMap write = ys.flatMap write) : xs = ys := by
  have seen : ∀ x ∈ xs, ∀ y ∈ ys, write x = write y → id x = id y := tells
  simpa using map_eq_of_items items seen same

end SymbolIndex.Yaml
