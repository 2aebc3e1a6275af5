import SymbolIndex.Proofs.ScalarReading
import SymbolIndex.Proofs.YamlEntries

/-! A reader of the items of a YAML list, as far as an item is a mapping of words to scalars. A value
stands behind the colon of its key or, as a literal block, below it, and the indentation alone says which
lines stand below which. So the lines of a block come back as they were before they were indented, and
what the breaks behind them come to is a matter of the header. -/
namespace SymbolIndex

namespace YamlItem

/-- What becomes of the line breaks at the end of a block: all are dropped, all but one, or none. -/
inductive Chomping where
  | strip
  | clip
  | keep
  deriving DecidableEq

section Lines

/-- The lines of a text of which each is ended by a break. -/
def lines? (s : List Char) : Option (List (List Char)) :=
  let parts := Text.splitOn '\n' s
  if parts.getLast? = some [] then some parts.dropLast else none

/-- The number of spaces that a line begins with. -/
def indentation (line : List Char) : Nat := (line.takeWhile (· == ' ')).length

/-- Whether a line holds nothing but spaces. -/
def isEmpty (line : List Char) : Bool := line.all (· == ' ')

/-- Whether a line belongs to what stands above it at a column. -/
def isBelow (column : Nat) (line : List Char) : Bool := isEmpty line || column < indentation line

/-- Some lines, each with those that stand below it at a column. The lines that stand below none of them
come first. -/
def nested (column : Nat) : List (List Char) → List (List Char) × List (List Char × List (List Char))
  | [] => ([], [])
  | line :: later =>
    let (below, entries) := nested column later
    if isBelow column line then (line :: below, entries) else ([], (line, below) :: entries)

end Lines

section Blocks

/-- What the header of a literal block asks for. -/
def header? (s : List Char) : Option Chomping :=
  match Text.dropEndWhile Text.isGap (s.dropWhile Text.isGap) with
  | ['|'] => some .clip
  | ['|', '-'] => some .strip
  | ['|', '+'] => some .keep
  | _ => none

/-- The text of some lines, up to the last that is not empty and with the breaks that are left. -/
def chomped (chomping : Chomping) (lines : List (List Char)) : List Char :=
  let body := lines.rdropWhile List.isEmpty
  match chomping with
  | .strip => ['\n'].intercalate body
  | .clip => body.flatMap (· ++ ['\n'])
  | .keep => lines.flatMap (· ++ ['\n'])

/-- How far the lines of a block are indented: as far as the first that is not empty. -/
def blockIndentation (lines : List (List Char)) : Nat :=
  match lines.find? (!isEmpty ·) with
  | some line => indentation line
  | none => (lines.map indentation).foldl max 0

/-- The text of a literal block. -/
def literal? (chomping : Chomping) (lines : List (List Char)) : Option (List Char) :=
  let width := blockIndentation lines
  let indents := lines.all fun line => isEmpty line || width ≤ indentation line
  let leads := (lines.takeWhile isEmpty).all (indentation · ≤ width)
  let content := lines.map (List.drop width)
  if indents && leads && content.all (List.all · YamlScalar.isPrintable) then
    some (chomped chomping content)
  else none

end Blocks

section Fields

/-- The word that a line has as its key at a column, and what stands behind the colon. -/
def keyed? (column : Nat) (line : List Char) : Option (String × List Char) :=
  let key := (line.drop column).takeWhile Char.isAlpha
  match (line.drop column).dropWhile Char.isAlpha with
  | ':' :: value =>
    if indentation line = column && !key.isEmpty && (YamlScalar.typed? key).isNone
        && value.head?.all Text.isGap then
      some (String.ofList key, value)
    else none
  | _ => none

/-- A key and its value, of a line and the lines below it. -/
def field? (column : Nat) (line : List Char) (below : List (List Char)) :
    Option (String × YamlScalar) := do
  let (key, value) ← keyed? column line
  match header? value with
  | some chomping => return (key, .text (← literal? chomping below))
  | none => if below.all isEmpty then return (key, ← YamlScalar.read? value) else none

/-- The fields of some lines, of which none may stand below nothing. -/
def fields? (column : Nat) (lines : List (List Char)) : Option (List (String × YamlScalar)) :=
  match nested column lines with
  | ([], entries) => entries.mapM fun (line, below) => field? column line below
  | _ => none

/-- The lines of an item with spaces in place of its dash, which stands at a column. -/
def undashed? (column : Nat) : List (List Char) → Option (List (List Char))
  | [] => none
  | line :: later =>
    (Text.afterPrefix? (List.replicate column ' ' ++ ['-', ' ']) line).map fun rest =>
      (List.replicate (column + 2) ' ' ++ rest) :: later

/-- Reads an item of a list whose dash stands at a column. No key may come twice. -/
def read? (column : Nat) (s : List Char) : Option (List (String × YamlScalar)) := do
  let lines ← undashed? column (← lines? s)
  let fields ← fields? (column + 2) lines
  if (fields.map Prod.fst).Nodup then return fields else none

end Fields

section Lines

/-- Lines that are written one below the other are read back. -/
theorem lines?_join {lines : List String} (oneLine : ∀ line ∈ lines, Yaml.OneLine line) :
    lines? (String.join (lines.map (· ++ "\n"))).toList = some (lines.map String.toList) := by
  unfold lines?
  simp only [Yaml.splitOn_join oneLine, List.getLast?_concat, List.dropLast_concat, if_true]

theorem toList_indented (width : Nat) (text : String) :
    (Yaml.indented width text).toList = List.replicate width ' ' ++ text.toList := by
  rw [Yaml.indented, String.toList_append, String.toList_ofList]

/-- An item is read as if its dash were two spaces. -/
theorem undashed?_item (column : Nat) (text : String) (later : List String) :
    undashed? column ((Yaml.item column text :: later).map String.toList) =
      some ((Yaml.indented (column + 2) text :: later).map String.toList) := by
  have dashed : (Yaml.item column text).toList =
      List.replicate column ' ' ++ ['-', ' '] ++ text.toList := by
    rw [Yaml.item, toList_indented, String.toList_append, List.append_assoc]
    rfl
  rw [List.map_cons, undashed?, Text.afterPrefix?_eq_some_iff.mpr dashed, Option.map_some, List.map_cons,
    toList_indented]

theorem toList_plain (column : Nat) (key value : String) : (Yaml.plain column key value).toList =
    List.replicate column ' ' ++ (key.toList ++ ':' :: ' ' :: value.toList) := by
  rw [Yaml.plain, toList_indented, String.toList_append, String.toList_append, List.append_assoc]
  rfl

theorem indentation_append (width : Nat) (line : List Char) :
    indentation (List.replicate width ' ' ++ line) = width + indentation line := by
  rw [indentation, List.takeWhile_append_of_pos (by simp), List.length_append, List.length_replicate,
    indentation]

section Indented

variable {c : Char} (filled : c ≠ ' ')
include filled

theorem indentation_indented (width : Nat) (s : List Char) :
    indentation (List.replicate width ' ' ++ c :: s) = width := by
  have stops : (c :: s).takeWhile (· == ' ') = [] :=
    List.takeWhile_cons_of_neg (by simpa using filled)
  rw [indentation_append, indentation, stops, List.length_nil, Nat.add_zero]

theorem isEmpty_indented (width : Nat) (s : List Char) :
    isEmpty (List.replicate width ' ' ++ c :: s) = false := by
  simp [isEmpty, filled]

/-- A line that is no further to the right begins something new. -/
theorem isBelow_indented {column width : Nat} (s : List Char) :
    isBelow column (List.replicate width ' ' ++ c :: s) = decide (column < width) := by
  rw [isBelow, isEmpty_indented filled, indentation_indented filled, Bool.false_or]

end Indented

theorem nested_cons {column : Nat} {line : List Char} (begins : isBelow column line = false)
    (later : List (List Char)) : nested column (line :: later) =
      ([], (line, (nested column later).1) :: (nested column later).2) := by
  rw [nested, begins]
  rfl

theorem nested_of_below {column : Nat} {lines : List (List Char)}
    (below : ∀ line ∈ lines, isBelow column line = true) : nested column lines = (lines, []) := by
  induction lines with
  | nil => rfl
  | cons line later ih =>
    obtain ⟨first, others⟩ := List.forall_mem_cons.mp below
    rw [nested, ih others, first]
    rfl

end Lines

section Fields

theorem header?_cons {c : Char} (filled : Text.isGap c = false) (other : c ≠ '|') (s : List Char) :
    header? (c :: s) = none := by
  have stops : (c :: s).dropWhile Text.isGap = c :: s := List.dropWhile_cons_of_neg (by simp [filled])
  unfold header?
  rw [stops, Text.dropEndWhile_cons filled]
  split
  case h_4 => rfl
  all_goals next same => exact absurd (List.cons.inj same).1 other

/-- The header of a block is no scalar. -/
theorem header?_of_read? {s : List Char} {v : YamlScalar} (reads : YamlScalar.read? s = some v) :
    header? s = none := by
  by_contra header
  obtain ⟨bar, starts⟩ : ∃ bar, s.dropWhile Text.isGap = '|' :: bar := by
    obtain ⟨behind, whole⟩ : Text.dropEndWhile Text.isGap (s.dropWhile Text.isGap) <+:
        s.dropWhile Text.isGap := List.rdropWhile_prefix Text.isGap _
    unfold header? at header
    split at header
    case h_4 => exact absurd rfl header
    all_goals
      next same =>
        rw [same] at whole
        exact ⟨_, whole.symm⟩
  unfold YamlScalar.read? at reads
  rw [starts] at reads
  change YamlScalar.plain? ('|' :: bar) = some v at reads
  rw [YamlScalar.plain?_of_indicator rfl (by decide) (by decide)] at reads
  exact nomatch reads

variable {column : Nat} {key : String} (is : Yaml.isKey key = true)
include is

theorem exists_of_isKey : ∃ c later, key.toList = c :: later ∧ c ≠ ' ' := by
  have letters := Yaml.letter_of_isKey is
  rw [Yaml.isKey, Bool.and_eq_true] at is
  obtain ⟨c, later, text⟩ := List.exists_cons_of_ne_nil (by simpa using is.1 : key.toList ≠ [])
  refine ⟨c, later, text, ?_⟩
  rintro rfl
  exact absurd (letters ' ' (text ▸ List.mem_cons_self)) (by decide)

theorem indentation_plain (value : String) :
    indentation (Yaml.plain column key value).toList = column := by
  obtain ⟨c, later, text, filled⟩ := exists_of_isKey is
  rw [toList_plain, text, List.cons_append, indentation_indented filled]

theorem keyed?_plain (word : YamlScalar.typed? key.toList = none) (value : String) :
    keyed? column (Yaml.plain column key value).toList = some (key, ' ' :: value.toList) := by
  have letters := Yaml.letter_of_isKey is
  have behind : (Yaml.plain column key value).toList.drop column =
      key.toList ++ ':' :: ' ' :: value.toList := by
    rw [toList_plain, List.drop_left' List.length_replicate]
  have taken : (key.toList ++ ':' :: ' ' :: value.toList).takeWhile Char.isAlpha = key.toList := by
    rw [List.takeWhile_append_of_pos letters]
    exact List.append_nil _
  have left : (key.toList ++ ':' :: ' ' :: value.toList).dropWhile Char.isAlpha =
      ':' :: ' ' :: value.toList := List.dropWhile_append_of_pos letters
  have nonempty : key.toList.isEmpty = false := by
    obtain ⟨c, later, text, -⟩ := exists_of_isKey is
    rw [text]
    rfl
  unfold keyed?
  rw [behind, taken, left]
  simp [indentation_plain is, nonempty, word, Text.isGap]

/-- A key begins a new field. -/
theorem isBelow_plain (value : String) :
    isBelow column (Yaml.plain column key value).toList = false := by
  obtain ⟨c, later, text, filled⟩ := exists_of_isKey is
  rw [toList_plain, text, List.cons_append, isBelow_indented filled, decide_eq_false (Nat.lt_irrefl _)]

/-- What stands behind a key is a scalar if nothing stands below it and it is no header. -/
theorem field?_plain (word : YamlScalar.typed? key.toList = none) {value : String}
    (bare : header? value.toList = none) :
    field? column (Yaml.plain column key value).toList [] =
      (YamlScalar.read? value.toList).map fun v => (key, v) := by
  have spaced : header? (' ' :: value.toList) = none := bare
  have same : YamlScalar.read? (' ' :: value.toList) = YamlScalar.read? value.toList := rfl
  unfold field?
  rw [keyed?_plain is word]
  simp only [Option.bind_eq_bind, Option.bind_some, spaced, same, Option.map_eq_bind]
  rfl

/-- A literal block is read under its key. -/
theorem field?_block (word : YamlScalar.typed? key.toList = none) (below : List (List Char)) :
    field? column (Yaml.plain column key "|").toList below =
      (literal? .clip below).map fun t => (key, .text t) := by
  unfold field?
  rw [keyed?_plain is word]
  have header : header? (' ' :: "|".toList) = some .clip := by decide
  simp only [Option.bind_eq_bind, Option.bind_some, header, Option.map_eq_bind]
  rfl

end Fields

section Blocks

/-- A line as a block has it. -/
def shifted (width : Nat) (line : List Char) : List Char :=
  if line.isEmpty then [] else List.replicate width ' ' ++ line

theorem drop_shifted (width : Nat) (line : List Char) : (shifted width line).drop width = line := by
  unfold shifted
  split
  · next empty => rw [List.isEmpty_iff.mp empty, List.drop_nil]
  · exact List.drop_left' List.length_replicate

theorem le_indentation_shifted (width : Nat) (line : List Char) :
    (isEmpty (shifted width line) || width ≤ indentation (shifted width line)) = true := by
  unfold shifted
  split
  · rfl
  · rw [indentation_append, Bool.or_eq_true, decide_eq_true_eq]
    exact .inr (Nat.le_add_right width _)

theorem isBelow_shifted {column width : Nat} (deeper : column < width) (line : List Char) :
    isBelow column (shifted width line) = true := by
  rcases (Bool.or_eq_true ..).mp (le_indentation_shifted width line) with empty | further
  · rw [isBelow, empty, Bool.true_or]
  · have right := deeper.trans_le (of_decide_eq_true further)
    rw [isBelow, decide_eq_true right, Bool.or_true]

theorem toList_block (column : Nat) (key value : String) :
    (Yaml.block column key value).map String.toList = (Yaml.plain column key "|").toList ::
      (Scalar.blockLines value.toList).map (shifted (column + 2)) := by
  rw [Yaml.block, List.map_cons, List.map_map]
  refine congrArg _ (List.map_congr_left fun line _ => ?_)
  rw [Function.comp_apply, shifted]
  split
  · rfl
  · rw [toList_indented, String.toList_ofList]

/-- The lines of a block come back if the first has no space in front. -/
theorem literal?_shifted {first : List Char} (begins : ∃ c later, first = c :: later ∧ c ≠ ' ')
    (width : Nat) (lines : List (List Char)) (chomping : Chomping) :
    literal? chomping ((first :: lines).map (shifted width)) =
      if (first :: lines).all (List.all · YamlScalar.isPrintable) then
        some (chomped chomping (first :: lines))
      else none := by
  obtain ⟨c, later, rfl, filled⟩ := begins
  have head : shifted width (c :: later) = List.replicate width ' ' ++ c :: later := rfl
  have filledLine : isEmpty (shifted width (c :: later)) = false := isEmpty_indented filled width later
  have indents : blockIndentation (((c :: later) :: lines).map (shifted width)) = width := by
    rw [List.map_cons, blockIndentation, List.find?_cons_of_pos (by simp [filledLine])]
    exact indentation_indented filled width later
  have content : (((c :: later) :: lines).map (shifted width)).map (List.drop width) =
      (c :: later) :: lines := by
    rw [List.map_map]
    exact (List.map_congr_left fun line _ => drop_shifted width line).trans (List.map_id _)
  have deep : (((c :: later) :: lines).map (shifted width)).all
      (fun line => isEmpty line || width ≤ indentation line) = true := by
    rw [List.all_map, List.all_eq_true]
    exact fun line _ => le_indentation_shifted width line
  have leads : (((c :: later) :: lines).map (shifted width)).takeWhile isEmpty = [] := by
    rw [List.map_cons]
    exact List.takeWhile_cons_of_neg (by simp [filledLine])
  unfold literal?
  rw [indents]
  simp only [content, deep, leads, List.all_nil, Bool.true_and]

theorem all_of_not_mem {s : List Char} (oneLine : '\n' ∉ s) (p : Char → Bool) :
    (s.all fun c => c == '\n' || p c) = s.all p := by
  rw [Bool.eq_iff_iff, List.all_eq_true, List.all_eq_true]
  refine forall₂_congr fun c member => ?_
  have other : (c == '\n') = false := beq_eq_false_iff_ne.mpr fun same => oneLine (same ▸ member)
  rw [other, Bool.false_or]

/-- What holds of all characters of all lines holds of all of the text but its line breaks. -/
theorem all_splitOn (p : Char → Bool) (s : List Char) :
    (Text.splitOn '\n' s).all (List.all · p) = s.all fun c => c == '\n' || p c := by
  induction s using Document.lineInduction with
  | last raw oneLine =>
    rw [Text.splitOn_of_not_mem oneLine, all_of_not_mem oneLine]
    exact Bool.and_true _
  | line raw s oneLine ih =>
    rw [Text.splitOn_append oneLine, List.all_cons, ih, List.all_append, all_of_not_mem oneLine,
      List.all_cons]
    rfl

theorem flatMap_splitOn (s : List Char) : (Text.splitOn '\n' s).flatMap (· ++ ['\n']) = s ++ ['\n'] := by
  induction s using Document.lineInduction with
  | last raw oneLine => rw [Text.splitOn_of_not_mem oneLine, List.flatMap_singleton]
  | line raw s oneLine ih =>
    rw [Text.splitOn_append oneLine, List.flatMap_cons, ih, List.append_assoc, List.append_assoc]
    rfl

/-- A text comes out of its block with a line break behind it. -/
theorem literal?_blockLines {s : List Char} (begins : ∃ c later, s = c :: later ∧ c ≠ ' ' ∧ c ≠ '\n')
    (free : '\r' ∉ s) (ends : s.getLast? ≠ some '\n') (width : Nat) :
    literal? .clip ((Scalar.blockLines s).map (shifted width)) =
      if s.all fun c => c == '\n' || YamlScalar.isPrintable c then some (s ++ ['\n']) else none := by
  obtain ⟨c, later, rfl, filled, stays⟩ := begins
  obtain ⟨part, parts, further⟩ := List.exists_cons_of_ne_nil (Text.splitOn_ne_nil '\n' later)
  have split : Text.splitOn '\n' (c :: later) = (c :: part) :: parts := by
    rw [Text.splitOn, List.foldr_cons, if_neg stays, ← Text.splitOn, further]
  have full := Text.getLast?_splitOn (List.cons_ne_nil c later) ends
  have whole : chomped .clip (Text.splitOn '\n' (c :: later)) = c :: later ++ ['\n'] := by
    have body : (Text.splitOn '\n' (c :: later)).rdropWhile List.isEmpty =
        Text.splitOn '\n' (c :: later) := by
      refine List.rdropWhile_eq_self_iff.mpr fun nonempty empty => full ?_
      rw [List.getLast?_eq_some_getLast nonempty, List.isEmpty_iff.mp empty]
    unfold chomped
    rw [body]
    exact flatMap_splitOn _
  rw [Scalar.blockLines_eq_splitOn (List.cons_ne_nil c later) free ends, split,
    literal?_shifted ⟨c, part, rfl, filled⟩, ← split, whole, all_splitOn]

end Blocks

section Fields

variable {column : Nat} {key : String} (is : Yaml.isKey key = true)
  (word : YamlScalar.typed? key.toList = none)
include is word

/-- A field on a line of its own comes before those of the lines that follow. -/
theorem fields?_plain {value : String} (bare : header? value.toList = none) {lines : List (List Char)}
    (begins : (nested column lines).1 = []) :
    fields? column ((Yaml.plain column key value).toList :: lines) =
      (YamlScalar.read? value.toList).bind fun v => (fields? column lines).map ((key, v) :: ·) := by
  unfold fields?
  rw [nested_cons (isBelow_plain is value)]
  cases found : nested column lines with
  | mk above entries =>
    obtain rfl : above = [] := by rwa [found] at begins
    simp only [List.mapM_cons, field?_plain is word bare]
    cases YamlScalar.read? value.toList with
    | none => rfl
    | some v => cases entries.mapM fun (line, below) => field? column line below <;> rfl

theorem fields?_block {below : List (List Char)} (deeper : ∀ line ∈ below, isBelow column line = true) :
    fields? column ((Yaml.plain column key "|").toList :: below) =
      (literal? .clip below).map fun t => [(key, .text t)] := by
  unfold fields?
  rw [nested_cons (isBelow_plain is "|"), nested_of_below deeper]
  simp only [List.mapM_cons, List.mapM_nil, field?_block is word]
  cases literal? .clip below <;> rfl

end Fields

/-- A scalar under a key, and what it is read as. -/
structure Entry where
  key : String
  written : String
  value : YamlScalar
  isKey : Yaml.isKey key = true
  word : YamlScalar.typed? key.toList = none
  reads : YamlScalar.read? written.toList = some value

namespace Entry

/-- The line that an entry has at a column. -/
def line (column : Nat) (e : Entry) : String := Yaml.plain column e.key e.written

def field (e : Entry) : String × YamlScalar := (e.key, e.value)

theorem nested_line (column : Nat) (e : Entry) (later : List (List Char)) :
    (nested column ((e.line column).toList :: later)).1 = [] := by
  rw [line, nested_cons (isBelow_plain e.isKey e.written)]

/-- Entries are read back one by one. -/
theorem fields?_lines {column : Nat} (entries : List Entry) {lines : List (List Char)}
    (begins : (nested column lines).1 = []) :
    fields? column (entries.map (fun e => (e.line column).toList) ++ lines) =
      (fields? column lines).map (entries.map field ++ ·) := by
  induction entries with
  | nil => simp
  | cons e entries ih =>
    have goesOn : (nested column (entries.map (fun e => (e.line column).toList) ++ lines)).1 = [] := by
      cases entries with
      | nil => exact begins
      | cons next entries => exact next.nested_line column _
    rw [List.map_cons, List.cons_append, line, fields?_plain e.isKey e.word (header?_of_read? e.reads) goesOn,
      e.reads, Option.bind_some, ih, Option.map_map]
    rfl

example : read? 2 "  - a: 1\n    b: |\n      x\n\n        y\n    c: yes\n".toList =
    some [("a", .integer 1), ("b", .text "x\n\n  y\n".toList), ("c", .text "yes".toList)] := by decide

end Entry

end YamlItem

end SymbolIndex
