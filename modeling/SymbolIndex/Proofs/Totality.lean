import Mathlib.Algebra.GroupWithZero.Nat
import SymbolIndex.Bytewise.Calls
import SymbolIndex.Proofs.ByteQueries
import SymbolIndex.Proofs.Depths
import SymbolIndex.Proofs.MemberLists

/-! The call before a cursor, read backwards from byte to byte, and what all operations by byte offsets
come to. A parenthesis or a comma is a byte of its own, so the text before it can be cut there, and every
byte of any other character is passed over. Each byte and each character changes a depth by one at most,
so no depth exceeds their number. With that no operation on a text cuts it inside a character or reads
past its end, and each gives what the document gives. -/
namespace SymbolIndex

theorem Text.length_trim_le (s : List Char) : (trim s).length ≤ s.length := by
  obtain ⟨blanks, whole, -⟩ := exists_trim_append s
  have size := congrArg List.length whole
  rw [List.length_append, List.length_append] at size
  omega

/-- Over a text the depth of braces changes by no more than one for each character. -/
theorem Lexical.natAbs_scan_le (context : Lexical) (s : List Char) :
    (context.scan s).2.natAbs ≤ s.length := by
  induction s generalizing context with
  | nil => exact Nat.le_refl 0
  | cons c s ih =>
    have one : (context.weight c).natAbs ≤ 1 := by
      cases context with
      | code =>
        rw [weight]
        split
        · exact Nat.le_refl 1
        · split <;> decide
      | quoted | lineComment | blockComment => exact Nat.zero_le 1
    have later := ih (context.next c)
    rw [scan_cons, List.length_cons]
    omega

namespace Reading

/-- A text has at least the characters of its lines. -/
theorem sum_trimmed_le (number : Nat) (s : List Char) :
    ((Document.linesFrom number s).map (·.trimmed.length)).sum ≤ s.length := by
  have trimmed (number : Nat) (raw onward : List Char) :
      (Document.lineOf number raw onward).trimmed.length ≤ raw.length := by
    obtain ⟨terminator, whole, -⟩ := Text.exists_chomp_append raw
    have size := congrArg List.length whole
    rw [List.length_append] at size
    have shorter := Text.length_trim_le (Document.chomp raw)
    have same : (Document.lineOf number raw onward).trimmed = Text.trim (Document.chomp raw) := rfl
    rw [same]
    omega
  induction s using Document.lineInduction generalizing number with
  | last raw oneLine =>
    rw [Document.linesFrom_of_one_line oneLine, List.map_singleton, List.sum_singleton]
    exact trimmed number raw []
  | line raw s oneLine ih =>
    have first := trimmed number raw ('\n' :: s)
    have later := ih (number + 1)
    rw [Document.linesFrom_line_append oneLine, List.map_cons, List.sum_cons, List.length_append,
      List.length_cons]
    omega

/-- Some lines raise the depth by no more than one for each of their characters. -/
theorem Sound.level_after_le {r : Reading} (sound : r.Sound) (lines : List Line) :
    (r.after lines).level ≤ r.level + (lines.map (·.trimmed.length)).sum := by
  induction lines generalizing r with
  | nil => exact Int.le_of_eq (Int.add_zero _).symm
  | cons l lines ih =>
    obtain ⟨next, level⟩ := sound.step l
    have later := ih next
    have nonneg := sound.level_nonneg
    have change : r.change l ≤ l.trimmed.length := by
      have bound := Lexical.start.natAbs_scan_le l.trimmed
      rw [Reading.change, braceBalance]
      split <;> omega
    rw [after_cons, List.map_cons, List.sum_cons]
    rw [level] at later
    omega

/-- However many lines of a text are read, the depth is no more than the number of its characters. -/
theorem level_le_length {text : List Char} {lines : List Line}
    (read : lines <+: (Document.mk text).lines) : (start.after lines).level.natAbs ≤ text.length := by
  obtain ⟨later, whole⟩ := read
  have size := sum_trimmed_le 0 text
  rw [← (Document.mk text).lines_eq_linesFrom, ← whole, List.map_append, List.sum_append] at size
  have nonneg := (sound_start.after lines).level_nonneg
  have bound := sound_start.level_after_le lines
  have empty : start.level = 0 := rfl
  omega

end Reading

namespace Bytewise

open Text

theorem charIndices_append (offset : Nat) (a b : List Char) :
    charIndices offset (a ++ b) = charIndices offset a ++ charIndices (offset + byteLength a) b := by
  induction a generalizing offset with
  | nil => rfl
  | cons c a ih => rw [List.cons_append, charIndices, ih, byteLength_cons, ← Nat.add_assoc]; rfl

theorem charIndices_snd (offset : Nat) (s : List Char) : (charIndices offset s).map Prod.snd = s := by
  induction s generalizing offset with
  | nil => rfl
  | cons c s ih => rw [charIndices, List.map_cons, ih]

/-- The indices of the characters of a class that a text ends in begin where those characters do. -/
theorem takeWhile_charIndices (p : Char → Bool) (before run : List Char)
    (inside : ∀ c ∈ run, p c = true) (outside : before.reverse.takeWhile p = []) :
    (charIndices 0 (before ++ run)).reverse.takeWhile (fun x => p x.2) =
      (charIndices (byteLength before) run).reverse := by
  have all : ∀ x ∈ (charIndices (byteLength before) run).reverse, p x.2 = true := by
    intro x member
    have isChar := List.mem_map_of_mem (f := Prod.snd) (List.mem_reverse.mp member)
    rw [charIndices_snd] at isChar
    exact inside _ isChar
  have none : (charIndices 0 before).reverse.takeWhile (fun x => p x.2) = [] := by
    rw [← charIndices_snd 0 before, ← List.map_reverse, List.takeWhile_map] at outside
    exact List.map_eq_nil_iff.mp outside
  rw [charIndices_append, Nat.zero_add, List.reverse_append, List.takeWhile_append_of_pos all, none,
    List.append_nil]

/-- The name before a parenthesis begins where a character does. -/
theorem calleeBefore_eq (head : List Char) :
    calleeBefore head = .ok (Call.calleeBefore? head.reverse) := by
  have trimmed : trimEnd head = (trimStart head.reverse).reverse := rfl
  rw [calleeBefore, Call.calleeBefore?, trimmed]
  generalize trimStart head.reverse = reversed
  have whole : reversed.reverse = (reversed.dropWhile Call.isCalleeChar).reverse ++
      (reversed.takeWhile Call.isCalleeChar).reverse := by
    rw [← List.reverse_append, List.takeWhile_append_dropWhile]
  have inside : ∀ c ∈ (reversed.takeWhile Call.isCalleeChar).reverse, Call.isCalleeChar c = true :=
    fun c member => List.mem_takeWhile_imp (List.mem_reverse.mp member)
  have outside : ((reversed.dropWhile Call.isCalleeChar).reverse.reverse).takeWhile
      Call.isCalleeChar = [] := by
    rw [List.reverse_reverse]
    cases rest : reversed.dropWhile Call.isCalleeChar with
    | nil => rfl
    | cons c later =>
      have stops := List.head?_dropWhile_not Call.isCalleeChar reversed
      rw [rest] at stops
      have stops : Call.isCalleeChar c = false := stops
      exact List.takeWhile_cons_of_neg (stops ▸ Bool.false_ne_true)
  rw [whole, takeWhile_charIndices _ _ _ inside outside, List.getLast?_reverse]
  generalize (reversed.dropWhile Call.isCalleeChar).reverse = before
  cases reversed.takeWhile Call.isCalleeChar with
  | nil => rfl
  | cons c later =>
    have nonempty : (c :: later).reverse ≠ [] := mt List.reverse_eq_nil_iff.mp (List.cons_ne_nil c later)
    obtain ⟨first, run, shape⟩ := List.exists_cons_of_ne_nil nonempty
    rw [shape, charIndices, List.head?_cons]
    dsimp only
    rw [sliceFrom_append, ok_bind, shape]
    rfl

theorem toUInt8_inj {c d : Char} (small : c.toNat < 128) (small' : d.toNat < 128) :
    c.toUInt8 = d.toUInt8 ↔ c = d := by
  rw [← asChar_eq_iff small', (asChar_eq_iff small).mpr rfl]

theorem itemAt_bytes {a b : List Char} {c : Char} {n : Nat} (inside : n < c.utf8Size) :
    ∃ k ∈ String.utf8EncodeChar c, itemAt (bytes (a ++ c :: b)) (byteLength a + n) = .ok k := by
  have within : n < (String.utf8EncodeChar c).length := by rwa [String.length_utf8EncodeChar]
  refine ⟨(String.utf8EncodeChar c)[n], List.getElem_mem within, ?_⟩
  rw [itemAt, bytes_append, bytes_cons, ← length_bytes, List.getElem?_append_right (Nat.le_add_right _ _),
    Nat.add_sub_cancel_left, List.getElem?_append_left within, List.getElem?_eq_getElem within]

/-- The bytes of a character that is not ASCII are passed over. -/
theorem searchBack_of_large {a b : List Char} {c : Char} (large : 128 ≤ c.toNat)
    (closed commas : Nat) {n : Nat} (inside : n ≤ c.utf8Size) :
    searchBack (a ++ c :: b) (byteLength a + n) closed commas =
      searchBack (a ++ c :: b) (byteLength a) closed commas := by
  induction n with
  | zero => rfl
  | succ n ih =>
    obtain ⟨k, part, read⟩ := itemAt_bytes (a := a) (b := b) inside
    have above := large_of_encoded large part
    have other {d : Char} (small : d.toNat < 128) : k ≠ d.toUInt8 := by
      rintro rfl
      have own : d.toUInt8.toNat = d.toNat % 256 := rfl
      omega
    rw [← Nat.add_assoc, searchBack, read, ok_bind, if_neg (other (by decide)),
      if_neg (other (by decide)), if_neg fun comma => other (by decide) comma.1,
      ih (Nat.le_of_succ_le inside)]

/-- The byte of an ASCII character is read as the character is. -/
theorem searchBack_of_ascii {a b : List Char} {c : Char} (small : c.toNat < 128)
    (before : ∀ closed commas, searchBack (a ++ c :: b) (byteLength a) closed commas =
      .ok (Call.searchBack? closed commas a.reverse)) (closed commas : Nat) :
    searchBack (a ++ c :: b) (byteLength a + 1) closed commas =
      .ok (Call.searchBack? closed commas (c :: a.reverse)) := by
  have read : itemAt (bytes (a ++ c :: b)) (byteLength a) = .ok c.toUInt8 := by
    obtain ⟨k, part, read⟩ := itemAt_bytes (a := a) (b := b) c.utf8Size_pos
    rw [encoded_ascii small] at part
    rw [← List.mem_singleton.mp part]
    exact read
  have cuts : slice (a ++ c :: b) 0 (byteLength a) = .ok a := slice_append [] a (c :: b)
  have isMark {d : Char} (small' : d.toNat < 128) : c.toUInt8 = d.toUInt8 ↔ c = d :=
    toUInt8_inj small small'
  rw [searchBack, read, ok_bind, Call.searchBack?]
  simp only [isMark (d := ')') (by decide), isMark (d := '(') (by decide),
    isMark (d := ',') (by decide), cuts, ok_bind, calleeBefore_eq, before]
  by_cases opens : c = '('
  · subst opens
    have other : ¬ '(' = ')' := by decide
    rw [if_neg other, if_neg other, if_pos rfl, if_pos rfl]
    cases closed with
    | zero => cases Call.calleeBefore? a.reverse <;> rfl
    | succ closed => rfl
  · rw [if_neg opens, if_neg opens]
    split
    · rfl
    · split <;> rfl

/-- The call before a place of a text is found from byte to byte as it is from character to
character. -/
theorem searchBack_eq (a b : List Char) (closed commas : Nat) :
    searchBack (a ++ b) (byteLength a) closed commas =
      .ok (Call.searchBack? closed commas a.reverse) := by
  -- The text is read towards its beginning, so the induction takes its last character off.
  induction a using List.reverseRecOn generalizing b closed commas with
  | nil => rfl
  | append_singleton a c ih =>
    rw [List.append_assoc, List.singleton_append, byteLength_append, List.reverse_append,
      List.reverse_singleton, List.singleton_append]
    by_cases small : c.toNat < 128
    · have size : byteLength [c] = 1 := Char.utf8Size_eq_one_iff.mpr (Nat.le_of_lt_succ small)
      rw [size, searchBack_of_ascii small (ih (c :: b))]
    · have size : byteLength [c] = c.utf8Size := rfl
      have other {d : Char} (small' : d.toNat < 128) : c ≠ d := by
        rintro rfl
        exact small small'
      rw [size, searchBack_of_large (Nat.le_of_not_lt small) closed commas (Nat.le_refl _), ih,
        Call.searchBack?, if_neg (other (by decide)), if_neg (other (by decide)),
        if_neg fun comma => other (by decide) comma.1]

theorem callBefore_eq (s : List Char) : callBefore s = .ok (Call.before? s) := by
  have found := searchBack_eq s [] 0 0
  rwa [List.append_nil] at found

/-- Help with a call is found with no offset out of place. -/
theorem callHelp_eq (d : Document) (p : Position) : callHelp d.chars p = .ok (d.callHelp? p) := by
  rw [callHelp, Document.callHelp?, Document.textBefore?]
  dsimp only
  rw [LineIndex.lineCount_eq]
  split
  · rename_i past
    rw [LineIndex.line?_of_le past]
    rfl
  · rename_i inside
    obtain ⟨l, found, line⟩ := LineIndex.exists_line? inside
    have cuts : slice l.content 0 (byteOffset l.content p.column) = .ok (l.content.take p.column) := by
      have whole := slice_append [] (l.content.take p.column) (l.content.drop p.column)
      rwa [List.nil_append, List.take_append_drop] at whole
    rw [found, LineIndex.line_eq, ok_bind, line, cuts, ok_bind, callBefore_eq, ok_bind,
      Option.map_some]
    simp only [Option.bind_eq_bind, Option.bind_some]
    cases Call.before? (l.content.take p.column) with
    | none => rfl
    | some call =>
      rw [Option.bind_some, model_eq]
      dsimp only
      rw [ok_bind, Option.map_eq_bind]
      rfl

theorem outline_eq (text : List Char) : outline text = .ok (Document.mk text).outline := by
  rw [outline, model_eq]
  rfl

theorem diagnostics_eq (text : List Char) :
    diagnostics text = .ok (Document.mk text).diagnostics := by
  rw [diagnostics, model_eq]
  rfl

/-- A scan of any bytes ends after at most one step for each, with a depth of no more than their
number. -/
theorem exists_balance (bytes : List UInt8) : ∃ n, balance bytes = .ok n ∧ n.natAbs ≤ bytes.length := by
  refine ⟨_, balance_eq bytes, ?_⟩
  have bound := Lexical.start.natAbs_scan_le (bytes.map asChar)
  rwa [List.length_map] at bound

/-- A scan of any bytes for a brace ends after at most one step for each, wherever it sets in. -/
theorem exists_matchingClose (bytes : List UInt8) (openAt : Nat) :
    ∃ found, matchingClose bytes openAt = .ok found := by
  rcases Nat.lt_or_ge openAt bytes.length with inside | past
  · have scans := matchingClose_eq (bytes.take openAt) (bytes.drop openAt)
    rw [List.take_append_drop, List.length_take_of_le (Nat.le_of_lt inside)] at scans
    exact ⟨_, scans⟩
  · exact ⟨none, if_pos past⟩

end Bytewise

open Bytewise in
/-- By byte offsets every operation gives what it gives for the characters of the document, and so
fails for no text: no slice is out of range or ends inside a character, which is all that could keep a
position or a column from being found; a search of the lines that finds none has passed the first; the
scans for braces read no byte that there is not, in at most one step for each; and no depth is more than
the number of bytes or characters it is counted over. -/
theorem operations_total :
    (∀ text : List Char,
      model text = .ok (Model.ofDocument ⟨text⟩) ∧
        outline text = .ok (Document.mk text).outline ∧
        diagnostics text = .ok (Document.mk text).diagnostics ∧
        (∀ name, definitions text name = .ok ((Document.mk text).definitions name)) ∧
        (∀ name keepDeclarations, referencesTo text name keepDeclarations =
          .ok ((Document.mk text).referencesTo name keepDeclarations)) ∧
        (∀ p, (LineIndex.ofText text).offset p = .ok ((Document.mk text).offset? p)) ∧
        (∀ p, wordAt text p = .ok ((Document.mk text).wordAt? p)) ∧
        (∀ p, callHelp text p = .ok ((Document.mk text).callHelp? p)) ∧
        callBefore text = .ok (Call.before? text)) ∧
      (∀ text offset,
        ((∃ p, (LineIndex.ofText text).position offset = .ok p) ↔
          Meets text (min offset (Text.byteLength text))) ∧
        ∀ place, (LineIndex.ofText text).search offset = .error place → 1 ≤ place) ∧
      (∀ text number byte,
        (∃ column, (LineIndex.ofText text).columnOf number byte = .ok column) ↔
          Meets ((Document.mk text).lineText number)
            (min byte (Text.byteLength ((Document.mk text).lineText number)))) ∧
      (∀ text lines, lines <+: (Document.mk text).lines →
        (Reading.start.after lines).level.natAbs ≤ text.length) ∧
      ∀ bytes : List UInt8,
        (∃ n, balance bytes = .ok n ∧ n.natAbs ≤ bytes.length) ∧
          ∀ openAt, ∃ found, matchingClose bytes openAt = .ok found := by
  refine ⟨fun text => ⟨model_eq text, outline_eq text, diagnostics_eq text, ?_, ?_, ?_, ?_, ?_,
    callBefore_eq text⟩, fun text offset => ⟨?_, fun place => LineIndex.one_le_of_search⟩,
    fun text number byte => LineIndex.exists_columnOf_iff ⟨text⟩, fun text lines => Reading.level_le_length,
    fun bytes => ⟨exists_balance bytes, exists_matchingClose bytes⟩⟩
  · exact definitions_eq ⟨text⟩
  · exact referencesTo_eq ⟨text⟩
  · exact LineIndex.offset_eq ⟨text⟩
  · exact wordAt_eq ⟨text⟩
  · exact callHelp_eq ⟨text⟩
  · exact LineIndex.exists_position_iff ⟨text⟩

open Bytewise in
/-- The call behind an accented name is found. The offset inside its letter has no position, and a search
for it has passed the first line. -/
theorem operations_total_accented :
    callBefore "é(x, ".toList = .ok (some ⟨['é'], 1⟩) ∧
      (LineIndex.ofText "é(x, ".toList).position 2 = .ok ⟨0, 1⟩ ∧
      ¬ Meets "é(x, ".toList 1 ∧
      (∃ place, (LineIndex.ofText "é(x, ".toList).search 1 = .error place ∧ 1 ≤ place) ∧
      (Reading.start.after (Document.mk "é(x, ".toList).lines).level.natAbs ≤ 5 := by
  obtain ⟨texts, offsets, -, levels, -⟩ := operations_total
  obtain ⟨-, -, -, -, -, -, -, -, call⟩ := texts "é(x, ".toList
  obtain ⟨boundary, passed⟩ := offsets "é(x, ".toList 1
  refine ⟨call.trans ?_, rfl, fun meets => ?_, ⟨1, rfl, passed 1 rfl⟩, levels _ _ List.prefix_rfl⟩
  · decide +kernel
  · obtain ⟨p, found⟩ := boundary.mpr meets
    cases found

end SymbolIndex
