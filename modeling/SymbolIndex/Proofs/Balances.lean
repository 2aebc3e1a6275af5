import SymbolIndex.Proofs.ByteScan

/-! One scan tells where a block closes, the other how deep it is at the end of a stretch, and each can be
told from the other: a block closes at the first brace behind which the stretch from its opening brace on
is level. A stretch may be cut inside a mark or inside a character. That does no harm, since half a mark
or half a character has no brace in it. -/
namespace SymbolIndex

section Blocks

variable {s : List Char} {index n : Nat}

/-- What closes no block closes none in a beginning of it. -/
theorem unclosed_of_take (unclosed : closingBrace? (s.take index) = none) (early : n ≤ index) :
    closingBrace? (s.take n) = none := by
  rw [← List.take_append_drop n (s.take index), List.take_take, Nat.min_eq_left early,
    closingBrace?, Lexical.closing?_append] at unclosed
  exact (Option.or_eq_none_iff.mp unclosed).1

/-- A block that no brace closes is open at its end. -/
theorem balance_of_unclosed (unclosed : closingBrace? (('\x7b' :: s).take n) = none)
    (nonempty : 0 < n) : 1 ≤ braceBalance (('\x7b' :: s).take n) := by
  obtain ⟨m, rfl⟩ : ∃ m, n = m + 1 := ⟨n - 1, by omega⟩
  have inside : Lexical.start.closing? 1 1 (s.take m) = none := unclosed
  have positive := Lexical.positive_of_closing?_none inside Int.one_pos
  rwa [braceBalance, List.take_succ_cons, Lexical.scan_cons]

/-- Behind the brace that closes a block it is level, and before it is not. -/
theorem balance_of_closed (closes : closingBrace? ('\x7b' :: s) = some index) :
    0 < index ∧ ('\x7b' :: s)[index]? = some '\x7d' ∧
      braceBalance (('\x7b' :: s).take (index + 1)) = 0 ∧
      ∀ n, 0 < n → n ≤ index → 1 ≤ braceBalance (('\x7b' :: s).take n) := by
  obtain ⟨u, v, text, place, before, ⟨tail, inCode⟩, level⟩ := Lexical.closing?_some closes
  obtain rfl : index = u.length := place.trans (Nat.zero_add _)
  have upTo : ('\x7b' :: s).take u.length = u := by rw [text, List.take_left]
  have through : ('\x7b' :: s).take (u.length + 1) = u ++ ['\x7d'] := by
    rw [text, List.take_length_add_append]
    rfl
  have closing : (Lexical.code tail).weight '\x7d' = -1 := rfl
  refine ⟨?_, ?_, ?_, fun n nonempty early => ?_⟩
  · refine List.length_pos_of_ne_nil fun empty => ?_
    rw [empty] at text
    cases text
  · rw [text, List.getElem?_append_right (Nat.le_refl _), Nat.sub_self]
    rfl
  · rw [through, braceBalance, Lexical.scan_append, inCode, Lexical.scan_cons, closing,
      ← Int.add_assoc, ← Int.zero_add (Lexical.start.scan u).2, level]
    rfl
  · refine balance_of_unclosed (unclosed_of_take ?_ early) nonempty
    rwa [upTo]

/-- A block that is open at the end of all its beginnings is not closed. -/
theorem closingBrace?_eq_none_iff :
    closingBrace? ('\x7b' :: s) = none ↔
      ∀ n, 0 < n → n ≤ ('\x7b' :: s).length → 1 ≤ braceBalance (('\x7b' :: s).take n) := by
  constructor
  · intro unclosed n nonempty early
    refine balance_of_unclosed (unclosed_of_take ?_ early) nonempty
    rwa [List.take_length]
  · intro deep
    cases closes : closingBrace? ('\x7b' :: s) with
    | none => rfl
    | some found =>
      obtain ⟨-, isBrace, level, -⟩ := balance_of_closed closes
      have inside := (List.getElem?_eq_some_iff.mp isBrace).1
      have open' := deep (found + 1) (Nat.succ_pos _) inside
      omega

/-- A block closes at the first character behind which it is level. -/
theorem closingBrace?_iff :
    closingBrace? ('\x7b' :: s) = some index ↔
      0 < index ∧ index < ('\x7b' :: s).length ∧
        braceBalance (('\x7b' :: s).take (index + 1)) = 0 ∧
        ∀ n, 0 < n → n ≤ index → 1 ≤ braceBalance (('\x7b' :: s).take n) := by
  constructor
  · intro closes
    obtain ⟨positive, isBrace, level, deep⟩ := balance_of_closed closes
    exact ⟨positive, (List.getElem?_eq_some_iff.mp isBrace).1, level, deep⟩
  · rintro ⟨positive, inside, level, deep⟩
    cases closes : closingBrace? ('\x7b' :: s) with
    | none =>
      have open' := closingBrace?_eq_none_iff.mp closes (index + 1) (Nat.succ_pos _) inside
      omega
    | some found =>
      obtain ⟨-, -, levelThere, deepThere⟩ := balance_of_closed closes
      rcases Nat.lt_trichotomy found index with earlier | same | later
      · have open' := deep (found + 1) (Nat.succ_pos _) earlier
        omega
      · rw [same]
      · have open' := deepThere (index + 1) (Nat.succ_pos _) later
        omega

/-- Nothing behind the brace that closes a block has a say in it. -/
theorem closingBrace?_of_take {s' : List Char}
    (same : ('\x7b' :: s').take (index + 1) = ('\x7b' :: s).take (index + 1))
    (closes : closingBrace? ('\x7b' :: s) = some index) :
    closingBrace? ('\x7b' :: s') = some index := by
  obtain ⟨positive, inside, level, deep⟩ := closingBrace?_iff.mp closes
  have beginnings {n : Nat} (early : n ≤ index + 1) : ('\x7b' :: s').take n = ('\x7b' :: s).take n := by
    rw [← Nat.min_eq_left early, ← List.take_take, same, List.take_take]
  have size := congrArg List.length same
  rw [List.length_take, List.length_take] at size
  refine closingBrace?_iff.mpr ⟨positive, by omega, same ▸ level, fun n nonempty early => ?_⟩
  rw [beginnings (by omega)]
  exact deep n nonempty early

end Blocks

namespace Bytewise

open Text

/-- The bytes from an index up to another. -/
def stretch (bytes : List UInt8) (first last : Nat) : List UInt8 :=
  (bytes.drop first).take (last - first)

/-- At the end of a stretch of bytes a block is open. -/
def LeavesOpen (bytes : List UInt8) (first last : Nat) : Prop :=
  ∃ depth, balance (stretch bytes first last) = .ok depth ∧ 1 ≤ depth

/-- From a brace on, the bytes of a text alone tell where the block closes. -/
theorem matchingClose?_of_byte {s : List Char} {openAt : Nat}
    (brace : (bytes s)[openAt]? = some '\x7b'.toUInt8) :
    ∃ block, ((bytes s).drop openAt).map asChar = '\x7b' :: block ∧
      matchingClose? s openAt = (closingBrace? ('\x7b' :: block)).map (openAt + ·) := by
  have same : asChar '\x7b'.toUInt8 = '\x7b' := (asChar_eq_iff (by decide)).mpr rfl
  obtain ⟨before, rest, text, rfl⟩ := exists_split_of_byte brace (by decide)
  rw [same] at text
  subst text
  have marked : Lexical.start.Marked := trivial
  have block : (bytes ('\x7b' :: rest)).map asChar = '\x7b' :: (bytes rest).map asChar := by
    rw [bytes_cons, encoded_ascii (by decide), List.singleton_append, List.map_cons, same]
  refine ⟨(bytes rest).map asChar, ?_, ?_⟩
  · rw [bytes_append, ← length_bytes, List.drop_left, block]
  · rw [matchingClose?_brace, ← block, closingBrace?, closingBrace?, marked.closing?_bytes,
      Option.map_map]
    refine congrArg (Option.map · _) (funext fun index => ?_)
    rw [Function.comp_apply, byteLength_append, byteOffset, Nat.zero_add]

/-- A stretch from a brace on has the balance of the characters that its bytes stand for. -/
theorem balance_stretch (bytes : List UInt8) (first count : Nat) :
    balance (stretch bytes first (first + count)) =
      .ok (braceBalance (((bytes.drop first).map asChar).take count)) := by
  rw [balance_eq, stretch, Nat.add_sub_cancel_left, List.map_take]

theorem leavesOpen_iff {bytes : List UInt8} {first count : Nat} :
    LeavesOpen bytes first (first + count) ↔
      1 ≤ braceBalance (((bytes.drop first).map asChar).take count) := by
  simp [LeavesOpen, balance_stretch]

/-- From a brace on, a text has the bytes of the brace and of what follows. -/
theorem length_onward {s block : List Char} {openAt : Nat}
    (onward : ((bytes s).drop openAt).map asChar = '\x7b' :: block) :
    byteLength s = openAt + ('\x7b' :: block).length := by
  have size := congrArg List.length onward
  rw [List.length_map, List.length_drop, length_bytes, List.length_cons] at size
  rw [List.length_cons]
  omega

section Brace

variable {s : List Char} {openAt closeAt : Nat} (brace : (bytes s)[openAt]? = some '\x7b'.toUInt8)
include brace

/-- A block closes where it is level first. -/
theorem matchingClose?_iff :
    matchingClose? s openAt = some closeAt ↔
      openAt < closeAt ∧ closeAt < byteLength s ∧
        balance (stretch (bytes s) openAt (closeAt + 1)) = .ok 0 ∧
        ∀ j, openAt < j → j ≤ closeAt → LeavesOpen (bytes s) openAt j := by
  obtain ⟨block, onward, closes⟩ := matchingClose?_of_byte brace
  have size := length_onward onward
  rw [closes, Option.map_eq_some_iff]
  constructor
  · rintro ⟨index, found, rfl⟩
    obtain ⟨positive, inside, level, deep⟩ := closingBrace?_iff.mp found
    refine ⟨by omega, by omega, ?_, fun j behind upTo => ?_⟩
    · rw [Nat.add_assoc, balance_stretch, onward, level]
    · obtain ⟨n, rfl⟩ := Nat.exists_eq_add_of_le (Nat.le_of_lt behind)
      rw [leavesOpen_iff, onward]
      exact deep n (by omega) (by omega)
  · rintro ⟨behind, inside, level, deep⟩
    obtain ⟨index, rfl⟩ := Nat.exists_eq_add_of_le (Nat.le_of_lt behind)
    rw [Nat.add_assoc, balance_stretch, onward] at level
    refine ⟨index, closingBrace?_iff.mpr
      ⟨by omega, by omega, Except.ok.inj level, fun n nonempty early => ?_⟩, rfl⟩
    have isOpen := leavesOpen_iff.mp (deep (openAt + n) (by omega) (by omega))
    rwa [onward] at isOpen

/-- A block that every stretch leaves open does not close. -/
theorem matchingClose?_eq_none_iff :
    matchingClose? s openAt = none ↔
      ∀ j, openAt < j → j ≤ byteLength s → LeavesOpen (bytes s) openAt j := by
  obtain ⟨block, onward, closes⟩ := matchingClose?_of_byte brace
  have size := length_onward onward
  rw [closes, Option.map_eq_none_iff, closingBrace?_eq_none_iff]
  constructor
  · intro deep j behind upTo
    obtain ⟨n, rfl⟩ := Nat.exists_eq_add_of_le (Nat.le_of_lt behind)
    rw [leavesOpen_iff, onward]
    exact deep n (by omega) (by omega)
  · intro deep n nonempty upTo
    have isOpen := leavesOpen_iff.mp (deep (openAt + n) (by omega) (by omega))
    rwa [onward] at isOpen

/-- A block closes at a closing brace. -/
theorem closingByte_of_matchingClose? (found : matchingClose? s openAt = some closeAt) :
    (bytes s)[closeAt]? = some '\x7d'.toUInt8 := by
  obtain ⟨block, onward, closes⟩ := matchingClose?_of_byte brace
  rw [closes, Option.map_eq_some_iff] at found
  obtain ⟨index, closing, rfl⟩ := found
  obtain ⟨-, isBrace, -⟩ := balance_of_closed closing
  rw [← onward, List.getElem?_map, List.getElem?_drop, Option.map_eq_some_iff] at isBrace
  obtain ⟨b, here, own⟩ := isBrace
  rw [here, (asChar_eq_iff (by decide)).mp own]

/-- What lies before the opening brace or behind the closing one plays no part. -/
theorem matchingClose?_of_stretch (found : matchingClose? s openAt = some closeAt) {s' : List Char}
    {openAt' : Nat}
    (same : stretch (bytes s') openAt' (openAt' + (closeAt + 1 - openAt)) =
      stretch (bytes s) openAt (closeAt + 1)) :
    matchingClose? s' openAt' = some (openAt' + (closeAt - openAt)) := by
  obtain ⟨block, onward, closes⟩ := matchingClose?_of_byte brace
  rw [closes, Option.map_eq_some_iff] at found
  obtain ⟨index, closing, rfl⟩ := found
  rw [Nat.add_assoc, stretch, stretch, Nat.add_sub_cancel_left, Nat.add_sub_cancel_left] at same
  have brace' : (bytes s')[openAt']? = some '\x7b'.toUInt8 := by
    have first := congrArg List.head? same
    rwa [List.head?_take, List.head?_take, if_neg (by omega), if_neg (by omega), List.head?_drop,
      List.head?_drop, brace] at first
  obtain ⟨block', onward', closes'⟩ := matchingClose?_of_byte brace'
  have chars := congrArg (List.map asChar) same
  rw [List.map_take, List.map_take, onward, onward'] at chars
  rw [closes', closingBrace?_of_take chars closing, Option.map_some, Nat.add_sub_cancel_left]

end Brace

end Bytewise

open Bytewise in
/-- The two scans for braces are one function. From an opening brace on, the block closes at the one
place up to which every stretch leaves it open and through which the stretch is level, and it does not
close if every stretch to the end of the text leaves it open. The place is that of a closing brace, and
what lies outside the stretch plays no part. -/
theorem closes_where_level {s : List Char} {openAt : Nat}
    (brace : (Text.bytes s)[openAt]? = some '\x7b'.toUInt8) :
    (∀ closeAt, matchingClose? s openAt = some closeAt ↔
      openAt < closeAt ∧ closeAt < Text.byteLength s ∧
        balance (stretch (Text.bytes s) openAt (closeAt + 1)) = .ok 0 ∧
        ∀ j, openAt < j → j ≤ closeAt → LeavesOpen (Text.bytes s) openAt j) ∧
    (matchingClose? s openAt = none ↔
      ∀ j, openAt < j → j ≤ Text.byteLength s → LeavesOpen (Text.bytes s) openAt j) ∧
    (∀ closeAt, matchingClose? s openAt = some closeAt →
      (Text.bytes s)[closeAt]? = some '\x7d'.toUInt8 ∧
      ∀ s' openAt', stretch (Text.bytes s') openAt' (openAt' + (closeAt + 1 - openAt)) =
          stretch (Text.bytes s) openAt (closeAt + 1) →
        matchingClose? s' openAt' = some (openAt' + (closeAt - openAt))) ∧
    matchingClose (Text.bytes s) openAt = .ok (matchingClose? s openAt) ∧
    ∀ t, balance (Text.bytes t) = .ok (braceBalance t) := by
  refine ⟨fun closeAt => matchingClose?_iff brace, matchingClose?_eq_none_iff brace,
    fun closeAt found => ⟨closingByte_of_matchingClose? brace found, fun s' openAt' same =>
      matchingClose?_of_stretch brace found same⟩, ?_, balance_bytes⟩
  obtain ⟨before, rest, rfl, rfl⟩ := Text.exists_split_of_byte brace (by decide)
  exact matchingClose_bytes before _

/-- In `x{'é}'}` the mark behind the accented character hides the first closing brace, and a stretch that
is cut inside the character leaves the block open. -/
theorem closes_where_level_accented :
    (Text.bytes "x\x7b'é\x7d'\x7d".toList)[1]? = some '\x7b'.toUInt8 ∧
      matchingClose? "x\x7b'é\x7d'\x7d".toList 1 = some 7 ∧
      Bytewise.LeavesOpen (Text.bytes "x\x7b'é\x7d'\x7d".toList) 1 4 := by
  have brace : (Text.bytes "x\x7b'é\x7d'\x7d".toList)[1]? = some '\x7b'.toUInt8 := by decide +kernel
  have found : matchingClose? "x\x7b'é\x7d'\x7d".toList 1 = some 7 := by decide +kernel
  obtain ⟨-, -, -, deep⟩ := ((closes_where_level brace).1 7).mp found
  exact ⟨brace, found, deep 4 (by decide) (by decide)⟩

end SymbolIndex
