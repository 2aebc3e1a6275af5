import SymbolIndex.Bytewise.Scan
import SymbolIndex.Proofs.Bytes

/-! The loops over the bytes of a text come to the same depths and the same braces as a scan of its
characters. What a cursor knows at an index, one byte back and one byte ahead, agrees with the lexical
context there, and a step goes over no more than a byte and the second byte of a mark. So no index is out
of range, and no loop has more steps than there are bytes. -/
namespace SymbolIndex

namespace Bytewise

open Text

@[simp] theorem ok_bind {α β : Type} (a : α) (f : α → Except Breach β) : (.ok a >>= f) = f a := rfl

@[simp] theorem pure_eq_ok {α : Type} (a : α) : (pure a : Except Breach α) = .ok a := rfl

/-- What succeeds did so at every step. -/
theorem exists_of_bind_eq_ok {α β : Type} {x : Except Breach α} {f : α → Except Breach β} {b : β}
    (succeeds : (x >>= f) = .ok b) : ∃ a, x = .ok a ∧ f a = .ok b := by
  cases x with
  | error breach => cases succeeds
  | ok a => exact ⟨a, rfl, succeeds⟩

/-- What a scan knows is what the lexical context tells, given the bytes to come: where a mark begins
it has looked ahead, so what is left to be one half of a mark is not followed by the other. -/
inductive State.Agrees : State → (previous : UInt8) → (rest : List UInt8) → Lexical → Prop where
  | code {previous : UInt8} {rest : List UInt8} {tail : CodeTail}
      (escapes : tail = .backslash ↔ previous = '\\'.toUInt8)
      (noMark : tail = .slash →
        rest.head? ≠ some '/'.toUInt8 ∧ rest.head? ≠ some '*'.toUInt8) :
      Agrees .code previous rest (.code tail)
  | quoted {previous mark : UInt8} {rest : List UInt8} {escaped : Bool}
      (marked : isQuoteByte mark = true) (escapes : escaped = true ↔ previous = '\\'.toUInt8) :
      Agrees (.quoted mark) previous rest (.quoted (asChar mark) escaped)
  | lineComment {previous : UInt8} {rest : List UInt8} :
      Agrees .lineComment previous rest .lineComment
  | blockComment {previous : UInt8} {rest : List UInt8} {star : Bool}
      (noMark : star = true → rest.head? ≠ some '/'.toUInt8) :
      Agrees .blockComment previous rest (.blockComment star)

namespace State

variable {state : State} {previous b : UInt8} {rest : List UInt8} {context : Lexical}

/-- Behind a backslash no mark is half read, whatever comes next. -/
theorem agrees_backslash (escapes : previous = '\\'.toUInt8) :
    code.Agrees previous rest (.code .backslash) :=
  .code (iff_of_true rfl escapes) fun half => absurd half (by decide)

/-- Nor is one behind a byte that has no part in any. -/
theorem agrees_plain (other : previous ≠ '\\'.toUInt8) : code.Agrees previous rest (.code .plain) :=
  .code (iff_of_false (by decide) other) fun half => absurd half (by decide)

theorem isQuoteMark_asChar (b : UInt8) : Lexical.isQuoteMark (asChar b) = isQuoteByte b := by
  have double : asChar b = '\x22' ↔ b = '\x22'.toUInt8 := asChar_eq_iff (by decide)
  have single : asChar b = '\x27' ↔ b = '\x27'.toUInt8 := asChar_eq_iff (by decide)
  rw [Bool.eq_iff_iff]
  simp [Lexical.isQuoteMark, isQuoteByte, double, single]

theorem Agrees.weight_eq (agrees : state.Agrees previous rest context) (b : UInt8) :
    state.weight b = context.weight (asChar b) := by
  have opening : asChar b = '\x7b' ↔ b = '\x7b'.toUInt8 := asChar_eq_iff (by decide)
  have closing : asChar b = '\x7d' ↔ b = '\x7d'.toUInt8 := asChar_eq_iff (by decide)
  cases agrees with
  | code => simp only [weight, Lexical.weight, opening, closing]
  | quoted | lineComment | blockComment => rfl

/-- Behind a byte of code that begins no mark, more code follows, or the text that it quotes. -/
private theorem code_next {tail : CodeTail} (escapes : tail = .backslash ↔ previous = '\\'.toUInt8)
    (noMark : tail = .slash → b ≠ '/'.toUInt8 ∧ b ≠ '*'.toUInt8) :
    (Lexical.code tail).next (asChar b) =
      if isQuoteByte b ∧ previous ≠ '\\'.toUInt8 then .quoted (asChar b) false
      else .code (Lexical.tailOf (asChar b)) := by
  have slash : asChar b = '/' ↔ b = '/'.toUInt8 := asChar_eq_iff (by decide)
  have star : asChar b = '*' ↔ b = '*'.toUInt8 := asChar_eq_iff (by decide)
  have notLine : ¬ (tail = .slash ∧ asChar b = '/') := fun both =>
    (noMark both.1).1 (slash.mp both.2)
  have notBlock : ¬ (tail = .slash ∧ asChar b = '*') := fun both =>
    (noMark both.1).2 (star.mp both.2)
  rw [Lexical.next, if_neg notLine, if_neg notBlock, isQuoteMark_asChar]
  simp only [ne_eq, escapes]

/-- Code behind a byte, where the byte is not the first half of a mark. -/
private theorem agrees_code
    (noMark : b = '/'.toUInt8 → rest.head? ≠ some '/'.toUInt8 ∧ rest.head? ≠ some '*'.toUInt8) :
    code.Agrees b rest (.code (Lexical.tailOf (asChar b))) := by
  have slash : asChar b = '/' ↔ b = '/'.toUInt8 := asChar_eq_iff (by decide)
  have backslash : asChar b = '\\' ↔ b = '\\'.toUInt8 := asChar_eq_iff (by decide)
  simp only [Lexical.tailOf, slash, backslash]
  split
  · rename_i isBackslash
    exact agrees_backslash isBackslash
  · rename_i other
    split
    · rename_i isSlash
      exact .code (iff_of_false (by decide) other) fun _ => noMark isSlash
    · exact agrees_plain other

/-- From a byte on one step goes over that byte alone, or over it and the next one as the two bytes of
a mark, and knows what the context behind them tells. The second byte of a mark is no brace. -/
inductive Steps (state : State) (previous b : UInt8) (rest : List UInt8) (context : Lexical) : Prop where
  | one (next : State) (reads : state.read previous b rest.head? = (1, next))
      (agrees : next.Agrees b rest (context.next (asChar b)))
  | two (b' : UInt8) (later : List UInt8) (next : State) (ahead : rest = b' :: later)
      (reads : state.read previous b rest.head? = (2, next))
      (agrees : next.Agrees b' later ((context.next (asChar b)).next (asChar b')))
      (noBrace : (context.next (asChar b)).weight (asChar b') = 0)

private theorem exists_cons_of_head? {k : UInt8} (next : rest.head? = some k) :
    ∃ later, rest = k :: later := by
  cases rest with
  | nil => cases next
  | cons k' later => exact ⟨later, congrArg (· :: later) (Option.some.inj next)⟩

private theorem steps_code {tail : CodeTail} (escapes : tail = .backslash ↔ previous = '\\'.toUInt8)
    (noMark : tail = .slash → b ≠ '/'.toUInt8 ∧ b ≠ '*'.toUInt8) :
    code.Steps previous b rest (.code tail) := by
  have onward := code_next escapes noMark
  by_cases line : b = '/'.toUInt8 ∧ rest.head? = some '/'.toUInt8
  · obtain ⟨later, rfl⟩ := exists_cons_of_head? line.2
    obtain ⟨rfl, -⟩ := line
    exact .two _ later _ rfl rfl (onward ▸ .lineComment) (onward ▸ rfl)
  by_cases block : b = '/'.toUInt8 ∧ rest.head? = some '*'.toUInt8
  · obtain ⟨later, rfl⟩ := exists_cons_of_head? block.2
    obtain ⟨rfl, -⟩ := block
    exact .two _ later _ rfl rfl (onward ▸ .blockComment (absurd · Bool.false_ne_true)) (onward ▸ rfl)
  by_cases opens : isQuoteByte b ∧ previous ≠ '\\'.toUInt8
  · have other : b ≠ '\\'.toUInt8 := by
      rintro rfl
      cases opens.1
    refine .one (.quoted b) (by rw [State.read, if_neg line, if_neg block, if_pos opens]) ?_
    rw [onward, if_pos opens]
    exact .quoted opens.1 (iff_of_false Bool.false_ne_true other)
  · refine .one .code (by rw [State.read, if_neg line, if_neg block, if_neg opens]) ?_
    rw [onward, if_neg opens]
    exact agrees_code fun isSlash =>
      ⟨fun next => line ⟨isSlash, next⟩, fun next => block ⟨isSlash, next⟩⟩

private theorem steps_quoted {mark : UInt8} {escaped : Bool} (marked : isQuoteByte mark = true)
    (escapes : escaped = true ↔ previous = '\\'.toUInt8) :
    (quoted mark).Steps previous b rest (.quoted (asChar mark) escaped) := by
  have backslash : asChar b = '\\' ↔ b = '\\'.toUInt8 := asChar_eq_iff (by decide)
  refine .one _ rfl ?_
  simp only [Lexical.next, asChar_inj, ← Bool.not_eq_true, escapes, ne_eq]
  split
  · rename_i closes
    have other : b ≠ '\\'.toUInt8 := by
      rintro rfl
      rw [← closes.1] at marked
      cases marked
    exact agrees_plain other
  · exact .quoted marked (beq_iff_eq.trans backslash)

private theorem steps_lineComment : lineComment.Steps previous b rest .lineComment := by
  have newline : asChar b = '\n' ↔ b = '\n'.toUInt8 := asChar_eq_iff (by decide)
  refine .one _ rfl ?_
  simp only [Lexical.next, newline]
  split
  · rename_i ends
    exact agrees_plain (ends ▸ by decide)
  · exact .lineComment

private theorem steps_blockComment {star : Bool} (noMark : star = true → b ≠ '/'.toUInt8) :
    blockComment.Steps previous b rest (.blockComment star) := by
  have slash : asChar b = '/' ↔ b = '/'.toUInt8 := asChar_eq_iff (by decide)
  have isStar : asChar b = '*' ↔ b = '*'.toUInt8 := asChar_eq_iff (by decide)
  have notEnd : ¬ (star = true ∧ asChar b = '/') := fun both => noMark both.1 (slash.mp both.2)
  have onward : (Lexical.blockComment star).next (asChar b) = .blockComment (asChar b == '*') := by
    rw [Lexical.next, if_neg notEnd]
  by_cases mark : b = '*'.toUInt8 ∧ rest.head? = some '/'.toUInt8
  · obtain ⟨later, rfl⟩ := exists_cons_of_head? mark.2
    obtain ⟨rfl, -⟩ := mark
    exact .two _ later _ rfl rfl (onward ▸ agrees_plain (by decide)) (onward ▸ rfl)
  · refine .one .blockComment (by rw [State.read, if_neg mark]) (onward ▸ .blockComment ?_)
    exact fun half next => mark ⟨isStar.mp (beq_iff_eq.mp half), next⟩

/-- Every step from a byte knows what the context tells behind what it goes over. -/
theorem Agrees.steps (agrees : state.Agrees previous (b :: rest) context) :
    state.Steps previous b rest context := by
  cases agrees with
  | code escapes noMark => exact steps_code escapes fun half => by simpa using noMark half
  | quoted marked escapes => exact steps_quoted marked escapes
  | lineComment => exact steps_lineComment
  | blockComment noMark => exact steps_blockComment fun half => by simpa using noMark half

end State

section Scan

variable {bytes : List UInt8} {cursor : Cursor} {b : UInt8} {rest : List UInt8} {context : Lexical}

theorem itemAt_of_drop {α : Type} {items later : List α} {index : Nat} {item : α}
    (here : items.drop index = item :: later) : itemAt items index = .ok item := by
  have found : items[index]? = some item := by rw [← List.head?_drop, here, List.head?_cons]
  rw [itemAt, found]

theorem drop_of_drop {α : Type} {items later : List α} {index : Nat} {item : α}
    (here : items.drop index = item :: later) : items.drop (index + 1) = later := by
  rw [← List.drop_drop, here, List.drop_one, List.tail_cons]

/-- A step from a byte on reads no byte that there is not, and comes to a cursor that knows what the
context tells there. Between the two no brace counts. -/
theorem advance_agrees (here : bytes.drop cursor.index = b :: rest)
    (agrees : cursor.state.Agrees cursor.previous (b :: rest) context) :
    ∃ taken later next, rest = taken ++ later ∧ cursor.advance bytes = .ok next ∧
      next.index = cursor.index + 1 + taken.length ∧ bytes.drop next.index = later ∧
      next.state.Agrees next.previous later ((context.next (asChar b)).after (taken.map asChar)) ∧
      (context.next (asChar b)).Silent (taken.map asChar) := by
  have ahead : bytes[cursor.index + 1]? = rest.head? := by
    rw [← drop_of_drop here, List.head?_drop]
  have behind (width : Nat) : minus (cursor.index + (width + 1)) 1 = .ok (cursor.index + width) := by
    rw [minus, if_pos (by omega)]
    rfl
  unfold Cursor.advance
  rw [itemAt_of_drop here, ahead, ok_bind]
  cases agrees.steps with
  | one state reads onward =>
    simp only [reads, behind 0, ok_bind, Nat.add_zero, itemAt_of_drop here]
    exact ⟨[], rest, _, rfl, rfl, rfl, drop_of_drop here, onward, trivial⟩
  | two b' later state isNext reads onward noBrace =>
    subst isNext
    simp only [reads, behind 1, ok_bind, itemAt_of_drop (drop_of_drop here)]
    exact ⟨[b'], later, _, rfl, rfl, rfl, drop_of_drop (drop_of_drop here), onward, noBrace, trivial⟩

theorem lt_length_of_drop {α : Type} {items later : List α} {index : Nat} {item : α}
    (here : items.drop index = item :: later) : index < items.length := by
  by_contra beyond
  rw [List.drop_eq_nil_of_le (by omega)] at here
  cases here

theorem length_le_of_drop {α : Type} {items : List α} {index : Nat} (here : items.drop index = []) :
    ¬ index < items.length := by
  have := List.drop_eq_nil_iff.mp here
  omega

/-- A scan to the end takes at most one step for each byte and finds the depth there. -/
theorem depthFrom_eq {steps : Nat} (here : bytes.drop cursor.index = rest)
    (agrees : cursor.state.Agrees cursor.previous rest context) (enough : rest.length ≤ steps)
    (depth : Int) :
    depthFrom bytes steps cursor depth = .ok (depth + (context.scan (rest.map asChar)).2) := by
  induction steps generalizing cursor rest context depth with
  | zero =>
    obtain rfl := List.eq_nil_of_length_eq_zero (Nat.le_zero.mp enough)
    rw [depthFrom, if_neg (length_le_of_drop here)]
    exact congrArg Except.ok (Int.add_zero depth).symm
  | succ steps ih =>
    cases rest with
    | nil =>
      rw [depthFrom, if_neg (length_le_of_drop here)]
      exact congrArg Except.ok (Int.add_zero depth).symm
    | cons b rest =>
      obtain ⟨taken, later, next, rfl, advances, -, there, onward, silent⟩ :=
        advance_agrees here agrees
      have fewer : later.length ≤ steps := by
        rw [List.length_cons, List.length_append] at enough
        omega
      rw [depthFrom, if_pos (lt_length_of_drop here), itemAt_of_drop here, advances, ok_bind, ok_bind,
        ih there onward fewer, List.map_cons, List.map_append, Lexical.scan_cons, Lexical.scan_append,
        silent.scan, agrees.weight_eq, Int.zero_add, Int.add_assoc]

/-- A scan for a brace takes at most one step for each byte and finds the one that closes the block. -/
theorem closeFrom_eq {steps : Nat} (here : bytes.drop cursor.index = rest)
    (agrees : cursor.state.Agrees cursor.previous rest context) (enough : rest.length ≤ steps)
    (depth : Int) :
    closeFrom bytes steps cursor depth =
      .ok (context.closing? depth cursor.index (rest.map asChar)) := by
  induction steps generalizing cursor rest context depth with
  | zero =>
    obtain rfl := List.eq_nil_of_length_eq_zero (Nat.le_zero.mp enough)
    rw [closeFrom, if_neg (length_le_of_drop here)]
    rfl
  | succ steps ih =>
    cases rest with
    | nil =>
      rw [closeFrom, if_neg (length_le_of_drop here)]
      rfl
    | cons b rest =>
      obtain ⟨taken, later, next, rfl, advances, place, there, onward, silent⟩ :=
        advance_agrees here agrees
      have fewer : later.length ≤ steps := by
        rw [List.length_cons, List.length_append] at enough
        omega
      have closes : (context.weight (asChar b) = -1 ∧ depth + context.weight (asChar b) = 0) ↔
          (context.weight (asChar b) = -1 ∧ depth = 1) := by omega
      rw [closeFrom, if_pos (lt_length_of_drop here), itemAt_of_drop here, advances, ok_bind,
        List.map_cons, Lexical.closing?]
      simp only [agrees.weight_eq, closes]
      split
      · rfl
      · rw [ok_bind, ih there onward fewer, List.map_append, Lexical.closing?_append,
          silent.closing?, silent.scan, List.length_map, Int.add_zero, Option.none_or, place]

/-- The balance of any bytes is that of the characters that they stand for. -/
theorem balance_eq (bytes : List UInt8) : balance bytes = .ok (braceBalance (bytes.map asChar)) := by
  have whole : bytes.drop (Cursor.mk 0 0 .code).index = bytes := rfl
  have agrees : State.code.Agrees 0 bytes .start := State.agrees_plain (by decide)
  rw [balance, depthFrom_eq whole agrees (Nat.le_refl _), Int.zero_add]
  rfl

theorem exists_byteBefore (before rest : List UInt8) :
    ∃ previous, byteBefore (before ++ rest) before.length = .ok previous ∧
      (before.getLast?.map asChar = some '\\' ↔ previous = '\\'.toUInt8) := by
  rcases List.eq_nil_or_concat before with rfl | ⟨earlier, b, rfl⟩
  · exact ⟨0, rfl, iff_of_false (by simp) (by decide)⟩
  · rw [List.concat_eq_append]
    refine ⟨b, ?_, ?_⟩
    · have last : itemAt (earlier ++ [b] ++ rest) earlier.length = .ok b := by simp [itemAt]
      rw [byteBefore, List.length_append, List.length_singleton, if_neg (Nat.succ_ne_zero _), minus,
        if_pos (Nat.le_add_left _ _), ok_bind, Nat.add_sub_cancel, last]
    · rw [List.getLast?_concat, Option.map_some, Option.some_inj, asChar_eq_iff (by decide)]

/-- Wherever a scan for a brace sets in, it looks for the brace in the characters that the bytes from
there on stand for, in the context that the byte before them leaves. -/
theorem matchingClose_eq (before rest : List UInt8) :
    matchingClose (before ++ rest) before.length =
      .ok ((Lexical.following (before.getLast?.map asChar)).closing? 0 before.length
        (rest.map asChar)) := by
  obtain ⟨previous, looksBack, same⟩ := exists_byteBefore before rest
  have agrees : State.code.Agrees previous rest (Lexical.following (before.getLast?.map asChar)) := by
    unfold Lexical.following
    split
    · rename_i escapes
      exact State.agrees_backslash (same.mp escapes)
    · rename_i plain
      exact State.agrees_plain fun escapes => plain (same.mpr escapes)
  have there : (before ++ rest).drop (Cursor.mk before.length previous .code).index = rest :=
    List.drop_left
  unfold matchingClose
  split
  · rename_i beyond
    rw [List.length_append] at beyond
    obtain rfl : rest = [] := List.eq_nil_of_length_eq_zero (by omega)
    rfl
  · rw [looksBack, ok_bind, List.length_append, Nat.add_sub_cancel_left,
      closeFrom_eq there agrees (Nat.le_refl _)]

end Scan

section Characters

/-- A text has the balance of its bytes. -/
theorem balance_bytes (s : List Char) : balance (bytes s) = .ok (braceBalance s) := by
  have marked : Lexical.start.Marked := trivial
  rw [balance_eq, braceBalance, marked.scan_bytes]
  rfl

theorem following_of_mute {c : Char} (mute : Lexical.Mute c) :
    Lexical.following (some c) = Lexical.start := by
  obtain ⟨-, -, -, backslash, -⟩ := mute
  rw [Lexical.following, if_neg fun same => backslash (Option.some.inj same)]

/-- What the last byte of a text leaves behind is what its last character does. -/
theorem following_bytes (s : List Char) :
    Lexical.following ((bytes s).getLast?.map asChar) = Lexical.following s.getLast? := by
  rcases List.eq_nil_or_concat s with rfl | ⟨earlier, c, rfl⟩
  · rfl
  · have own : bytes [c] = String.utf8EncodeChar c := List.append_nil _
    rw [List.concat_eq_append, List.getLast?_concat, ← List.getLast?_map, bytes_append,
      List.map_append, own]
    rcases encoded_cases c with single | ⟨mute, first, later, shape, mutes⟩
    · rw [single, List.getLast?_concat]
    · have last := mutes _ (List.getLast_mem (List.cons_ne_nil first later))
      rw [shape, List.getLast?_append_of_ne_nil _ (List.cons_ne_nil first later),
        List.getLast?_eq_some_getLast (List.cons_ne_nil first later), following_of_mute mute,
        following_of_mute last]

/-- The brace that a scan of the bytes finds has its byte offset for an index. -/
theorem matchingClose_bytes (before rest : List Char) :
    matchingClose (bytes (before ++ rest)) (byteLength before) =
      .ok (matchingClose? (before ++ rest) (byteLength before)) := by
  have marked : (Lexical.following before.getLast?).Marked := by
    unfold Lexical.following
    split <;> trivial
  rw [bytes_append, ← length_bytes, matchingClose_eq, following_bytes, marked.closing?_bytes,
    length_bytes, matchingClose?, splitAtByte_byteLength]

end Characters

end Bytewise

end SymbolIndex
