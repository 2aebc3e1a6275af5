import Mathlib.Algebra.Ring.Int.Defs
import SymbolIndex.Proofs.ByteScan
import SymbolIndex.Proofs.Occurrence

/-! Braces add up over lines. A line that ends in code or in a line comment hands nothing on behind its
newline: neither half a mark, nor a backslash, nor the comment. So the next line is read as if the text
began with it, and the depth behind a text is the sum of what its lines say on their own. A line that ends
inside quoted text or a block comment would hide a brace of the next one, so no other lines add up. -/
namespace SymbolIndex

namespace Lexical

open Text

/-- Reading the bytes of a text one by one leaves the context that the text leaves. -/
theorem Marked.after_bytes {context : Lexical} (marked : context.Marked) (s : List Char) :
    context.after ((bytes s).map asChar) = context.after s := by
  induction s generalizing context with
  | nil => rfl
  | cons c s ih =>
    obtain ⟨ends, -⟩ := marked.encoded c
    calc context.after ((bytes (c :: s)).map asChar)
        = (context.after ((String.utf8EncodeChar c).map asChar)).after ((bytes s).map asChar) := by
          rw [bytes_cons, List.map_append, after_append]
      _ = (context.next c).after s := by rw [ends, ih (marked.next c)]

/-- Behind a newline quoted text and block comments go on, and a brace in them does not count. -/
theorem Marked.hides_brace {context : Lexical} (marked : context.Marked)
    (unsettled : ¬ context.Settled) : (context.next '\n').weight '\x7d' = 0 := by
  cases context with
  | code tail => exact absurd trivial unsettled
  | lineComment => exact absurd trivial unsettled
  | quoted mark escaped =>
    have stays : (quoted mark escaped).next '\n' = quoted mark false := quoted_next_blank marked escaped rfl
    rw [stays]
    rfl
  | blockComment star =>
    have stays : (blockComment star).next '\n' = blockComment false := block_next_blank star rfl
    rw [stays]
    rfl

end Lexical

/-- What stands behind a newline counts in the context that the newline leaves. -/
theorem braceBalance_newline (a b : List Char) :
    braceBalance (a ++ '\n' :: b) =
      braceBalance a + (((Lexical.start.after a).next '\n').scan b).2 := by
  have weightless : (Lexical.start.after a).weight '\n' = 0 := Lexical.weight_of_blank _ rfl
  simp only [braceBalance, Lexical.scan_append, Lexical.scan_cons, weightless, Int.zero_add]

theorem braceBalance_newline_of_settled {a : List Char} (settled : (Lexical.start.after a).Settled)
    (b : List Char) : braceBalance (a ++ '\n' :: b) = braceBalance a + braceBalance b := by
  rw [braceBalance_newline, Lexical.next_newline settled]
  rfl

/-- Behind any other line a brace is lost. -/
theorem braceBalance_newline_of_unsettled {a : List Char}
    (unsettled : ¬ (Lexical.start.after a).Settled) :
    braceBalance (a ++ ['\n', '\x7d']) ≠ braceBalance a + braceBalance ['\x7d'] := by
  have fresh : Lexical.start.Marked := trivial
  have hidden := (fresh.after a).hides_brace unsettled
  have counted : braceBalance ['\x7d'] = -1 := rfl
  rw [braceBalance_newline, Lexical.scan_cons, hidden, counted, Int.zero_add]
  show braceBalance a + 0 ≠ braceBalance a + -1
  omega

theorem braceBalance_lines {lines : List (List Char)}
    (settled : ∀ line ∈ lines, (Lexical.start.after line).Settled) :
    braceBalance (['\n'].intercalate lines) = (lines.map braceBalance).sum := by
  induction lines with
  | nil => rfl
  | cons line later ih =>
    obtain ⟨first, others⟩ := List.forall_mem_cons.mp settled
    cases later with
    | nil => simp
    | cons next later =>
      rw [Text.intercalate_cons_cons, braceBalance_newline_of_settled first, ih others]
      rfl

namespace Bytewise

open Text

/-- The state in which a scan to the end of some bytes stops, from a cursor on. -/
def stateFrom (bytes : List UInt8) : (steps : Nat) → Cursor → Except Breach State
  | 0, cursor => if cursor.index < bytes.length then .error .outOfSteps else .ok cursor.state
  | steps + 1, cursor =>
    if cursor.index < bytes.length then do stateFrom bytes steps (← cursor.advance bytes)
    else .ok cursor.state

/-- The scan that counts the braces of some bytes ends in code or in a line comment. -/
def EndsOutside (bytes : List UInt8) : Prop :=
  ∃ state, stateFrom bytes bytes.length ⟨0, 0, .code⟩ = .ok state ∧
    (state = .code ∨ state = .lineComment)

/-- A scan stops, and what it knows then is what the lexical context tells at the end. -/
theorem stateFrom_agrees {bytes rest : List UInt8} {cursor : Cursor} {context : Lexical} {steps : Nat}
    (here : bytes.drop cursor.index = rest)
    (agrees : cursor.state.Agrees cursor.previous rest context) (enough : rest.length ≤ steps) :
    ∃ state previous, stateFrom bytes steps cursor = .ok state ∧
      state.Agrees previous [] (context.after (rest.map asChar)) := by
  induction steps generalizing cursor rest context with
  | zero =>
    obtain rfl := List.eq_nil_of_length_eq_zero (Nat.le_zero.mp enough)
    exact ⟨cursor.state, cursor.previous, if_neg (length_le_of_drop here), agrees⟩
  | succ steps ih =>
    cases rest with
    | nil => exact ⟨cursor.state, cursor.previous, if_neg (length_le_of_drop here), agrees⟩
    | cons b rest =>
      obtain ⟨taken, later, next, rfl, advances, -, there, onward, -⟩ := advance_agrees here agrees
      have fewer : later.length ≤ steps := by
        simp only [List.length_cons, List.length_append] at enough
        omega
      obtain ⟨state, previous, stops, ends⟩ := ih there onward fewer
      refine ⟨state, previous, ?_, ?_⟩
      · simp only [stateFrom, if_pos (lt_length_of_drop here), advances, ok_bind, stops]
      · simpa only [List.map_cons, List.map_append, Lexical.after_cons, Lexical.after_append] using ends

theorem State.Agrees.settled_iff {state : State} {previous : UInt8} {rest : List UInt8}
    {context : Lexical} (agrees : state.Agrees previous rest context) :
    (state = .code ∨ state = .lineComment) ↔ context.Settled := by
  cases agrees with
  | code => exact iff_of_true (.inl rfl) trivial
  | lineComment => exact iff_of_true (.inr rfl) trivial
  | quoted => exact iff_of_false (by simp) id
  | blockComment => exact iff_of_false (by simp) id

theorem endsOutside_iff (bytes : List UInt8) :
    EndsOutside bytes ↔ (Lexical.start.after (bytes.map asChar)).Settled := by
  have agrees : State.code.Agrees 0 bytes .start := State.agrees_plain (by decide)
  have whole : bytes.drop (Cursor.mk 0 0 .code).index = bytes := rfl
  obtain ⟨state, previous, stops, ends⟩ := stateFrom_agrees whole agrees (Nat.le_refl _)
  rw [← ends.settled_iff]
  constructor
  · rintro ⟨_, same, outside⟩
    obtain rfl := Except.ok.inj (stops.symm.trans same)
    exact outside
  · intro outside
    exact ⟨state, stops, outside⟩

theorem endsOutside_bytes_iff (s : List Char) :
    EndsOutside (bytes s) ↔ (Lexical.start.after s).Settled := by
  have marked : Lexical.start.Marked := trivial
  rw [endsOutside_iff, marked.after_bytes]

/-- Bytes add up with whatever comes behind a newline just if their scan ends in code or in a line
comment. -/
theorem endsOutside_iff_adds (a : List UInt8) :
    EndsOutside a ↔ ∀ b, ∃ m n, balance a = .ok m ∧ balance b = .ok n ∧
      balance (a ++ '\n'.toUInt8 :: b) = .ok (m + n) := by
  have own {c : Char} (small : c.toNat < 128) : asChar c.toUInt8 = c := (asChar_eq_iff small).mpr rfl
  have seam (b : List UInt8) :
      (a ++ '\n'.toUInt8 :: b).map asChar = a.map asChar ++ '\n' :: b.map asChar := by
    rw [List.map_append, List.map_cons, own (by decide)]
  rw [endsOutside_iff]
  constructor
  · intro settled b
    refine ⟨_, _, balance_eq a, balance_eq b, ?_⟩
    rw [balance_eq, seam, braceBalance_newline_of_settled settled]
  · intro adds
    by_contra unsettled
    obtain ⟨m, n, before, brace, both⟩ := adds ['\x7d'.toUInt8]
    rw [balance_eq] at before brace both
    rw [seam, ← Except.ok.inj before, ← Except.ok.inj brace] at both
    simp only [List.map_cons, List.map_nil, own (show '\x7d'.toNat < 128 by decide)] at both
    exact braceBalance_newline_of_unsettled unsettled (Except.ok.inj both)

end Bytewise

/-- Braces add up over lines. A scan of some bytes that ends in code or in a line comment, and no other,
adds up with the scan of whatever bytes follow behind a newline; so the depths that lines come to on their
own, each ending there, add up to the depth of the text that they make, and a line may be trimmed before
its braces are counted. -/
theorem balances_add_over_lines :
    (∀ a : List UInt8, Bytewise.EndsOutside a ↔
      ∀ b, ∃ m n, Bytewise.balance a = .ok m ∧ Bytewise.balance b = .ok n ∧
        Bytewise.balance (a ++ '\n'.toUInt8 :: b) = .ok (m + n)) ∧
    (∀ a b : List Char, Bytewise.EndsOutside (Text.bytes a) →
      braceBalance (a ++ '\n' :: b) = braceBalance a + braceBalance b) ∧
    (∀ lines : List (List Char), (∀ line ∈ lines, Bytewise.EndsOutside (Text.bytes line)) →
      (lines.map braceBalance).sum = braceBalance (['\n'].intercalate lines)) ∧
    ∀ line : List Char, braceBalance (Text.trim line) = braceBalance line := by
  refine ⟨Bytewise.endsOutside_iff_adds, ?_, ?_, braceBalance_trim⟩
  · intro a b outside
    exact braceBalance_newline_of_settled ((Bytewise.endsOutside_bytes_iff a).mp outside) b
  · intro lines outside
    apply Eq.symm
    apply braceBalance_lines
    intro line member
    exact (Bytewise.endsOutside_bytes_iff line).mp (outside line member)

/-- Lines with something at each seam that the next line must not see: an apostrophe in a comment, half a
mark before its other half, and a backslash before a quote mark. -/
def seams : List (List Char) :=
  ["area() \x7b // it's".toList, "  '\x7d' /".toList, "/ total \\".toList, "\"\x7d\" \x7d".toList]

/-- The lines of `seams` close the block that they open, one by one as well as together. -/
theorem balances_add_over_seams :
    (∀ line ∈ seams, Bytewise.EndsOutside (Text.bytes line)) ∧
      seams.map braceBalance = [1, 0, 0, -1] ∧ braceBalance (['\n'].intercalate seams) = 0 := by
  have outside : ∀ line ∈ seams, Bytewise.EndsOutside (Text.bytes line) := by
    have settled : ∀ line ∈ seams, (Lexical.start.after line).Settled := by decide +kernel
    intro line member
    exact (Bytewise.endsOutside_bytes_iff line).mpr (settled line member)
  have each : seams.map braceBalance = [1, 0, 0, -1] := by decide +kernel
  obtain ⟨-, -, adds, -⟩ := balances_add_over_lines
  refine ⟨outside, each, ?_⟩
  rw [← adds seams outside, each]
  rfl

end SymbolIndex
