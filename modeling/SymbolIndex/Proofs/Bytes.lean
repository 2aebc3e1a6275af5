import SymbolIndex.Proofs.OpaqueTokens

/-! The bytes of a text. What steers a scan for braces takes one byte, and every byte of any other
character lies above the ASCII range, where nothing opens, closes or escapes anything. So a scan may take
each byte for a character of its own: it comes to the same depths, and its indices are byte offsets. -/
namespace SymbolIndex

namespace Lexical

/-- A character that a scan for braces takes no notice of. -/
def Mute (c : Char) : Prop :=
  c ≠ '\n' ∧ c ≠ '/' ∧ c ≠ '*' ∧ c ≠ '\\' ∧ c ≠ '\x7b' ∧ c ≠ '\x7d' ∧ isQuoteMark c = false

theorem mute_of_large {c : Char} (large : 128 ≤ c.toNat) : Mute c := by
  have other {d : Char} (small : d.toNat < 128) : c ≠ d := by
    rintro rfl
    omega
  refine ⟨other (by decide), other (by decide), other (by decide), other (by decide),
    other (by decide), other (by decide), ?_⟩
  simp [isQuoteMark, other (d := '\x22') (by decide), other (d := '\x27') (by decide)]

/-- What is left of a context behind a character that it takes no notice of. -/
def quiet : Lexical → Lexical
  | code _ => start
  | quoted mark _ => quoted mark false
  | lineComment => lineComment
  | blockComment _ => blockComment false

theorem quiet_quiet (context : Lexical) : context.quiet.quiet = context.quiet := by
  cases context <;> rfl

theorem Marked.quiet {context : Lexical} (marked : context.Marked) : context.quiet.Marked := by
  cases context <;> exact marked

theorem Marked.next_mute {context : Lexical} (marked : context.Marked) {c : Char} (mute : Mute c) :
    context.next c = context.quiet := by
  obtain ⟨newline, slash, star, backslash, -, -, quote⟩ := mute
  cases context with
  | code tail => simp [Lexical.next, star, slash, quote, tailOf, backslash, Lexical.quiet, start]
  | quoted mark escaped =>
    have other : c ≠ mark := by
      rintro rfl
      exact Bool.noConfusion (quote.symm.trans marked)
    simp [Lexical.next, other, backslash, Lexical.quiet]
  | lineComment => simp [Lexical.next, newline, Lexical.quiet]
  | blockComment opened => simp [Lexical.next, slash, star, Lexical.quiet]

theorem weight_mute (context : Lexical) {c : Char} (mute : Mute c) : context.weight c = 0 := by
  obtain ⟨-, -, -, -, opening, closing, -⟩ := mute
  cases context <;> simp [weight, opening, closing]

/-- However many mute characters there are, they are like one, and no brace is among them. -/
theorem Marked.mutes {context : Lexical} (marked : context.Marked) {c : Char} {s : List Char}
    (mutes : ∀ k ∈ c :: s, Mute k) :
    context.after (c :: s) = context.quiet ∧ context.Silent (c :: s) := by
  induction s generalizing context c with
  | nil =>
    obtain ⟨first, -⟩ := List.forall_mem_cons.mp mutes
    exact ⟨marked.next_mute first, context.weight_mute first, trivial⟩
  | cons d s ih =>
    obtain ⟨first, later⟩ := List.forall_mem_cons.mp mutes
    obtain ⟨ends, silent⟩ := ih marked.quiet later
    rw [after_cons, Silent, marked.next_mute first, ends, quiet_quiet]
    exact ⟨rfl, context.weight_mute first, silent⟩

end Lexical

namespace Text

/-- A byte, taken for a character by itself. -/
def asChar (b : UInt8) : Char := Char.ofNat b.toNat

theorem bytes_append (a b : List Char) : bytes (a ++ b) = bytes a ++ bytes b :=
  List.flatMap_append

theorem bytes_cons (c : Char) (s : List Char) : bytes (c :: s) = String.utf8EncodeChar c ++ bytes s :=
  rfl

theorem length_bytes (s : List Char) : (bytes s).length = byteLength s := by
  induction s with
  | nil => rfl
  | cons c s ih =>
    rw [bytes_cons, List.length_append, String.length_utf8EncodeChar, ih, byteLength_cons]

theorem toNat_asChar (b : UInt8) : (asChar b).toNat = b.toNat := by
  have small : b.toNat < 256 := b.toNat_lt
  have valid : b.toNat.isValidChar := .inl (by omega)
  rw [asChar, Char.ofNat, dif_pos valid]
  rfl

theorem asChar_inj {a b : UInt8} : asChar a = asChar b ↔ a = b := by
  rw [← Char.toNat_inj, toNat_asChar, toNat_asChar, UInt8.toNat_inj]

/-- A byte stands for an ASCII character just if it is that character's own byte. -/
theorem asChar_eq_iff {b : UInt8} {c : Char} (small : c.toNat < 128) :
    asChar b = c ↔ b = c.toUInt8 := by
  have own : c.toUInt8.toNat = c.toNat := by
    show c.toNat % 256 = c.toNat
    omega
  rw [← Char.toNat_inj, toNat_asChar, ← UInt8.toNat_inj, own]

theorem encoded_ascii {c : Char} (small : c.toNat < 128) : String.utf8EncodeChar c = [c.toUInt8] :=
  String.utf8EncodeChar_eq_singleton (Char.utf8Size_eq_one_iff.mpr (Nat.le_of_lt_succ small))

theorem toList_toUTF8 (text : String) : text.toUTF8.data.toList = bytes text.toList := by
  have encoded : text.toList.utf8Encode = text.toUTF8 := String.utf8Encode_toList
  rw [← encoded, List.utf8Encode, List.toList_data_toByteArray, bytes]

/-- The bytes of a smaller character come first, whatever follows. -/
theorem encoded_append_lt {c d : Char} (less : c < d) (s t : List UInt8) :
    String.utf8EncodeChar c ++ s < String.utf8EncodeChar d ++ t := by
  have order : c.val.toNat < d.val.toNat := less
  have limit : d.val.toNat < 0x110000 := by
    rcases d.valid with below | above
    · exact Nat.lt_of_lt_of_le below (by decide)
    · exact above.2
  -- Every byte but the first holds six bits of the character, and the first those above them.
  have quotient : c.val.toNat / 64 < d.val.toNat / 64 ∨
      c.val.toNat / 64 = d.val.toNat / 64 ∧ c.val.toNat % 64 < d.val.toNat % 64 := by omega
  have quotient' : c.val.toNat / 4096 < d.val.toNat / 4096 ∨
      c.val.toNat / 4096 = d.val.toNat / 4096 ∧ c.val.toNat / 64 % 64 ≤ d.val.toNat / 64 % 64 := by
    omega
  unfold String.utf8EncodeChar
  dsimp only
  split_ifs <;>
    simp (disch := omega) only [List.cons_append, List.nil_append, List.cons_lt_cons_iff,
      UInt8.lt_iff_toNat_lt, ← UInt8.toNat_inj, UInt8.toNat_ofNat', Nat.mod_eq_of_lt] <;>
    omega

/-- Texts come in the order of their bytes. -/
theorem bytes_lt {a b : List Char} (less : a < b) : bytes a < bytes b := by
  induction a generalizing b with
  | nil =>
    cases b with
    | nil => exact absurd less (List.lt_irrefl [])
    | cons d b =>
      obtain ⟨first, later, shape⟩ : ∃ first later, bytes (d :: b) = first :: later := by
        apply List.exists_cons_of_ne_nil
        intro none
        have size := String.length_utf8EncodeChar d
        rw [(List.append_eq_nil_iff.mp none).1] at size
        exact absurd size.symm d.utf8Size_pos.ne'
      rw [shape]
      exact List.nil_lt_cons first later
  | cons c a ih =>
    cases b with
    | nil => exact absurd less (List.not_lt_nil (c :: a))
    | cons d b =>
      rw [bytes_cons, bytes_cons]
      rcases List.cons_lt_cons_iff.mp less with before | ⟨rfl, behind⟩
      · exact encoded_append_lt before (bytes a) (bytes b)
      · exact List.append_left_lt (ih behind)

/-- The bytes of a character that is not ASCII are not ASCII either. -/
theorem large_of_encoded {c : Char} (large : 128 ≤ c.toNat) {b : UInt8}
    (part : b ∈ String.utf8EncodeChar c) : 128 ≤ b.toNat := by
  have above : ¬ c.val.toNat ≤ 127 := by
    show ¬ c.toNat ≤ 127
    omega
  have marked {n : Nat} (inside : 128 ≤ n % 256) (isByte : b = UInt8.ofNat n) : 128 ≤ b.toNat := by
    rwa [isByte, UInt8.toNat_ofNat']
  simp only [String.utf8EncodeChar, if_neg above] at part
  split at part
  · rcases List.mem_pair.mp part with isByte | isByte <;> exact marked (by omega) isByte
  · split at part <;> simp only [List.mem_cons, List.not_mem_nil, or_false] at part
    · rcases part with isByte | isByte | isByte <;> exact marked (by omega) isByte
    · rcases part with isByte | isByte | isByte | isByte <;> exact marked (by omega) isByte

/-- The bytes of a character are the character itself, or lie above the ASCII range as it does. -/
theorem encoded_cases (c : Char) :
    (String.utf8EncodeChar c).map asChar = [c] ∨
      Lexical.Mute c ∧ ∃ first later, (String.utf8EncodeChar c).map asChar = first :: later ∧
        ∀ k ∈ first :: later, Lexical.Mute k := by
  by_cases small : c.toNat < 128
  · rw [encoded_ascii small, List.map_singleton, (asChar_eq_iff small).mpr rfl]
    exact .inl rfl
  · have large : 128 ≤ c.toNat := by omega
    have mutes : ∀ k ∈ (String.utf8EncodeChar c).map asChar, Lexical.Mute k := by
      intro k member
      obtain ⟨b, part, rfl⟩ := List.mem_map.mp member
      exact Lexical.mute_of_large (by rw [toNat_asChar]; exact large_of_encoded large part)
    refine .inr ⟨Lexical.mute_of_large large, ?_⟩
    cases shape : (String.utf8EncodeChar c).map asChar with
    | nil =>
      have size := congrArg List.length shape
      rw [List.length_map, String.length_utf8EncodeChar] at size
      exact absurd size c.utf8Size_pos.ne'
    | cons first later => exact ⟨first, later, rfl, shape ▸ mutes⟩

/-- An ASCII byte of a text is a character of it. -/
theorem exists_split_of_byte {s : List Char} {index : Nat} {b : UInt8}
    (here : (bytes s)[index]? = some b) (small : b.toNat < 128) :
    ∃ before rest, s = before ++ asChar b :: rest ∧ index = byteLength before := by
  induction s generalizing index with
  | nil => cases here
  | cons c s ih =>
    rw [bytes_cons] at here
    by_cases inside : index < (String.utf8EncodeChar c).length
    · rw [List.getElem?_append_left inside] at here
      have ascii : c.toNat < 128 := by
        by_contra large
        have := large_of_encoded (Nat.le_of_not_lt large) (List.mem_of_getElem? here)
        omega
      rw [encoded_ascii ascii] at here
      obtain ⟨rfl, own⟩ : index = 0 ∧ c.toUInt8 = b := by
        cases index with
        | zero => exact ⟨rfl, Option.some.inj here⟩
        | succ index => cases here
      exact ⟨[], s, congrArg (· :: s) ((asChar_eq_iff ascii).mpr own.symm).symm, rfl⟩
    · rw [List.getElem?_append_right (Nat.le_of_not_lt inside)] at here
      obtain ⟨before, rest, rfl, place⟩ := ih here
      refine ⟨c :: before, rest, rfl, ?_⟩
      rw [byteLength_cons, ← place, ← String.length_utf8EncodeChar]
      omega

end Text

namespace Lexical

open Text

/-- Reading the bytes of a character one by one is like reading the character. -/
theorem Marked.encoded {context : Lexical} (marked : context.Marked) (c : Char) :
    context.after ((String.utf8EncodeChar c).map asChar) = context.next c ∧
      (context.scan ((String.utf8EncodeChar c).map asChar)).2 = context.weight c ∧
      ∀ depth index, closing? context depth index ((String.utf8EncodeChar c).map asChar) =
        if context.weight c = -1 ∧ depth = 1 then some index else none := by
  cases encoded_cases c with
  | inl single =>
    rw [single, scan_cons]
    exact ⟨rfl, Int.add_zero _, fun depth index => rfl⟩
  | inr large =>
    obtain ⟨mute, first, later, shape, mutes⟩ := large
    obtain ⟨ends, silent⟩ := marked.mutes mutes
    rw [shape, ends, silent.scan, marked.next_mute mute, weight_mute context mute]
    exact ⟨rfl, rfl, fun depth index => by simp [silent.closing?]⟩

/-- A text has the balance of its bytes. -/
theorem Marked.scan_bytes {context : Lexical} (marked : context.Marked) (s : List Char) :
    (context.scan ((bytes s).map asChar)).2 = (context.scan s).2 := by
  induction s generalizing context with
  | nil => rfl
  | cons c s ih =>
    obtain ⟨ends, weighs, -⟩ := marked.encoded c
    rw [bytes_cons, List.map_append, scan_append, ends, weighs, ih (marked.next c), scan_cons]

/-- The index of a closing brace among the bytes of a text is its byte offset. -/
theorem Marked.closing?_bytes {context : Lexical} (marked : context.Marked) (depth : Int)
    (index : Nat) (s : List Char) :
    closing? context depth index ((bytes s).map asChar) =
      (closing? context depth 0 s).map fun found => index + byteOffset s found := by
  induction s generalizing context depth index with
  | nil => rfl
  | cons c s ih =>
    obtain ⟨ends, weighs, closes⟩ := marked.encoded c
    rw [bytes_cons, List.map_append, closing?_append, ends, weighs, closes, closing?,
      ih (marked.next c)]
    split
    · rfl
    · rw [Option.none_or, closing?_add _ _ 0 1, Option.map_map]
      refine congrArg (Option.map · _) (funext fun found => ?_)
      simp only [Function.comp_apply, byteOffset, List.take_succ_cons, byteLength_cons,
        List.length_map, String.length_utf8EncodeChar]
      omega

end Lexical

end SymbolIndex
