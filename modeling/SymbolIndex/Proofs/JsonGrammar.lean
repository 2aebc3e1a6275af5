import Mathlib.Data.List.Nodup
import Mathlib.Data.List.TakeWhile
import Mathlib.Tactic.SplitIfs
import SymbolIndex.Proofs.Printed
import SymbolIndex.Report.Json

/-! The grammar of JSON, which the writer uses only a part of. `Denotes` ties a text to the value that it
stands for, with blanks wherever the grammar has them and every way to write a number or a character.
What is written for a value is a text of the grammar, and it stands for that value. -/
namespace SymbolIndex

/-- A value of JSON. A number is kept as it is written. -/
inductive JsonValue where
  | null
  | bool (b : Bool)
  | number (written : List Char)
  | string (s : String)
  | array (items : List JsonValue)
  | object (fields : List (String × JsonValue))

namespace JsonValue

/-- The blanks that may stand around values and marks. -/
def isSpace (c : Char) : Bool := c == ' ' || c == '\t' || c == '\n' || c == '\r'

/-- Only such blanks. -/
def Spaces (s : List Char) : Prop := ∀ c ∈ s, isSpace c = true

/-- One digit or more. -/
def areDigits (s : List Char) : Bool := !s.isEmpty && s.all Char.isDigit

/-- A text without a sign that it begins with. -/
def unsigned : List Char → List Char
  | '+' :: s | '-' :: s => s
  | s => s

/-- Whether a text is the exponent of a number, or nothing. -/
def isExponent : List Char → Bool
  | [] => true
  | c :: s => (c == 'e' || c == 'E') && areDigits (unsigned s)

/-- Whether a text is the fraction of a number, if it has one, and the exponent. -/
def isFraction : List Char → Bool
  | '.' :: s => areDigits (s.takeWhile Char.isDigit) && isExponent (s.dropWhile Char.isDigit)
  | s => isExponent s

/-- Whether a text is a number without a minus sign. Only a zero that stands alone begins a whole
number. -/
def isUnsignedNumber : List Char → Bool
  | '0' :: s => isFraction s
  | c :: s => c.isDigit && isFraction (s.dropWhile Char.isDigit)
  | [] => false

/-- Whether a text is a number. -/
def isNumber : List Char → Bool
  | '-' :: s => isUnsignedNumber s
  | s => isUnsignedNumber s

/-- The character that a backslash and a letter stand for. -/
def shortEscape? : Char → Option Char
  | '\x22' => some '\x22'
  | '\\' => some '\\'
  | '/' => some '/'
  | 'b' => some '\x08'
  | 'f' => some '\x0c'
  | 'n' => some '\n'
  | 'r' => some '\r'
  | 't' => some '\t'
  | _ => none

/-- The value of a digit in base sixteen. -/
def hexValue? (c : Char) : Option Nat :=
  if c.isDigit then some (c.toNat - '0'.toNat)
  else if 'a' ≤ c ∧ c ≤ 'f' then some (c.toNat - 'a'.toNat + 10)
  else if 'A' ≤ c ∧ c ≤ 'F' then some (c.toNat - 'A'.toNat + 10)
  else none

/-- The code unit that four digits give. -/
def codeUnit? (a b c d : Char) : Option Nat := do
  let a ← hexValue? a
  let b ← hexValue? b
  let c ← hexValue? c
  let d ← hexValue? d
  return ((a * 16 + b) * 16 + c) * 16 + d

/-- Whether a code unit is the first half of a character beyond the first plane. -/
def isHighHalf (n : Nat) : Bool := 0xd800 ≤ n && n < 0xdc00

/-- Whether it is the second half of one. -/
def isLowHalf (n : Nat) : Bool := 0xdc00 ≤ n && n < 0xe000

/-- The character that two halves give. -/
def joined (high low : Nat) : Char := Char.ofNat (0x10000 + (high - 0xd800) * 0x400 + (low - 0xdc00))

/-- The characters that stand between quotes, and the text that they spell. -/
inductive Spells : List Char → List Char → Prop where
  | nil : Spells [] []
  | plain {c : Char} {s t : List Char} (printable : 0x20 ≤ c.toNat) (unquoted : c ≠ '\x22')
      (unescaped : c ≠ '\\') (later : Spells s t) : Spells (c :: s) (c :: t)
  | short {c d : Char} {s t : List Char} (named : shortEscape? c = some d) (later : Spells s t) :
      Spells ('\\' :: c :: s) (d :: t)
  | unit {a b c d : Char} {n : Nat} {s t : List Char} (digits : codeUnit? a b c d = some n)
      (whole : n.isValidChar) (later : Spells s t) :
      Spells ('\\' :: 'u' :: a :: b :: c :: d :: s) (Char.ofNat n :: t)
  | pair {a b c d a' b' c' d' : Char} {high low : Nat} {s t : List Char}
      (digits : codeUnit? a b c d = some high) (isHigh : isHighHalf high = true)
      (digits' : codeUnit? a' b' c' d' = some low) (isLow : isLowHalf low = true) (later : Spells s t) :
      Spells ('\\' :: 'u' :: a :: b :: c :: d :: '\\' :: 'u' :: a' :: b' :: c' :: d' :: s)
        (joined high low :: t)

/-- What a stretch of a JSON text stands for. -/
inductive Content where
  | value (v : JsonValue)
  /-- A value with blanks around it. -/
  | element (v : JsonValue)
  /-- What stands between the brackets of an array that is not empty. -/
  | items (vs : List JsonValue)
  /-- What stands between the braces of an object that is not empty. -/
  | fields (fs : List (String × JsonValue))

/-- The texts of the grammar and what they stand for. -/
inductive Denotes : List Char → Content → Prop where
  | nullWord : Denotes ['n', 'u', 'l', 'l'] (.value .null)
  | trueWord : Denotes ['t', 'r', 'u', 'e'] (.value (.bool true))
  | falseWord : Denotes ['f', 'a', 'l', 's', 'e'] (.value (.bool false))
  | number {s : List Char} (isNumber : isNumber s = true) : Denotes s (.value (.number s))
  | string {s t : List Char} (spells : Spells s t) :
      Denotes ('\x22' :: (s ++ ['\x22'])) (.value (.string (String.ofList t)))
  | emptyArray {gap : List Char} (blank : Spaces gap) : Denotes ('[' :: (gap ++ [']'])) (.value (.array []))
  | array {s : List Char} {vs : List JsonValue} (inside : Denotes s (.items vs)) :
      Denotes ('[' :: (s ++ [']'])) (.value (.array vs))
  | emptyObject {gap : List Char} (blank : Spaces gap) :
      Denotes ('\x7b' :: (gap ++ ['\x7d'])) (.value (.object []))
  | object {s : List Char} {fs : List (String × JsonValue)} (inside : Denotes s (.fields fs)) :
      Denotes ('\x7b' :: (s ++ ['\x7d'])) (.value (.object fs))
  | element {before s after : List Char} {v : JsonValue} (above : Spaces before)
      (denotes : Denotes s (.value v)) (below : Spaces after) :
      Denotes (before ++ (s ++ after)) (.element v)
  | lastItem {s : List Char} {v : JsonValue} (denotes : Denotes s (.element v)) : Denotes s (.items [v])
  | item {s t : List Char} {v : JsonValue} {vs : List JsonValue} (denotes : Denotes s (.element v))
      (later : Denotes t (.items vs)) : Denotes (s ++ ',' :: t) (.items (v :: vs))
  | lastField {before k key after s : List Char} {v : JsonValue} (above : Spaces before)
      (spells : Spells k key) (below : Spaces after) (denotes : Denotes s (.element v)) :
      Denotes (before ++ '\x22' :: (k ++ '\x22' :: (after ++ ':' :: s)))
        (.fields [(String.ofList key, v)])
  | field {before k key after s t : List Char} {v : JsonValue} {fs : List (String × JsonValue)}
      (above : Spaces before) (spells : Spells k key) (below : Spaces after)
      (denotes : Denotes s (.element v)) (later : Denotes t (.fields fs)) :
      Denotes (before ++ '\x22' :: (k ++ '\x22' :: (after ++ ':' :: (s ++ ',' :: t))))
        (.fields ((String.ofList key, v) :: fs))

theorem spaces_nil : Spaces [] := by simp [Spaces]

/-- A value is an element without blanks. -/
theorem Denotes.bare {s : List Char} {v : JsonValue} (denotes : Denotes s (.value v)) :
    Denotes s (.element v) := by
  simpa using Denotes.element spaces_nil denotes spaces_nil

/-- No object in the value has two fields of one key. -/
inductive Distinct : JsonValue → Prop where
  | null : Distinct .null
  | bool (b : Bool) : Distinct (.bool b)
  | number (written : List Char) : Distinct (.number written)
  | string (s : String) : Distinct (.string s)
  | array {items : List JsonValue} (inside : ∀ v ∈ items, Distinct v) : Distinct (.array items)
  | object {fields : List (String × JsonValue)} (keys : (fields.map Prod.fst).Nodup)
      (inside : ∀ field ∈ fields, Distinct field.2) : Distinct (.object fields)

end JsonValue

namespace Json

open JsonValue

mutual

/-- The value, as any text of it has it. -/
def value : Json → JsonValue
  | bool b => .bool b
  | number n => .number (Nat.toDigits 10 n)
  | string s => .string s
  | array items => .array (valueAll items)
  | object fields => .object (valueFields fields)

/-- Some values, in order. -/
def valueAll : List Json → List JsonValue
  | [] => []
  | item :: later => value item :: valueAll later

/-- Some fields, in order. -/
def valueFields : List (String × Json) → List (String × JsonValue)
  | [] => []
  | (key, item) :: later => (key, value item) :: valueFields later

end

theorem valueAll_eq (items : List Json) : valueAll items = items.map value := by
  induction items with
  | nil => rfl
  | cons item later ih => rw [valueAll, ih, List.map_cons]

theorem valueFields_eq (fields : List (String × Json)) :
    valueFields fields = fields.map fun field => (field.1, field.2.value) := by
  induction fields with
  | nil => rfl
  | cons field later ih => rw [valueFields, ih, List.map_cons]

/-- A character is spelled by its escape. -/
theorem spells_escaped (c : Char) {s t : List Char} (later : Spells s t) :
    Spells (escaped c ++ s) (c :: t) := by
  have control : ∀ n < 0x20, codeUnit? '0' '0' (hexDigit (n / 16)) (hexDigit (n % 16)) = some n := by
    decide
  unfold escaped
  split_ifs with quote backslash newline carriage tab low
  · rw [quote]
    exact .short rfl later
  · rw [backslash]
    exact .short rfl later
  · rw [newline]
    exact .short rfl later
  · rw [carriage]
    exact .short rfl later
  · rw [tab]
    exact .short rfl later
  · have whole : c.toNat.isValidChar := c.valid
    simpa using Spells.unit (control c.toNat low) whole later
  · exact .plain (Nat.le_of_not_lt low) quote backslash later

theorem spells_flatMap_escaped (t : List Char) : Spells (t.flatMap escaped) t := by
  induction t with
  | nil => exact .nil
  | cons c t ih => exact spells_escaped c ih

theorem toList_quoted (s : String) :
    (quoted s).toList = '\x22' :: (s.toList.flatMap escaped ++ ['\x22']) := by
  rw [quoted, String.toList_ofList, List.cons_append]

/-- A number is written without a zero before it. -/
theorem exists_toDigits_cons {n : Nat} (positive : 0 < n) :
    ∃ c s, Nat.toDigits 10 n = c :: s ∧ c ≠ '0' := by
  induction n using Nat.strong_induction_on with
  | _ n ih =>
    by_cases small : n < 10
    · refine ⟨n.digitChar, [], Nat.toDigits_of_lt_base small, ?_⟩
      have digits : ∀ n < 10, 0 < n → n.digitChar ≠ '0' := by decide
      exact digits n small positive
    · obtain ⟨c, s, whole, other⟩ := ih (n / 10) (by omega) (by omega)
      refine ⟨c, s ++ [(n % 10).digitChar], ?_, other⟩
      rw [Nat.toDigits_of_base_le (by omega) (Nat.le_of_not_lt small), whole, List.cons_append]

theorem isNumber_toDigits (n : Nat) : isNumber (Nat.toDigits 10 n) = true := by
  have digits : ∀ c ∈ Nat.toDigits 10 n, c.isDigit = true := fun c => isDigit_of_mem_toDigits
  cases n with
  | zero => rfl
  | succ n =>
    obtain ⟨c, s, whole, other⟩ := exists_toDigits_cons (Nat.succ_pos n)
    rw [whole] at digits ⊢
    obtain ⟨first, later⟩ := List.forall_mem_cons.mp digits
    have unsigned : c ≠ '-' := by
      rintro rfl
      cases first
    have nothing : s.dropWhile Char.isDigit = [] := List.dropWhile_eq_nil_iff.mpr later
    simp [isNumber, isUnsignedNumber, unsigned, first, nothing, isFraction, isExponent]

mutual

/-- What is written for a value stands for it. -/
theorem denotes_render : (j : Json) → Denotes j.render.toList (.value j.value)
  | bool true => .trueWord
  | bool false => .falseWord
  | number n => by
    rw [render, Nat.toString_eq_ofList_toDigits, String.toList_ofList]
    exact .number (isNumber_toDigits n)
  | string s => by
    rw [render, toList_quoted, value]
    simpa using Denotes.string (spells_flatMap_escaped s.toList)
  | array [] => .emptyArray spaces_nil
  | array (item :: later) => by
    have inside := denotes_renderAll (item :: later) (List.cons_ne_nil item later)
    rw [render, value]
    simpa [String.toList_intercalate] using Denotes.array inside
  | object [] => .emptyObject spaces_nil
  | object (field :: later) => by
    have inside := denotes_renderFields (field :: later) (List.cons_ne_nil field later)
    rw [render, value]
    simpa [String.toList_intercalate] using Denotes.object inside

theorem denotes_renderAll : (items : List Json) → items ≠ [] →
    Denotes ([','].intercalate ((renderAll items).map String.toList)) (.items (valueAll items))
  | [], nonempty => absurd rfl nonempty
  | [item], _ => by
    simpa [renderAll, valueAll] using Denotes.lastItem (denotes_render item).bare
  | item :: next :: later, _ => by
    have first := (denotes_render item).bare
    have others := denotes_renderAll (next :: later) (List.cons_ne_nil next later)
    simpa [renderAll, valueAll] using Denotes.item first others

theorem denotes_renderFields : (fields : List (String × Json)) → fields ≠ [] →
    Denotes ([','].intercalate ((renderFields fields).map String.toList))
      (.fields (valueFields fields))
  | [], nonempty => absurd rfl nonempty
  | [(key, item)], _ => by
    have spells := spells_flatMap_escaped key.toList
    have only := (denotes_render item).bare
    simpa [renderFields, valueFields, toList_quoted] using
      Denotes.lastField spaces_nil spells spaces_nil only
  | (key, item) :: next :: later, _ => by
    have spells := spells_flatMap_escaped key.toList
    have first := (denotes_render item).bare
    have others := denotes_renderFields (next :: later) (List.cons_ne_nil next later)
    simpa [renderFields, valueFields, toList_quoted] using
      Denotes.field spaces_nil spells spaces_nil first others

end

end Json

end SymbolIndex
