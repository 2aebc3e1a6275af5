import Mathlib.Data.Bool.AllAny
import SymbolIndex.Proofs.JsonGrammar
import SymbolIndex.Proofs.Scalars
import SymbolIndex.Proofs.Trimming

/-! A reader of YAML scalars, and what it gets from the writer. A scalar on one line is quoted in one of
two ways or plain, and what a plain one stands for is decided by the core schema: a word, a number or the
text itself. Every text that is put in quotes is read back. Of those that are left plain some are not, and
these are listed: what stands at the ends of a text and the forms of numbers that the writer does not know. -/
namespace SymbolIndex

/-- What a scalar stands for. -/
inductive YamlScalar where
  | null
  | truth (b : Bool)
  | integer (n : Int)
  /-- Digits and the power of ten that they are taken times, with a minus sign before them or not. -/
  | decimal (negative : Bool) (digits : Nat) (power : Int)
  | infinity (negative : Bool)
  | notANumber
  | text (s : List Char)
  deriving DecidableEq

namespace YamlScalar

open JsonValue (areDigits unsigned isExponent hexValue? codeUnit?)

section Characters

/-- The characters that a line of YAML can hold. -/
def isPrintable (c : Char) : Bool :=
  let n := c.toNat
  n == 9 || (0x20 ≤ n && n ≤ 0x7e) || n == 0x85
    || (0xa0 ≤ n && n != 0xfeff && n != 0xfffe && n != 0xffff)

/-- The characters that quotes can hold as they are. -/
def isQuotable (c : Char) : Bool := c == '\t' || 0x20 ≤ c.toNat

/-- The control characters. -/
def isControl (c : Char) : Bool := c.toNat < 0x20 || (0x7f ≤ c.toNat && c.toNat ≤ 0x9f)

/-- The characters with a meaning at the beginning of a scalar. -/
def indicators : List Char :=
  ['-', '?', ':', ',', '[', ']', '\x7b', '\x7d', '#', '&', '*', '!', '|', '>', '\x27', '\x22', '%',
    '@', '\x60']

end Characters

section Resolution

/-- The words of the core schema and what they stand for. -/
def wordValues : List (String × YamlScalar) :=
  [("null", null), ("Null", null), ("NULL", null), ("~", null), ("true", truth true),
    ("True", truth true), ("TRUE", truth true), ("false", truth false), ("False", truth false),
    ("FALSE", truth false)]

def word? (s : List Char) : Option YamlScalar := wordValues.lookup (String.ofList s)

/-- Whether a text begins with a minus sign. -/
def isNegative (s : List Char) : Bool := s.head? == some '-'

/-- The value of some digits that a sign may stand before. -/
def signedValue (s : List Char) : Int :=
  let n := Nat.ofDigitChars 10 (unsigned s) 0
  if isNegative s then -n else n

/-- The value of a number in base eight or sixteen. -/
def radix? : List Char → Option Nat
  | '0' :: 'o' :: digits =>
    if !digits.isEmpty && digits.all fun c => c.isDigit && c ≤ '7' then
      some (Nat.ofDigitChars 8 digits 0)
    else none
  | '0' :: 'x' :: digits =>
    if digits.isEmpty then none
    else (digits.mapM hexValue?).map (List.foldl (fun n digit => 16 * n + digit) 0)
  | _ => none

def integer? (s : List Char) : Option YamlScalar :=
  match radix? s with
  | some n => some (integer n)
  | none => if areDigits (unsigned s) then some (integer (signedValue s)) else none

/-- What stands for no finite number. -/
def special? (s : List Char) : Option YamlScalar :=
  if [".inf", ".Inf", ".INF"].contains (String.ofList (unsigned s)) then some (infinity (isNegative s))
  else if [".nan", ".NaN", ".NAN"].contains (String.ofList s) then some notANumber
  else none

/-- The digits of a number and how many of them stand behind its point. -/
def mantissa? (s : List Char) : Option (Nat × Nat) :=
  if s.any Char.isDigit && s.all (fun c => c.isDigit || c == '.') && s.count '.' ≤ 1 then
    some (Nat.ofDigitChars 10 (s.filter Char.isDigit) 0, ((s.dropWhile (· != '.')).drop 1).length)
  else none

/-- The mark that an exponent begins with. -/
def isExponentMark (c : Char) : Bool := c == 'e' || c == 'E'

/-- A number with a point or an exponent. -/
def decimal? (s : List Char) : Option YamlScalar :=
  let exponent := (unsigned s).dropWhile (!isExponentMark ·)
  if isExponent exponent then
    (mantissa? ((unsigned s).takeWhile (!isExponentMark ·))).map fun (digits, places) =>
      decimal (isNegative s) digits (signedValue exponent.tail - places)
  else none

/-- What a plain text stands for other than itself. -/
def typed? (s : List Char) : Option YamlScalar :=
  ((word? s).or (integer? s)).or ((special? s).or (decimal? s))

/-- What a plain text stands for. -/
def resolve (s : List Char) : YamlScalar := (typed? s).getD (text s)

end Resolution

section Quotes

/-- The character that a backslash and a mark stand for. -/
def shortEscape? : Char → Option Char
  | '0' => some '\x00'
  | 'a' => some '\x07'
  | 'b' => some '\x08'
  | 't' | '\t' => some '\t'
  | 'n' => some '\n'
  | 'v' => some '\x0b'
  | 'f' => some '\x0c'
  | 'r' => some '\r'
  | 'e' => some '\x1b'
  | ' ' => some ' '
  | '\x22' => some '\x22'
  | '/' => some '/'
  | '\\' => some '\\'
  | 'N' => some '\x85'
  | '_' => some '\xa0'
  | 'L' => some '\u2028'
  | 'P' => some '\u2029'
  | _ => none

/-- The character of a number, if there is one. -/
def charOf? (n : Nat) : Option Char := if n.isValidChar then some (Char.ofNat n) else none

/-- The text up to the closing double quote, and what follows the quote. -/
def unquote? : List Char → Option (List Char × List Char)
  | [] => none
  | '\x22' :: rest => some ([], rest)
  | '\\' :: 'x' :: a :: b :: s => do
    let c ← charOf? (← codeUnit? '0' '0' a b)
    (unquote? s).map fun (t, rest) => (c :: t, rest)
  | '\\' :: 'u' :: a :: b :: c :: d :: s => do
    let c ← charOf? (← codeUnit? a b c d)
    (unquote? s).map fun (t, rest) => (c :: t, rest)
  | '\\' :: 'U' :: a :: b :: c :: d :: a' :: b' :: c' :: d' :: s => do
    let c ← charOf? ((← codeUnit? a b c d) * 0x10000 + (← codeUnit? a' b' c' d'))
    (unquote? s).map fun (t, rest) => (c :: t, rest)
  | '\\' :: mark :: s => do
    let c ← shortEscape? mark
    (unquote? s).map fun (t, rest) => (c :: t, rest)
  | c :: s =>
    if isQuotable c && c != '\\' then (unquote? s).map fun (t, rest) => (c :: t, rest) else none

/-- The text up to the closing single quote, and what follows the quote. -/
def unquoteSingle? : List Char → Option (List Char × List Char)
  | [] => none
  | '\x27' :: '\x27' :: s => (unquoteSingle? s).map fun (t, rest) => ('\x27' :: t, rest)
  | '\x27' :: rest => some ([], rest)
  | c :: s => if isQuotable c then (unquoteSingle? s).map fun (t, rest) => (c :: t, rest) else none

/-- Whether nothing follows but blanks, and a comment behind them. -/
def isTrailing (s : List Char) : Bool :=
  match s.dropWhile Text.isGap with
  | [] => true
  | c :: _ => c == '#' && s.head?.any Text.isGap

/-- The scalar of quotes that have been read. -/
def quoted? : Option (List Char × List Char) → Option YamlScalar
  | some (t, rest) => if isTrailing rest then some (text t) else none
  | none => none

end Quotes

section Plain

/-- A text up to the comment that it ends in. -/
def uncommented : List Char → List Char
  | [] => []
  | [c] => [c]
  | c :: '#' :: s => if Text.isGap c then [] else c :: uncommented ('#' :: s)
  | c :: d :: s => c :: uncommented (d :: s)

/-- Whether a colon separates a key from a value. -/
def separates : List Char → Bool
  | [] => false
  | [c] => c == ':'
  | c :: d :: s => (c == ':' && Text.isGap d) || separates (d :: s)

/-- Whether a plain scalar can begin so. -/
def startsPlain : List Char → Bool
  | [] => false
  | c :: s => !indicators.contains c || (['-', '?', ':'].contains c && s.head?.any (!Text.isGap ·))

/-- The scalar of a text that is not quoted. -/
def plain? (s : List Char) : Option YamlScalar :=
  let body := Text.dropEndWhile Text.isGap (uncommented s)
  if startsPlain body && !separates body && body.all isPrintable then some (resolve body) else none

end Plain

/-- Reads the scalar that stands on the rest of a line, behind the colon of a key. -/
def read? (s : List Char) : Option YamlScalar :=
  match s.dropWhile Text.isGap with
  | [] => some null
  | '#' :: _ => some null
  | '\x22' :: rest => quoted? (unquote? rest)
  | '\x27' :: rest => quoted? (unquoteSingle? rest)
  | c :: rest => plain? (c :: rest)

section Quotes

/-- Control characters that have an escape of their own. -/
def Escapable (s : List Char) : Prop :=
  ∀ c ∈ s, isControl c = true → c = '\t' ∨ c = '\n' ∨ c = '\r'

instance (s : List Char) : Decidable (Escapable s) := List.decidableBAll _ s

/-- A character is read back from its escape. -/
theorem unquote?_escaped {c : Char} (escapable : isControl c = true → c = '\t' ∨ c = '\n' ∨ c = '\r')
    (s : List Char) :
    unquote? (Scalar.escaped c ++ s) = (unquote? s).map fun (t, rest) => (c :: t, rest) := by
  unfold Scalar.escaped
  split_ifs with quote backslash newline carriage tab
  · simp [unquote?, shortEscape?, quote]
  · simp [unquote?, shortEscape?, backslash]
  · simp [unquote?, shortEscape?, newline]
  · simp [unquote?, shortEscape?, carriage]
  · simp [unquote?, shortEscape?, tab]
  · have quotable : isQuotable c = true := by
      rw [isQuotable, Bool.or_eq_true, decide_eq_true_eq]
      refine .inr (Nat.le_of_not_lt fun low => ?_)
      have control : isControl c = true := by simp [isControl, low]
      rcases escapable control with rfl | rfl | rfl
      · exact tab rfl
      · exact newline rfl
      · exact carriage rfl
    simp [unquote?, quotable, backslash]

/-- A text is read back from between its quotes. -/
theorem unquote?_flatMap_escaped {s : List Char} (escapable : Escapable s) (rest : List Char) :
    unquote? (s.flatMap Scalar.escaped ++ '\x22' :: rest) = some (s, rest) := by
  induction s with
  | nil => rfl
  | cons c s ih =>
    obtain ⟨first, later⟩ := List.forall_mem_cons.mp escapable
    rw [List.flatMap_cons, List.append_assoc, unquote?_escaped first, ih later]
    rfl

private theorem length_lt_of_map_cons {read : Option (List Char × List Char)} {c : Char}
    {t rest : List Char} {n : Nat} (bound : ∀ {t rest}, read = some (t, rest) → t.length < n)
    (reads : (read.map fun (t, rest) => (c :: t, rest)) = some (t, rest)) : t.length < n + 1 := by
  obtain ⟨⟨later, behind⟩, found, same⟩ := Option.map_eq_some_iff.mp reads
  obtain ⟨rfl, -⟩ := Prod.mk.inj same
  exact Nat.succ_lt_succ (bound found)

/-- What double quotes hold is shorter than they are. -/
theorem length_lt_of_unquote? {s t rest : List Char} (reads : unquote? s = some (t, rest)) :
    t.length < s.length := by
  fun_induction unquote? s generalizing t rest with
  | case1 => exact nomatch reads
  | case2 =>
    obtain ⟨rfl, -⟩ := Prod.mk.inj (Option.some.inj reads)
    exact Nat.zero_lt_succ _
  | case3 a b s ih =>
    obtain ⟨n, -, reads⟩ := Option.bind_eq_some_iff.mp reads
    obtain ⟨c, -, reads⟩ := Option.bind_eq_some_iff.mp reads
    exact (length_lt_of_map_cons ih reads).trans_le (Nat.le_add_right _ 3)
  | case4 a b c d s ih =>
    obtain ⟨n, -, reads⟩ := Option.bind_eq_some_iff.mp reads
    obtain ⟨c, -, reads⟩ := Option.bind_eq_some_iff.mp reads
    exact (length_lt_of_map_cons ih reads).trans_le (Nat.le_add_right _ 5)
  | case5 a b c d a' b' c' d' s ih =>
    obtain ⟨high, -, reads⟩ := Option.bind_eq_some_iff.mp reads
    obtain ⟨low, -, reads⟩ := Option.bind_eq_some_iff.mp reads
    obtain ⟨c, -, reads⟩ := Option.bind_eq_some_iff.mp reads
    exact (length_lt_of_map_cons ih reads).trans_le (Nat.le_add_right _ 9)
  | case6 mark s _ _ _ ih =>
    obtain ⟨c, -, reads⟩ := Option.bind_eq_some_iff.mp reads
    exact (length_lt_of_map_cons ih reads).trans_le (Nat.le_add_right _ 1)
  | case7 c s _ _ _ _ _ _ ih => exact length_lt_of_map_cons ih reads
  | case8 => exact nomatch reads

/-- What single quotes hold is shorter than they are. -/
theorem length_lt_of_unquoteSingle? {s t rest : List Char} (reads : unquoteSingle? s = some (t, rest)) :
    t.length < s.length := by
  fun_induction unquoteSingle? s generalizing t rest with
  | case1 => exact nomatch reads
  | case2 s ih => exact (length_lt_of_map_cons ih reads).trans_le (Nat.le_add_right _ 1)
  | case3 =>
    obtain ⟨rfl, -⟩ := Prod.mk.inj (Option.some.inj reads)
    exact Nat.zero_lt_succ _
  | case4 c s _ _ _ ih => exact length_lt_of_map_cons ih reads
  | case5 => exact nomatch reads

theorem quoted?_eq_some {read : Option (List Char × List Char)} {t : List Char}
    (reads : quoted? read = some (text t)) : ∃ rest, read = some (t, rest) := by
  match read, reads with
  | some (t', rest), reads =>
    simp only [quoted?] at reads
    split_ifs at reads
    obtain rfl : t' = t := text.inj (Option.some.inj reads)
    exact ⟨rest, rfl⟩

end Quotes

section Resolution

theorem mem_of_word? {s : List Char} {value : YamlScalar} (word : word? s = some value) :
    (String.ofList s, value) ∈ wordValues := by
  obtain ⟨before, behind, entries, -⟩ := List.lookup_eq_some_iff.mp word
  rw [entries]
  exact List.mem_append_right _ List.mem_cons_self

/-- What a text stands for in place of itself is no text. -/
theorem typed?_ne_text (s t : List Char) : typed? s ≠ some (text t) := by
  have words : ∀ entry ∈ wordValues, entry.2 ≠ text t := by simp [wordValues]
  intro typed
  rcases Option.or_eq_some_iff.mp typed with first | ⟨-, second⟩
  · rcases Option.or_eq_some_iff.mp first with word | ⟨-, integer⟩
    · exact words _ (mem_of_word? word) rfl
    · unfold integer? at integer
      split at integer
      · exact nomatch integer
      · split_ifs at integer
        exact nomatch integer
  · rcases Option.or_eq_some_iff.mp second with special | ⟨-, decimal⟩
    · unfold special? at special
      split_ifs at special <;> exact nomatch special
    · unfold decimal? at decimal
      dsimp only at decimal
      split_ifs at decimal
      obtain ⟨_, -, same⟩ := Option.map_eq_some_iff.mp decimal
      exact nomatch same

theorem resolve_eq_text_iff {s t : List Char} : resolve s = text t ↔ typed? s = none ∧ s = t := by
  unfold resolve
  cases typed : typed? s with
  | none => simp
  | some value => simpa using fun same => typed?_ne_text s t (by rw [typed, ← same])

/-- A text that the writer leaves plain although it stands for something else: the tilde, a number in
base eight or sixteen, what is no finite number, and a number with an exponent. -/
def Overlooked (s : List Char) : Prop :=
  s = ['~'] ∨ (radix? s).isSome ∨ (special? s).isSome ∨
    ((decimal? s).isSome ∧ ∃ c ∈ s, isExponentMark c = true)

instance (s : List Char) : Decidable (Overlooked s) :=
  have : Decidable (∃ c ∈ s, isExponentMark c = true) := List.decidableBEx _ s
  inferInstanceAs (Decidable (s = ['~'] ∨ (radix? s).isSome ∨ (special? s).isSome ∨
    ((decimal? s).isSome ∧ ∃ c ∈ s, isExponentMark c = true)))

theorem resemblesNumber_iff (s : List Char) :
    Scalar.resemblesNumber s = true ↔ unsigned s ≠ [] ∧
      (∀ c ∈ unsigned s, (c.isDigit || c == '.') = true) ∧ (unsigned s).count '.' ≤ 1 := by
  have digits : Scalar.resemblesNumber s = (!(unsigned s).isEmpty &&
      (unsigned s).all (fun c => c.isDigit || c == '.') && decide ((unsigned s).count '.' ≤ 1)) := by
    unfold Scalar.resemblesNumber
    split
    · rfl
    · rfl
    · next minus plus =>
      have bare : unsigned s = s := by
        unfold unsigned
        split
        · exact absurd rfl (plus _)
        · exact absurd rfl (minus _)
        · rfl
      rw [bare]
  rw [digits, Bool.and_eq_true, Bool.and_eq_true, decide_eq_true_eq, List.all_eq_true, and_assoc]
  simp

theorem mem_of_mem_unsigned {s : List Char} {c : Char} (member : c ∈ unsigned s) : c ∈ s := by
  unfold unsigned at member
  split at member
  · exact List.mem_cons_of_mem _ member
  · exact List.mem_cons_of_mem _ member
  · exact member

/-- Digits alone are known to the writer as a number. -/
theorem resemblesNumber_of_areDigits {s : List Char} (digits : areDigits (unsigned s) = true) :
    Scalar.resemblesNumber s = true := by
  rw [areDigits, Bool.and_eq_true, List.all_eq_true] at digits
  obtain ⟨nonempty, all⟩ := digits
  have noPoint : '.' ∉ unsigned s := fun member => absurd (all '.' member) (by decide)
  refine (resemblesNumber_iff s).mpr ⟨by simpa using nonempty, fun c member => ?_, ?_⟩
  · rw [all c member, Bool.true_or]
  · rw [List.count_eq_zero.mpr noPoint]
    exact Nat.zero_le 1

/-- And so are digits with a point. -/
theorem resemblesNumber_of_decimal? {s : List Char} (number : (decimal? s).isSome)
    (bare : ∀ c ∈ s, isExponentMark c = false) : Scalar.resemblesNumber s = true := by
  have whole : (unsigned s).takeWhile (!isExponentMark ·) = unsigned s :=
    List.takeWhile_eq_self_iff.mpr fun c member => by simp [bare c (mem_of_mem_unsigned member)]
  have mantissa : (mantissa? (unsigned s)).isSome := by
    unfold decimal? at number
    dsimp only at number
    split_ifs at number
    · rwa [Option.isSome_map, whole] at number
    · exact nomatch number
  rw [mantissa?, Option.isSome_ite] at mantissa
  obtain ⟨⟨c, member, -⟩, all, points⟩ : (∃ c ∈ unsigned s, c.isDigit = true) ∧
      (∀ c ∈ unsigned s, (c.isDigit || c == '.') = true) ∧ (unsigned s).count '.' ≤ 1 := by
    simpa [and_assoc] using mantissa
  exact (resemblesNumber_iff s).mpr ⟨List.ne_nil_of_mem member, all, points⟩

/-- A text that is left plain stands for something else just where the writer overlooks it. -/
theorem isSome_typed?_iff {s : List Char} (plain : Scalar.mustQuote s = false) :
    (typed? s).isSome ↔ Overlooked s := by
  obtain ⟨c, later, -, -, word, number, -⟩ := Scalar.exists_of_mustQuote plain
  have known : ∀ entry ∈ wordValues, entry.1 = "~" ∨ entry.1 ∈ Scalar.reservedWords := by decide
  constructor
  · intro typed
    unfold typed? at typed
    simp only [Option.isSome_or, Bool.or_eq_true] at typed
    rcases typed with (isWord | integer) | special | decimal
    · obtain ⟨value, found⟩ := Option.isSome_iff_exists.mp isWord
      rcases known _ (mem_of_word? found) with tilde | reserved
      · exact .inl (String.ofList_injective tilde)
      · exact absurd reserved word
    · refine .inr (.inl ?_)
      by_cases radix : (radix? s).isSome
      · exact radix
      · rw [integer?, Option.not_isSome_iff_eq_none.mp radix] at integer
        simp only [Option.isSome_ite] at integer
        rw [resemblesNumber_of_areDigits integer] at number
        exact nomatch number
    · exact .inr (.inr (.inl special))
    · refine .inr (.inr (.inr ⟨decimal, ?_⟩))
      by_contra bare
      rw [resemblesNumber_of_decimal? decimal (by simpa using bare)] at number
      exact nomatch number
  · rintro (rfl | radix | special | ⟨decimal, -⟩)
    · rfl
    · obtain ⟨n, found⟩ := Option.isSome_iff_exists.mp radix
      simp [typed?, integer?, found]
    · simp [typed?, special]
    · simp [typed?, decimal]

theorem unsigned_of_initial {c : Char} (signless : c ∉ ['+', '-']) (s : List Char) :
    unsigned (c :: s) = c :: s := by
  unfold unsigned
  split
  · next same =>
    obtain ⟨rfl, -⟩ := List.cons.inj same
    exact absurd signless (by decide)
  · next same =>
    obtain ⟨rfl, -⟩ := List.cons.inj same
    exact absurd signless (by decide)
  · rfl

/-- A text is none of those that the writer overlooks if it begins with none of their characters. -/
theorem not_overlooked_of_initial {c : Char} (noDigit : c.isDigit = false)
    (noMark : c ∉ ['~', '.', '+', '-']) (s : List Char) : ¬ Overlooked (c :: s) := by
  simp only [List.mem_cons, not_or] at noMark
  obtain ⟨noTilde, noPoint, noPlus, noMinus, -⟩ := noMark
  have bare : unsigned (c :: s) = c :: s := unsigned_of_initial (by simp [noPlus, noMinus]) s
  rintro (tilde | radix | special | ⟨decimal, -⟩)
  · exact noTilde (List.cons.inj tilde).1
  · unfold radix? at radix
    split at radix
    · next same =>
      obtain ⟨rfl, -⟩ := List.cons.inj same
      exact nomatch noDigit
    · next same =>
      obtain ⟨rfl, -⟩ := List.cons.inj same
      exact nomatch noDigit
    · exact nomatch radix
  · have words : ∀ word ∈ [".inf", ".Inf", ".INF", ".nan", ".NaN", ".NAN"],
        word.toList.head? = some '.' := by decide
    have other : String.ofList (c :: s) ∉ [".inf", ".Inf", ".INF", ".nan", ".NaN", ".NAN"] := by
      intro member
      have first := words _ member
      rw [String.toList_ofList] at first
      exact noPoint (Option.some.inj first)
    unfold special? at special
    rw [bare] at special
    simp_all
  · have mantissa : (mantissa? ((c :: s).takeWhile (!isExponentMark ·))).isSome := by
      rw [decimal?, bare] at decimal
      dsimp only at decimal
      split_ifs at decimal
      · rwa [Option.isSome_map] at decimal
      · exact nomatch decimal
    rw [mantissa?, Option.isSome_ite, Bool.and_eq_true, Bool.and_eq_true, List.any_eq_true,
      List.all_eq_true] at mantissa
    obtain ⟨⟨⟨d, member, -⟩, all⟩, -⟩ := mantissa
    cases mark : isExponentMark c with
    | true => simp [mark] at member
    | false =>
      rw [List.takeWhile_cons_of_pos (by simp [mark])] at all
      have first := all c List.mem_cons_self
      simp [noDigit, noPoint] at first

/-- Digits stand for their number. -/
theorem typed?_of_digits {c : Char} {s : List Char} (digits : ∀ d ∈ c :: s, d.isDigit = true) :
    typed? (c :: s) = some (integer (Nat.ofDigitChars 10 (c :: s) 0)) := by
  have first : c.isDigit = true := digits c List.mem_cons_self
  have bare : unsigned (c :: s) = c :: s := by
    have signs : ∀ d ∈ ['+', '-'], d.isDigit = false := List.all_iff_forall_prop.mp (by decide)
    refine unsigned_of_initial (fun sign => ?_) s
    rw [signs c sign] at first
    exact nomatch first
  have noWord : word? (c :: s) = none := by
    have words : ∀ entry ∈ wordValues, entry.1.toList.head?.any Char.isDigit = false := by decide
    refine Option.eq_none_iff_forall_ne_some.mpr fun value word => ?_
    have letter := words _ (mem_of_word? word)
    rw [String.toList_ofList, List.head?_cons, Option.any_some, first] at letter
    exact nomatch letter
  have noRadix : radix? (c :: s) = none := by
    unfold radix?
    split
    · next same => exact nomatch digits 'o' (by rw [same]; simp)
    · next same => exact nomatch digits 'x' (by rw [same]; simp)
    · rfl
  have all : areDigits (c :: s) = true := by
    rw [areDigits, List.all_eq_true.mpr digits]
    rfl
  have positive : isNegative (c :: s) = false := by
    refine beq_eq_false_iff_ne.mpr fun minus => ?_
    obtain rfl := Option.some.inj minus
    exact nomatch first
  rw [typed?, noWord, integer?, noRadix]
  simp [all, signedValue, positive, bare]

end Resolution

section Plain

theorem uncommented_of_not_mem {s : List Char} (free : '#' ∉ s) : uncommented s = s := by
  fun_induction uncommented s with
  | case1 => rfl
  | case2 => rfl
  | case3 => simp at free
  | case4 => simp at free
  | case5 c d s _ ih => rw [ih (List.not_mem_of_not_mem_cons free)]

theorem separates_of_not_mem {s : List Char} (free : ':' ∉ s) : separates s = false := by
  fun_induction separates s with
  | case1 => rfl
  | case2 c => exact beq_eq_false_iff_ne.mpr (List.ne_of_not_mem_cons free).symm
  | case3 c d s ih =>
    rw [ih (List.not_mem_of_not_mem_cons free),
      beq_eq_false_iff_ne.mpr (List.ne_of_not_mem_cons free).symm]
    rfl

theorem length_uncommented_le (s : List Char) : (uncommented s).length ≤ s.length := by
  fun_induction uncommented s with
  | case1 => exact Nat.le_refl _
  | case2 => exact Nat.le_refl _
  | case3 => exact Nat.zero_le _
  | case4 c s _ ih => exact Nat.succ_le_succ ih
  | case5 c d s _ ih => exact Nat.succ_le_succ ih

theorem plain?_eq_some {s t : List Char} (reads : plain? s = some (text t)) :
    t = Text.dropEndWhile Text.isGap (uncommented s) ∧ t.all isPrintable = true ∧ typed? t = none := by
  unfold plain? at reads
  dsimp only at reads
  split_ifs at reads with fits
  obtain ⟨untyped, rfl⟩ := resolve_eq_text_iff.mp (Option.some.inj reads)
  exact ⟨rfl, (Bool.and_eq_true_iff.mp fits).2, untyped⟩

theorem uncommented_cons {c : Char} (filled : Text.isGap c = false) (s : List Char) :
    ∃ rest, uncommented (c :: s) = c :: rest := by
  cases s with
  | nil => exact ⟨[], rfl⟩
  | cons d s =>
    by_cases hash : d = '#'
    · rw [hash, uncommented, if_neg (by simp [filled])]
      exact ⟨_, rfl⟩
    · rw [uncommented]
      · exact ⟨_, rfl⟩
      · exact hash

/-- What has a meaning at the beginning of a scalar begins no plain one, three marks aside. -/
theorem plain?_of_indicator {c : Char} (filled : Text.isGap c = false) (marks : c ∈ indicators)
    (only : c ∉ ['-', '?', ':']) (s : List Char) : plain? (c :: s) = none := by
  obtain ⟨rest, whole⟩ := uncommented_cons filled s
  have refused (later : List Char) : startsPlain (c :: later) = false := by
    simp [startsPlain, marks, only]
  unfold plain?
  rw [whole, Text.dropEndWhile_cons filled]
  simp only [refused, Bool.false_and, Bool.false_eq_true, if_false]

/-- A scalar is no longer than what stands on its line, the blanks in front aside. -/
theorem length_le_of_read? {s t : List Char} (reads : read? s = some (text t)) :
    t.length ≤ (s.dropWhile Text.isGap).length := by
  unfold read? at reads
  split at reads
  · exact nomatch reads
  · exact nomatch reads
  · next rest starts =>
    obtain ⟨behind, inside⟩ := quoted?_eq_some reads
    rw [starts]
    exact ((length_lt_of_unquote? inside).trans (Nat.lt_succ_self _)).le
  · next rest starts =>
    obtain ⟨behind, inside⟩ := quoted?_eq_some reads
    rw [starts]
    exact ((length_lt_of_unquoteSingle? inside).trans (Nat.lt_succ_self _)).le
  · next c rest _ _ _ starts =>
    obtain ⟨rfl, -⟩ := plain?_eq_some reads
    rw [starts]
    have shorter : (Text.dropEndWhile Text.isGap (uncommented (c :: rest))).length ≤
        (uncommented (c :: rest)).length := (List.rdropWhile_prefix Text.isGap _).length_le
    exact shorter.trans (length_uncommented_le _)

/-- What stands on a line as it is. -/
theorem read?_of_bare {c : Char} {s : List Char} (unpadded : Text.isGap c = false)
    (bare : c ∉ indicators) : read? (c :: s) = plain? (c :: s) := by
  have whole : (c :: s).dropWhile Text.isGap = c :: s := List.dropWhile_cons_of_neg (by simp [unpadded])
  unfold read?
  rw [whole]
  split
  · next nothing => exact nomatch nothing
  · next rest same => exact absurd ((List.cons.inj same).1 ▸ by decide) bare
  · next rest same => exact absurd ((List.cons.inj same).1 ▸ by decide) bare
  · next rest same => exact absurd ((List.cons.inj same).1 ▸ by decide) bare
  · next same => rw [same]

/-- A text that stands for itself where the writer leaves it plain. -/
structure Plain (s : List Char) : Prop where
  /-- It begins with no blank. -/
  unpadded : s.head?.any Text.isGap = false
  /-- It does not end in a tab. -/
  untabbed : s.getLast? ≠ some '\t'
  printable : s.all isPrintable = true
  known : ¬ Overlooked s

/-- A text that is left plain and begins with no blank is read up to the blanks at its end. -/
theorem read?_of_unpadded {s : List Char} (plain : Scalar.mustQuote s = false)
    (unpadded : s.head?.any Text.isGap = false) : read? s =
      if (Text.dropEndWhile Text.isGap s).all isPrintable then
        some (resolve (Text.dropEndWhile Text.isGap s))
      else none := by
  obtain ⟨c, later, rfl, initial, -, -, -, unbroken⟩ := Scalar.exists_of_mustQuote plain
  have covered : ∀ d ∈ indicators, d ∈ Scalar.indicators ∨ d ∈ Scalar.breakers :=
    List.all_iff_forall_prop.mp (by decide)
  have bare : c ∉ indicators := fun member =>
    (covered c member).elim initial (unbroken c List.mem_cons_self)
  have noHash : '#' ∉ c :: later := fun member => unbroken '#' member (by decide)
  have noColon : ':' ∉ c :: later := fun member => unbroken ':' member (by decide)
  have filled : Text.isGap c = false := by simpa using unpadded
  have body : Text.dropEndWhile Text.isGap (c :: later) = c :: Text.dropEndWhile Text.isGap later :=
    Text.dropEndWhile_cons filled later
  have whole : separates (Text.dropEndWhile Text.isGap (c :: later)) = false :=
    separates_of_not_mem fun member => noColon ((List.rdropWhile_prefix Text.isGap _).subset member)
  have starts : startsPlain (Text.dropEndWhile Text.isGap (c :: later)) = true := by
    rw [body]
    simp [startsPlain, bare]
  rw [read?_of_bare filled bare, plain?, uncommented_of_not_mem noHash]
  simp only [starts, whole, Bool.not_false, Bool.and_self, Bool.true_and]

/-- A number is read back. -/
theorem read?_number (n : Nat) : read? (toString n).toList = some (integer n) := by
  have digits : ∀ c ∈ Nat.toDigits 10 n, c.isDigit = true := fun c => isDigit_of_mem_toDigits
  have value : Nat.ofDigitChars 10 (Nat.toDigits 10 n) 0 = n := Nat.ofDigitChars_ten_toDigits
  rw [Nat.toString_eq_ofList_toDigits, String.toList_ofList]
  obtain ⟨c, later, written⟩ := List.exists_cons_of_ne_nil (Nat.toDigits_ne_nil (n := n) (b := 10))
  rw [written] at digits value ⊢
  have apart {d : Char} (other : d.isDigit = false) : d ∉ c :: later := fun member =>
    nomatch (digits d member).symm.trans other
  have filled : ∀ d ∈ c :: later, Text.isGap d = false := by
    intro d member
    refine Bool.eq_false_iff.mpr fun gap => ?_
    rcases Text.isGap_iff.mp gap with rfl | rfl
    · exact apart rfl member
    · exact apart rfl member
  have bare : c ∉ indicators := by
    have marks : ∀ d ∈ indicators, d.isDigit = false := List.all_iff_forall_prop.mp (by decide)
    exact fun mark => apart (marks c mark) List.mem_cons_self
  have whole : Text.dropEndWhile Text.isGap (c :: later) = c :: later :=
    Text.dropEndWhile_eq_self_iff.mpr fun d last => filled d (List.mem_of_getLast? last)
  have printable : (c :: later).all isPrintable = true := by
    refine List.all_eq_true.mpr fun d member => ?_
    obtain ⟨low, high⟩ := Char.isDigit_iff_toNat.mp (digits d member)
    have inRange : 0x20 ≤ d.toNat ∧ d.toNat ≤ 0x7e :=
      ⟨Nat.le_trans (by decide) low, Nat.le_trans high (by decide)⟩
    simp [isPrintable, inRange]
  rw [read?_of_bare (filled c List.mem_cons_self) bare, plain?, uncommented_of_not_mem (apart rfl), whole]
  simp [startsPlain, bare, separates_of_not_mem (apart rfl), printable, resolve, typed?_of_digits digits,
    value]

/-- Blanks that a line begins with are in no scalar. -/
theorem unpadded_of_read? {s : List Char} (reads : read? s = some (text s)) :
    s.head?.any Text.isGap = false := by
  have whole := length_le_of_read? reads
  cases s with
  | nil => rfl
  | cons c later =>
    by_contra padded
    have first : Text.isGap c = true := by simpa using padded
    rw [List.dropWhile_cons_of_pos first, List.length_cons] at whole
    exact absurd (whole.trans (List.dropWhile_suffix Text.isGap).length_le) (Nat.lt_irrefl _)

/-- A text that is left plain stands for itself under these conditions and no others. -/
theorem read?_eq_text_iff {s : List Char} (plain : Scalar.mustQuote s = false) :
    read? s = some (text s) ↔ Plain s := by
  obtain ⟨-, -, -, -, -, -, spaceless, -⟩ := Scalar.exists_of_mustQuote plain
  have typed : typed? s = none ↔ ¬ Overlooked s := by
    rw [← isSome_typed?_iff plain, Option.not_isSome_iff_eq_none]
  constructor
  · intro reads
    have unpadded := unpadded_of_read? reads
    rw [read?_of_unpadded plain unpadded] at reads
    split_ifs at reads with printable
    obtain ⟨untyped, whole⟩ := resolve_eq_text_iff.mp (Option.some.inj reads)
    rw [whole] at printable untyped
    have untabbed : s.getLast? ≠ some '\t' := fun tab =>
      absurd (Text.dropEndWhile_eq_self_iff.mp whole '\t' tab) (by decide)
    exact ⟨unpadded, untabbed, printable, typed.mp untyped⟩
  · rintro ⟨unpadded, untabbed, printable, known⟩
    have whole : Text.dropEndWhile Text.isGap s = s := by
      refine Text.dropEndWhile_eq_self_iff.mpr fun c last => Bool.eq_false_iff.mpr fun gap => ?_
      rcases Text.isGap_iff.mp gap with rfl | rfl
      · exact spaceless last
      · exact untabbed last
    rw [read?_of_unpadded plain unpadded, whole]
    simp only [printable, if_true, resolve, typed.mpr known, Option.getD_none]

/-- What the writer makes of a text is read back as this text just where it quotes it, and where it may
leave it plain. -/
theorem scalars_read_back_iff {s : List Char} (escapable : Escapable s) :
    read? (Scalar.inlined s) = some (text s) ↔ Scalar.mustQuote s = true ∨ Plain s := by
  by_cases quoted : Scalar.mustQuote s = true
  · refine iff_of_true ?_ (.inl quoted)
    cases s with
    | nil => rfl
    | cons c later =>
      have written : Scalar.inlined (c :: later) =
          '\x22' :: ((c :: later).flatMap Scalar.escaped ++ ['\x22']) := by
        rw [Scalar.inlined, if_neg (by simp), if_pos quoted, List.cons_append]
      rw [written]
      change quoted? (unquote? _) = _
      rw [unquote?_flatMap_escaped escapable]
      rfl
  · have plain := Bool.eq_false_iff.mpr quoted
    rw [Scalar.inlined_of_plain plain, read?_eq_text_iff plain]
    simp [plain]

theorem scalars_read_back_of_caption :
    Escapable "lib/util.liva".toList ∧
      read? (Scalar.inlined "lib/util.liva".toList) = some (text "lib/util.liva".toList) :=
  ⟨by decide, (scalars_read_back_iff (by decide)).mpr
    (.inr ⟨by decide, by decide, by decide, by decide⟩)⟩

/-- The tilde, which the writer leaves plain, is read as the word for nothing. -/
theorem tilde_read_as_null :
    Escapable ['~'] ∧ read? (Scalar.inlined ['~']) ≠ some (text ['~']) := by decide

end Plain

end YamlScalar

end SymbolIndex
