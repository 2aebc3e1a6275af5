import SymbolIndex.Lexical
import SymbolIndex.Proofs.Trimming

/-! Braces along a text. The balance of a text says where its depth stands at the end and
`closing?` where it first comes back to zero: as long as no brace closes the block the depth stays
positive, and at the brace that does it is zero. A text that ends outside quotes and block comments
leaves nothing behind a newline, so lines can be scanned on their own. -/
namespace SymbolIndex

namespace Lexical

/-- Outside quoted text and block comments. -/
def Settled : Lexical → Prop
  | code _ => True
  | lineComment => True
  | quoted _ _ => False
  | blockComment _ => False

instance : (context : Lexical) → Decidable context.Settled
  | code _ | lineComment => isTrue trivial
  | quoted _ _ | blockComment _ => isFalse id

theorem after_cons (context : Lexical) (c : Char) (s : List Char) :
    context.after (c :: s) = (context.next c).after s := rfl

theorem scan_cons (context : Lexical) (c : Char) (s : List Char) :
    (context.scan (c :: s)).2 = context.weight c + ((context.next c).scan s).2 := by
  have both := scan_append context [c] s
  simpa [scan, after, step] using both

/-- Whatever a settled line leaves is forgotten at its newline. -/
theorem next_newline {context : Lexical} (settled : context.Settled) : context.next '\n' = start := by
  cases context with
  | code tail => cases tail <;> rfl
  | lineComment => rfl
  | quoted mark escaped => cases settled
  | blockComment star => cases settled

theorem ne_of_class {p : Char → Bool} {c d : Char} (inside : p c = true) (outside : p d = false) :
    c ≠ d := by
  rintro rfl
  exact Bool.noConfusion (inside.symm.trans outside)

theorem isQuoteMark_of_class {p : Char → Bool} {c : Char} (inside : p c = true)
    (double : p '\x22' = false) (single : p '\x27' = false) : isQuoteMark c = false := by
  simp [isQuoteMark, ne_of_class inside double, ne_of_class inside single]

theorem weight_of_blank (context : Lexical) {c : Char} (blank : Text.isBlank c = true) :
    context.weight c = 0 := by
  have opening : c ≠ '\x7b' := ne_of_class blank rfl
  have closing : c ≠ '\x7d' := ne_of_class blank rfl
  cases context <;> simp [weight, opening, closing]

/-- A blank does not unsettle anything. -/
theorem Settled.next_blank {context : Lexical} (settled : context.Settled) {c : Char}
    (blank : Text.isBlank c = true) : (context.next c).Settled := by
  have slash : c ≠ '/' := ne_of_class blank rfl
  have star : c ≠ '*' := ne_of_class blank rfl
  have quote : isQuoteMark c = false := isQuoteMark_of_class blank rfl rfl
  cases context with
  | code tail => simp [next, slash, star, quote, Settled]
  | lineComment => by_cases newline : c = '\n' <;> simp [next, newline, Settled]
  | quoted mark escaped => cases settled
  | blockComment opened => cases settled

theorem Settled.after_blanks {context : Lexical} (settled : context.Settled) {s : List Char}
    (blank : Text.Blanks s) : (context.after s).Settled := by
  induction s generalizing context with
  | nil => exact settled
  | cons c s ih =>
    obtain ⟨first, later⟩ := List.forall_mem_cons.mp blank
    exact ih (settled.next_blank first) later

theorem scan_blanks (context : Lexical) {s : List Char} (blank : Text.Blanks s) :
    (context.scan s).2 = 0 := by
  induction s generalizing context with
  | nil => rfl
  | cons c s ih =>
    obtain ⟨first, later⟩ := List.forall_mem_cons.mp blank
    rw [scan_cons, weight_of_blank context first, ih _ later, Int.zero_add]

theorem after_blanks_of_stays {context : Lexical} {s : List Char}
    (stays : ∀ c, Text.isBlank c = true → context.next c = context) (blank : Text.Blanks s) :
    context.after s = context := by
  induction s with
  | nil => rfl
  | cons c s ih =>
    obtain ⟨first, later⟩ := List.forall_mem_cons.mp blank
    rw [after_cons, stays c first, ih later]

theorem code_next_blank (tail : CodeTail) {c : Char} (blank : Text.isBlank c = true) :
    (code tail).next c = start := by
  have slash : c ≠ '/' := ne_of_class blank rfl
  have star : c ≠ '*' := ne_of_class blank rfl
  have backslash : c ≠ '\\' := ne_of_class blank rfl
  have quote : isQuoteMark c = false := isQuoteMark_of_class blank rfl rfl
  simp [start, next, tailOf, slash, star, backslash, quote]

theorem quoted_next_blank {mark : Char} (marked : isQuoteMark mark = true) (escaped : Bool) {c : Char}
    (blank : Text.isBlank c = true) : (quoted mark escaped).next c = quoted mark false := by
  have quote : isQuoteMark c = false := isQuoteMark_of_class blank rfl rfl
  have backslash : c ≠ '\\' := ne_of_class blank rfl
  have other : c ≠ mark := by
    rintro rfl
    exact Bool.noConfusion (quote.symm.trans marked)
  simp [next, other, backslash]

theorem block_next_blank (star : Bool) {c : Char} (blank : Text.isBlank c = true) :
    (blockComment star).next c = blockComment false := by
  have slash : c ≠ '/' := ne_of_class blank rfl
  have mark : c ≠ '*' := ne_of_class blank rfl
  simp [next, slash, mark]

theorem start_after_blanks {s : List Char} (blank : Text.Blanks s) : start.after s = start :=
  after_blanks_of_stays (fun _ => code_next_blank .plain) blank

/-- Nothing counts in a line comment before its line ends. -/
theorem scan_lineComment {s : List Char} (oneLine : '\n' ∉ s) : (lineComment.scan s).2 = 0 := by
  induction s with
  | nil => rfl
  | cons c s ih =>
    obtain ⟨other, later⟩ := List.ne_and_not_mem_of_not_mem_cons oneLine
    have stays : lineComment.next c = lineComment := by simp [next, Ne.symm other]
    rw [scan_cons, stays, ih later]
    rfl

/-- Quoted text stands between quote marks, as it does in every context that a text leaves. -/
def Marked : Lexical → Prop
  | quoted mark _ => isQuoteMark mark = true
  | code _ | lineComment | blockComment _ => True

theorem Marked.next {context : Lexical} (marked : context.Marked) (c : Char) :
    (context.next c).Marked := by
  cases context with
  | code tail =>
    simp only [Lexical.next]
    split
    · trivial
    · split
      · trivial
      · split
        · rename_i opens
          exact opens.1
        · trivial
  | quoted mark escaped =>
    simp only [Lexical.next]
    split
    · trivial
    · exact marked
  | lineComment =>
    simp only [Lexical.next]
    split <;> trivial
  | blockComment star =>
    simp only [Lexical.next]
    split <;> trivial

theorem Marked.after {context : Lexical} (marked : context.Marked) (s : List Char) :
    (context.after s).Marked := by
  induction s generalizing context with
  | nil => exact marked
  | cons c s ih => exact ih (marked.next c)

/-- A newline leaves a context that blanks do not change. -/
theorem Marked.newline_next_blank {context : Lexical} (marked : context.Marked) {c : Char}
    (blank : Text.isBlank c = true) : (context.next '\n').next c = context.next '\n' := by
  cases context with
  | code tail =>
    rw [code_next_blank tail rfl]
    exact code_next_blank .plain blank
  | quoted mark escaped =>
    rw [quoted_next_blank marked escaped rfl]
    exact quoted_next_blank marked false blank
  | lineComment => exact code_next_blank .plain blank
  | blockComment star =>
    rw [block_next_blank star rfl]
    exact block_next_blank false blank

/-- Blanks before a newline leave nothing behind it. -/
theorem Marked.blank_next_newline {context : Lexical} (marked : context.Marked) {c : Char}
    (blank : Text.isBlank c = true) : (context.next c).next '\n' = context.next '\n' := by
  cases context with
  | code tail =>
    rw [code_next_blank tail blank, code_next_blank tail rfl]
    rfl
  | quoted mark escaped =>
    rw [quoted_next_blank marked escaped blank, quoted_next_blank marked escaped rfl]
    exact quoted_next_blank marked false rfl
  | lineComment =>
    by_cases newline : c = '\n'
    · rw [newline]
      rfl
    · simp [Lexical.next, newline]
  | blockComment star =>
    rw [block_next_blank star blank, block_next_blank star rfl]
    rfl

theorem scan_cons_blank (context : Lexical) {c : Char} (blank : Text.isBlank c = true) (s : List Char) :
    (context.scan (c :: s)).2 = ((context.next c).scan s).2 := by
  rw [scan_cons, weight_of_blank context blank, Int.zero_add]

theorem closing?_cons_blank (context : Lexical) (depth : Int) (index : Nat) {c : Char}
    (blank : Text.isBlank c = true) (s : List Char) :
    closing? context depth index (c :: s) = closing? (context.next c) depth (index + 1) s := by
  have weightless := weight_of_blank context blank
  have remains : ¬ (context.weight c = -1 ∧ depth = 1) := by omega
  rw [closing?, if_neg remains, weightless, Int.add_zero]

/-- Characters that open neither a comment nor quoted text and are no braces. -/
def Inert (s : List Char) : Prop :=
  ∀ c ∈ s, c ≠ '/' ∧ c ≠ '\x7b' ∧ c ≠ '\x7d' ∧ isQuoteMark c = false

theorem inert_of_class {p : Char → Bool} {s : List Char} (inside : ∀ c ∈ s, p c = true)
    (slash : p '/' = false) (opening : p '\x7b' = false) (closing : p '\x7d' = false)
    (double : p '\x22' = false) (single : p '\x27' = false) : Inert s := fun c member =>
  ⟨ne_of_class (inside c member) slash, ne_of_class (inside c member) opening,
    ne_of_class (inside c member) closing, isQuoteMark_of_class (inside c member) double single⟩

theorem inert_append {a b : List Char} : Inert (a ++ b) ↔ Inert a ∧ Inert b :=
  List.forall_mem_append

theorem plain_ne_slash : CodeTail.plain ≠ .slash := nofun

/-- Inert characters stay in code and count for nothing. -/
theorem after_inert {tail : CodeTail} (noSlash : tail ≠ .slash) {s : List Char} (inert : Inert s) :
    (∃ tail', tail' ≠ .slash ∧ (code tail).after s = code tail') ∧ ((code tail).scan s).2 = 0 := by
  induction s generalizing tail with
  | nil => exact ⟨⟨tail, noSlash, rfl⟩, rfl⟩
  | cons c s ih =>
    obtain ⟨⟨slash, opening, closing, quote⟩, later⟩ := List.forall_mem_cons.mp inert
    have stays : (code tail).next c = code (tailOf c) := by simp [next, noSlash, quote]
    have weighs : (code tail).weight c = 0 := by simp [weight, opening, closing]
    have onward : tailOf c ≠ .slash := by
      rw [tailOf, if_neg slash]
      split <;> simp
    rw [after_cons, scan_cons, stays, weighs, Int.zero_add]
    exact ih onward later

theorem closing?_append (context : Lexical) (depth : Int) (index : Nat) (a b : List Char) :
    closing? context depth index (a ++ b) =
      (closing? context depth index a).or
        (closing? (context.after a) (depth + (context.scan a).2) (index + a.length) b) := by
  induction a generalizing context depth index with
  | nil =>
    rw [List.nil_append, closing?, Option.none_or]
    simp [after, scan]
  | cons c a ih =>
    rw [List.cons_append, closing?, closing?]
    split
    · rfl
    · rw [ih, after_cons, scan_cons, Int.add_assoc, List.length_cons, Nat.add_assoc,
        Nat.add_comm 1]

/-- Where a block is closed does not depend on the index that counting starts from. -/
theorem closing?_add (context : Lexical) (depth : Int) (index more : Nat) (s : List Char) :
    closing? context depth (index + more) s = (closing? context depth index s).map (· + more) := by
  induction s generalizing context depth index with
  | nil => rfl
  | cons c s ih =>
    rw [closing?, closing?]
    split
    · rfl
    · rw [Nat.add_right_comm, ih]

/-- A block that no brace closes is still open at the end. -/
theorem positive_of_closing?_none {context : Lexical} {depth : Int} {index : Nat} {s : List Char}
    (stays : closing? context depth index s = none) (positive : 0 < depth) :
    0 < depth + (context.scan s).2 := by
  induction s generalizing context depth index with
  | nil => simpa [scan] using positive
  | cons c s ih =>
    rw [closing?] at stays
    split at stays
    · cases stays
    · rename_i remains
      have above : 0 < depth + context.weight c := by
        have bounded : -1 ≤ context.weight c := by
          cases context <;> simp only [weight] <;> (try split) <;> (try split) <;> omega
        omega
      rw [scan_cons, ← Int.add_assoc]
      exact ih stays above

theorem exists_code_of_weight {context : Lexical} {c : Char} (closes : context.weight c = -1) :
    c = '\x7d' ∧ ∃ tail, context = code tail := by
  cases context with
  | code tail =>
    by_cases opening : c = '\x7b'
    · simp [weight, opening] at closes
    · by_cases closing : c = '\x7d'
      · exact ⟨closing, tail, rfl⟩
      · simp [weight, opening, closing] at closes
  | quoted | lineComment | blockComment => cases closes

/-- The closing brace stands in code, nothing before it closes the block, and the depth before it
is one. -/
theorem closing?_some {context : Lexical} {depth : Int} {index found : Nat} {s : List Char}
    (closes : closing? context depth index s = some found) :
    ∃ u v, s = u ++ '\x7d' :: v ∧ found = index + u.length ∧
      closing? context depth index u = none ∧ (∃ tail, context.after u = code tail) ∧
      depth + (context.scan u).2 = 1 := by
  induction s generalizing context depth index with
  | nil => cases closes
  | cons c s ih =>
    rw [closing?] at closes
    split at closes
    · rename_i here
      obtain ⟨rfl, inCode⟩ := exists_code_of_weight here.1
      obtain rfl := Option.some.inj closes
      exact ⟨[], s, rfl, rfl, rfl, inCode, by simpa [scan] using here.2⟩
    · rename_i further
      obtain ⟨u, v, rfl, place, before, inCode, level⟩ := ih closes
      refine ⟨c :: u, v, rfl, ?_, ?_, inCode, ?_⟩
      · rw [place, List.length_cons]
        omega
      · rw [closing?, if_neg further, before]
      · rw [scan_cons, ← Int.add_assoc]
        exact level

/-- A brace of code closes a block that has not been closed before it, if the depth is one there. -/
theorem closing?_brace {context : Lexical} {depth : Int} {index : Nat} {u : List Char} {tail : CodeTail}
    (stays : closing? context depth index u = none) (inCode : context.after u = code tail)
    (level : depth + (context.scan u).2 = 1) (v : List Char) :
    closing? context depth index (u ++ '\x7d' :: v) = some (index + u.length) := by
  rw [closing?_append, stays, inCode, level, Option.none_or, closing?]
  exact if_pos ⟨rfl, rfl⟩

/-- After a brace of code the scan goes on as at the beginning of a text. -/
theorem next_brace (tail : CodeTail) :
    (code tail).next '\x7d' = start ∧ (code tail).next '\x7b' = start := by
  cases tail <;> exact ⟨rfl, rfl⟩

/-- A block that opens after inert characters counts from its brace on. -/
theorem scan_inert_block {s : List Char} (inert : Inert s) (rest : List Char) :
    (start.scan (s ++ '\x7b' :: rest)).2 = 1 + (start.scan rest).2 ∧
      start.after (s ++ '\x7b' :: rest) = start.after rest := by
  obtain ⟨⟨tail, -, inCode⟩, zero⟩ := after_inert plain_ne_slash inert
  rw [scan_append, after_append, start, zero, inCode, scan_cons, after_cons, (next_brace tail).2]
  exact ⟨Int.zero_add _, rfl⟩

/-- Whether a brace of code opens a block in a text. -/
def opens (context : Lexical) : List Char → Bool
  | [] => false
  | c :: s => context.weight c == 1 || opens (context.next c) s

/-- A text in which no block opens does not raise the depth. -/
theorem scan_nonpos_of_not_opens {context : Lexical} {s : List Char}
    (quiet : context.opens s = false) : (context.scan s).2 ≤ 0 := by
  induction s generalizing context with
  | nil => exact Int.le_refl _
  | cons c s ih =>
    rw [opens, Bool.or_eq_false_iff, beq_eq_false_iff_ne] at quiet
    have low : context.weight c ≤ 0 := by
      have bounded : context.weight c ≤ 1 := by
        cases context <;> simp only [weight] <;> (try split) <;> (try split) <;> omega
      have different := quiet.1
      omega
    have rest := ih quiet.2
    rw [scan_cons]
    omega

end Lexical

theorem braceBalance_append_settled {a : List Char} (settled : Lexical.start.after a = Lexical.start)
    (b : List Char) : braceBalance (a ++ b) = braceBalance a + braceBalance b := by
  rw [braceBalance, Lexical.scan_append, settled]
  rfl

/-- Trimming a text leaves its balance as it is. -/
theorem braceBalance_trim (s : List Char) : braceBalance (Text.trim s) = braceBalance s := by
  obtain ⟨tail, whole, blank⟩ := Text.exists_trim_append s
  have lead := Text.blanks_indent s
  have same : braceBalance s = braceBalance (Text.indent s ++ (Text.trim s ++ tail)) := by
    rw [← List.append_assoc, ← whole]
  rw [same, braceBalance_append_settled (Lexical.start_after_blanks lead), braceBalance,
    braceBalance, braceBalance, Lexical.scan_append, Lexical.scan_blanks _ lead,
    Lexical.scan_blanks _ blank]
  omega

/-- The brace that closes a block leaves the depth to what follows it. -/
theorem balance_of_closing? {depth : Int} {index found : Nat} {s : List Char}
    (closes : Lexical.start.closing? depth index s = some found) :
    ∃ u v, s = u ++ '\x7d' :: v ∧ found = index + u.length ∧
      depth + braceBalance s = braceBalance v := by
  obtain ⟨u, v, rfl, place, -, ⟨tail, inCode⟩, level⟩ := Lexical.closing?_some closes
  refine ⟨u, v, rfl, place, ?_⟩
  have weighs : (Lexical.code tail).weight '\x7d' = -1 := rfl
  rw [braceBalance, Lexical.scan_append, inCode, Lexical.scan_cons, weighs,
    (Lexical.next_brace tail).1, braceBalance]
  omega

/-- A block that is not closed on a line is looked for on the next, as if that were the first. -/
theorem closing?_line {raw : List Char} (settles : (Lexical.start.after raw).next '\n' = Lexical.start)
    (depth : Int) (index : Nat) (s : List Char) :
    Lexical.start.closing? depth index (raw ++ '\n' :: s) =
      (Lexical.start.closing? depth index raw).or
        (Lexical.start.closing? (depth + braceBalance raw) (index + raw.length + 1) s) := by
  have weightless (context : Lexical) : context.weight '\n' = 0 :=
    Lexical.weight_of_blank context rfl
  rw [Lexical.closing?_append, Lexical.closing?, weightless, settles, Int.add_zero]
  rfl

/-- A block that a text closes is the same when the text goes on. -/
theorem closingBrace?_append {s : List Char} {index : Nat} (closes : closingBrace? s = some index)
    (more : List Char) :
    closingBrace? (s ++ more) = some index ∧ (s ++ more).take (index + 1) = s.take (index + 1) := by
  obtain ⟨u, v, rfl, place, -⟩ := Lexical.closing?_some closes
  refine ⟨?_, List.take_append_of_le_length ?_⟩
  · rw [closingBrace?, Lexical.closing?_append]
    exact congrArg (Option.or · _) closes
  · rw [place, List.length_append, List.length_cons]
    omega

end SymbolIndex
