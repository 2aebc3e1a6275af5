import SymbolIndex.Proofs.Offsets
import SymbolIndex.Proofs.Braces

/-! Quoted text and comments hide their braces. From the first character of a complete token to its last
no brace counts, and behind it code starts afresh whatever stood inside. So one token can stand for
another of its kind, and braces match as before. -/
namespace SymbolIndex

namespace Lexical

/-- The kinds of tokens that hide braces. -/
inductive TokenKind where
  | quoted (mark : Char)
  | blockComment
  | lineComment

/-- A complete token of a kind, opening and closing marks included. -/
inductive Token : TokenKind → List Char → Prop where
  /-- Quoted text has its own mark inside only behind a backslash, and no backslash at its end. -/
  | quoted {mark : Char} {body : List Char} (marked : isQuoteMark mark = true)
      (escaped : ∀ a b, body = a ++ mark :: b → a.getLast? = some '\\')
      (complete : body.getLast? ≠ some '\\') : Token (.quoted mark) (mark :: (body ++ [mark]))
  /-- A block comment ends with the first closing mark behind its opening mark. -/
  | blockComment {body : List Char}
      (first : ∀ a b, body ++ ['*', '/'] = a ++ '*' :: '/' :: b → body.length ≤ a.length) :
      Token .blockComment ('/' :: '*' :: (body ++ ['*', '/']))
  /-- A line comment ends with its line. -/
  | lineComment {body : List Char} (oneLine : '\n' ∉ body) :
      Token .lineComment ('/' :: '/' :: (body ++ ['\n']))

/-- A scan takes the first character of a text for code: no backslash stands before it, and it is not
the second half of a mark that opens a comment. -/
def ReadsAsCode (context : Lexical) (s : List Char) : Prop :=
  ∃ tail, context = code tail ∧ tail ≠ .backslash ∧
    (tail = .slash → s.head? ≠ some '/' ∧ s.head? ≠ some '*')

/-- No brace of a text counts. -/
def Silent : Lexical → List Char → Prop
  | _, [] => True
  | context, c :: s => context.weight c = 0 ∧ (context.next c).Silent s

theorem silent_append {context : Lexical} {a b : List Char} :
    context.Silent (a ++ b) ↔ context.Silent a ∧ (context.after a).Silent b := by
  induction a generalizing context with
  | nil => simp [Silent, after]
  | cons c a ih => simp only [List.cons_append, Silent, ih, after_cons, and_assoc]

theorem Silent.scan {context : Lexical} {s : List Char} (silent : context.Silent s) :
    (context.scan s).2 = 0 := by
  induction s generalizing context with
  | nil => rfl
  | cons c s ih => rw [scan_cons, silent.1, ih silent.2, Int.add_zero]

/-- Where no brace counts none closes a block. -/
theorem Silent.closing? {context : Lexical} {s : List Char} (silent : context.Silent s) (depth : Int)
    (index : Nat) : Lexical.closing? context depth index s = none := by
  induction s generalizing context depth index with
  | nil => rfl
  | cons c s ih =>
    have remains : ¬ (context.weight c = -1 ∧ depth = 1) := by
      rw [silent.1]
      omega
    rw [Lexical.closing?, if_neg remains]
    exact ih silent.2 _ _

/-- Quoted text goes on over a body that has the mark only behind backslashes, `prior` being what of
the token has been read before. -/
theorem quoted_body {mark : Char} {body : List Char} (prior : List Char)
    (escaped : ∀ a b, body = a ++ mark :: b → (prior ++ a).getLast? = some '\\') :
    (quoted mark (prior.getLast? == some '\\')).Silent body ∧
      (quoted mark (prior.getLast? == some '\\')).after body =
        quoted mark ((prior ++ body).getLast? == some '\\') := by
  induction body generalizing prior with
  | nil => exact ⟨trivial, by rw [List.append_nil]; rfl⟩
  | cons c body ih =>
    have stays : (quoted mark (prior.getLast? == some '\\')).next c =
        quoted mark ((prior ++ [c]).getLast? == some '\\') := by
      have unclosed : ¬ (c = mark ∧ (prior.getLast? == some '\\') = false) := by
        rintro ⟨rfl, bare⟩
        have behind := escaped [] body rfl
        rw [List.append_nil] at behind
        simp [behind] at bare
      rw [next, if_neg unclosed, List.getLast?_concat]
      rfl
    have onward := ih (prior ++ [c]) fun a b same => by
      have behind := escaped (c :: a) b (congrArg (c :: ·) same)
      rwa [List.append_assoc, List.singleton_append]
    rw [List.append_assoc, List.singleton_append] at onward
    rw [Silent, after_cons, stays]
    exact ⟨⟨rfl, onward.1⟩, onward.2⟩

/-- A block comment goes on to the first closing mark, behind which code starts. Half a mark that was
read before does not count. -/
theorem block_body (star : Bool) {body : List Char}
    (first : ∀ a b, body ++ ['*', '/'] = a ++ '*' :: '/' :: b → body.length ≤ a.length)
    (apart : star = true → body.head? ≠ some '/') :
    (blockComment star).Silent (body ++ ['*', '/']) ∧
      (blockComment star).after (body ++ ['*', '/']) = start := by
  induction body generalizing star with
  | nil => cases star <;> exact ⟨⟨rfl, rfl, trivial⟩, rfl⟩
  | cons c body ih =>
    have stays : (blockComment star).next c = blockComment (c == '*') := by
      have unfinished : ¬ (star = true ∧ c = '/') := by
        rintro ⟨half, rfl⟩
        exact apart half rfl
      rw [next, if_neg unfinished]
    have onward := ih (c == '*')
      (fun a b same => by
        have early := first (c :: a) b (congrArg (c :: ·) same)
        rw [List.length_cons, List.length_cons] at early
        omega)
      (fun half slash => by
        obtain rfl := eq_of_beq half
        obtain ⟨later, rfl⟩ := List.head?_eq_some_iff.mp slash
        have early := first [] (later ++ ['*', '/']) rfl
        cases early)
    rw [List.cons_append, Silent, after_cons, stays]
    exact ⟨⟨rfl, onward.1⟩, onward.2⟩

theorem line_body {body : List Char} (oneLine : '\n' ∉ body) :
    lineComment.Silent (body ++ ['\n']) ∧ lineComment.after (body ++ ['\n']) = start := by
  induction body with
  | nil => exact ⟨⟨rfl, trivial⟩, rfl⟩
  | cons c body ih =>
    obtain ⟨other, later⟩ := List.ne_and_not_mem_of_not_mem_cons oneLine
    have stays : lineComment.next c = lineComment := if_neg (Ne.symm other)
    rw [List.cons_append, Silent, after_cons, stays]
    exact ⟨⟨rfl, (ih later).1⟩, (ih later).2⟩

theorem next_slash {tail : CodeTail} (noSlash : tail ≠ .slash) : (code tail).next '/' = code .slash := by
  cases tail with
  | plain | backslash => rfl
  | slash => exact absurd rfl noSlash

/-- Behind a complete token code starts, and no brace has counted. -/
theorem Token.silent {kind : TokenKind} {t : List Char} (token : Token kind t) {context : Lexical}
    (reads : context.ReadsAsCode t) : context.Silent t ∧ context.after t = start := by
  obtain ⟨tail, rfl, bare, apart⟩ := reads
  cases token with
  | @quoted mark body marked escaped complete =>
    have opens : (code tail).next mark = Lexical.quoted mark false := by
      have noLine : ¬ (tail = .slash ∧ mark = '/') := fun both =>
        (apart both.1).1 (by simp [both.2])
      have noBlock : ¬ (tail = .slash ∧ mark = '*') := fun both =>
        (apart both.1).2 (by simp [both.2])
      rw [next, if_neg noLine, if_neg noBlock, if_pos ⟨marked, bare⟩]
    have weightless : (code tail).weight mark = 0 := by
      have opening : mark ≠ '\x7b' := ne_of_class marked rfl
      have closing : mark ≠ '\x7d' := ne_of_class marked rfl
      simp [weight, opening, closing]
    have noBackslash : mark ≠ '\\' := ne_of_class marked rfl
    obtain ⟨silent, stays⟩ := quoted_body [mark] fun a b same => by
      have behind := escaped a b same
      rw [List.getLast?_append, behind]
      rfl
    have unescaped : (([mark] ++ body).getLast? == some '\\') = false := by
      rw [List.getLast?_append]
      cases last : body.getLast? with
      | none => simpa using noBackslash
      | some c => simpa [last] using complete
    have first : (([mark] : List Char).getLast? == some '\\') = false := by simpa using noBackslash
    rw [unescaped] at stays
    rw [first] at silent stays
    have closes : (Lexical.quoted mark false).next mark = start := by simp [next, start]
    rw [Silent, after_cons, opens, silent_append, after_append, stays]
    exact ⟨⟨weightless, silent, rfl, trivial⟩, closes⟩
  | @blockComment body first =>
    obtain ⟨silent, ends⟩ := block_body false first (absurd · Bool.false_ne_true)
    rw [Silent, Silent, after_cons, after_cons, next_slash fun half => (apart half).1 rfl]
    exact ⟨⟨rfl, rfl, silent⟩, ends⟩
  | @lineComment body oneLine =>
    obtain ⟨silent, ends⟩ := line_body oneLine
    rw [Silent, Silent, after_cons, after_cons, next_slash fun half => (apart half).1 rfl]
    exact ⟨⟨rfl, rfl, silent⟩, ends⟩

end Lexical

/-- Behind a token, the block that opened before it is closed as if the token were not there. -/
theorem matchingClose?_behind_token {kind : Lexical.TokenKind} {t : List Char}
    (token : Lexical.Token kind t) {before inside : List Char}
    (unreturned : closingBrace? ('\x7b' :: inside) = none)
    (reads : (Lexical.start.after ('\x7b' :: inside)).ReadsAsCode t) (w : List Char) :
    matchingClose? (before ++ '\x7b' :: inside ++ t ++ w) (Text.byteLength before) =
      (Lexical.start.closing? (braceBalance ('\x7b' :: inside)) 0 w).map fun index =>
        Text.byteLength (before ++ '\x7b' :: inside ++ t ++ w.take index) := by
  obtain ⟨silent, ends⟩ := token.silent reads
  have opened : before ++ '\x7b' :: inside ++ t ++ w = before ++ '\x7b' :: (inside ++ t ++ w) := by simp
  have block : '\x7b' :: (inside ++ t ++ w) = '\x7b' :: inside ++ (t ++ w) := by simp
  have closes : closingBrace? ('\x7b' :: (inside ++ t ++ w)) =
      (Lexical.start.closing? (braceBalance ('\x7b' :: inside)) 0 w).map
        (· + ('\x7b' :: inside ++ t).length) := by
    have length : 0 + ('\x7b' :: inside).length + t.length = 0 + ('\x7b' :: inside ++ t).length := by
      rw [List.length_append, Nat.add_assoc]
    have unclosed : Lexical.start.closing? 0 0 ('\x7b' :: inside) = none := unreturned
    rw [block, closingBrace?, Lexical.closing?_append, Lexical.closing?_append, unclosed,
      silent.closing?, ends, silent.scan, Option.none_or, Option.none_or, Int.add_zero, Int.zero_add,
      length, Lexical.closing?_add]
    rfl
  rw [opened, matchingClose?_brace, closes, Option.map_map]
  refine congrArg (Option.map · _) (funext fun index => ?_)
  have taken : ('\x7b' :: (inside ++ t ++ w)).take (index + ('\x7b' :: inside ++ t).length) =
      '\x7b' :: inside ++ t ++ w.take index := by
    rw [block, ← List.append_assoc, Nat.add_comm, List.take_length_add_append]
  rw [Function.comp_apply, taken]
  simp only [List.append_assoc]

/-- A complete token of quoted text, of a block comment or of a line comment can stand for another of its
kind wherever a scan meets it as code: a block that is open before it is closed by the same brace behind
it or not at all, and the balance of the text stays as it is. -/
theorem tokens_interchangeable {kind : Lexical.TokenKind} {t t' : List Char} (token : Lexical.Token kind t)
    (token' : Lexical.Token kind t') (w : List Char) :
    (∀ before inside, closingBrace? ('\x7b' :: inside) = none →
      (Lexical.start.after ('\x7b' :: inside)).ReadsAsCode t →
      (∀ c, matchingClose? (before ++ '\x7b' :: inside ++ t ++ w) (Text.byteLength before) = some c →
        Text.byteLength (before ++ '\x7b' :: inside ++ t) ≤ c) ∧
      matchingClose? (before ++ '\x7b' :: inside ++ t' ++ w) (Text.byteLength before) =
        (matchingClose? (before ++ '\x7b' :: inside ++ t ++ w) (Text.byteLength before)).map
          (· - Text.byteLength t + Text.byteLength t')) ∧
    ∀ u, (Lexical.start.after u).ReadsAsCode t → braceBalance (u ++ t ++ w) = braceBalance (u ++ t' ++ w) := by
  have sameHead : t.head? = t'.head? := by
    cases token <;> cases token' <;> rfl
  have reads' {context : Lexical} (reads : context.ReadsAsCode t) : context.ReadsAsCode t' := by
    rwa [Lexical.ReadsAsCode, ← sameHead]
  refine ⟨fun before inside unreturned reads => ⟨fun c closes => ?_, ?_⟩, fun u reads => ?_⟩
  · rw [matchingClose?_behind_token token unreturned reads] at closes
    obtain ⟨index, -, rfl⟩ := Option.map_eq_some_iff.mp closes
    rw [Text.byteLength_append _ (w.take index)]
    exact Nat.le_add_right _ _
  · rw [matchingClose?_behind_token token unreturned reads,
      matchingClose?_behind_token token' unreturned (reads' reads), Option.map_map]
    refine congrArg (Option.map · _) (funext fun index => ?_)
    simp only [Function.comp_apply, Text.byteLength_append]
    omega
  · have balance {t : List Char} (token : Lexical.Token kind t)
        (reads : (Lexical.start.after u).ReadsAsCode t) :
        braceBalance (u ++ t ++ w) = braceBalance u + braceBalance w := by
      obtain ⟨silent, ends⟩ := token.silent reads
      rw [braceBalance, List.append_assoc, Lexical.scan_append, Lexical.scan_append, silent.scan, ends,
        Int.zero_add]
      rfl
    rw [balance token reads, balance token' (reads' reads)]

/-- In `f() {"\"}"}` the brace and the mark behind the backslash are hidden, so the block closes where it
does in `f() {""}`. -/
theorem tokens_interchangeable_escaped :
    Lexical.Token (.quoted '\x22') ['\x22', '\\', '\x22', '\x7d', '\x22'] ∧
      Lexical.Token (.quoted '\x22') ['\x22', '\x22'] ∧
      closingBrace? ['\x7b'] = none ∧
      (Lexical.start.after ['\x7b']).ReadsAsCode ['\x22', '\x22'] ∧
      matchingClose? "f() \x7b\x22\x22\x7d".toList 4 = some 7 ∧
      matchingClose? "f() \x7b\x22\\\x22\x7d\x22\x7d".toList 4 = some 10 := by
  have escaped : Lexical.Token (.quoted '\x22') ['\x22', '\\', '\x22', '\x7d', '\x22'] := by
    refine @Lexical.Token.quoted '\x22' ['\\', '\x22', '\x7d'] rfl (fun a b same => ?_) (by decide)
    rcases a with _ | ⟨first, _ | ⟨second, _ | ⟨third, later⟩⟩⟩
    · simp at same
    · obtain rfl : '\\' = first := (List.cons.inj same).1
      rfl
    · simp at same
    · simp at same
  have empty : Lexical.Token (.quoted '\x22') ['\x22', '\x22'] :=
    @Lexical.Token.quoted '\x22' [] rfl (fun a b same => by simp at same) (by decide)
  have reads : (Lexical.start.after ['\x7b']).ReadsAsCode ['\x22', '\x22'] := ⟨.plain, rfl, nofun, nofun⟩
  have bare : matchingClose? "f() \x7b\x22\x22\x7d".toList 4 = some 7 := by decide +kernel
  obtain ⟨-, shifted⟩ := (tokens_interchangeable empty escaped ['\x7d']).1 "f() ".toList [] rfl reads
  exact ⟨escaped, empty, rfl, reads, bare, shifted.trans (congrArg (Option.map _) bare)⟩

end SymbolIndex
