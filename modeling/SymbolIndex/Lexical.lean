import SymbolIndex.Text.Utf8

/-!
The lexical context of a document: code, quoted text, line comments and block comments.

A context is advanced one character at a time, so the context after a text is a fold over it and a
text can be cut anywhere.  Quoted text closes at the next mark of its own kind that does not
directly follow a backslash; only that one character decides, so two backslashes do not cancel.  A
`//` comment runs to the end of its line and a `/*` comment to the first `*/` after its opener.

Braces count where they stand in code.  `braceBalance` is the net count over a text, and
`closingBrace?` finds the brace at which the count first comes back to zero.  Of two texts in a row
the second is read in the context that the first leaves, and their balances add up (`scan_append`).
-/

namespace SymbolIndex

/-- What the previous character of the code was, as far as it decides what the next one means. -/
inductive CodeTail where
  /-- Nothing that matters. -/
  | plain
  /-- A backslash: a quote mark after it opens nothing. -/
  | backslash
  /-- A slash that may be half of a comment opener. -/
  | slash
  deriving DecidableEq, Repr

/-- Where in the lexical structure of a document its next character stands. -/
inductive Lexical where
  | code (tail : CodeTail)
  | quoted (mark : Char) (escaped : Bool)
  | lineComment
  /-- Inside a block comment; `star` says that its previous character may be half of a `*/`. -/
  | blockComment (star : Bool)
  deriving DecidableEq, Repr

namespace Lexical

/-- The context at the beginning of a text. -/
def start : Lexical := code .plain

/-- The two marks that open and close quoted text. -/
def isQuoteMark (c : Char) : Bool := c == '\x22' || c == '\x27'

/-- What a character of code leaves behind it. -/
def tailOf (c : Char) : CodeTail :=
  if c = '\\' then .backslash else if c = '/' then .slash else .plain

/-- The context after one more character. -/
def next : Lexical → Char → Lexical
  | code tail, c =>
    if tail = .slash ∧ c = '/' then lineComment
    else if tail = .slash ∧ c = '*' then blockComment false
    else if isQuoteMark c ∧ tail ≠ .backslash then quoted c false
    else code (tailOf c)
  | quoted mark escaped, c =>
    if c = mark ∧ escaped = false then code .plain else quoted mark (c == '\\')
  | lineComment, c => if c = '\n' then code .plain else lineComment
  | blockComment star, c =>
    if star = true ∧ c = '/' then code .plain else blockComment (c == '*')

/-- The context after a text. -/
def after (context : Lexical) (s : List Char) : Lexical := s.foldl next context

/-- The context that a text starts in when this character stands before it: only a backslash there
is remembered. -/
def following (previous : Option Char) : Lexical :=
  if previous = some '\\' then code .backslash else start

/-- How much a character adds to the depth of braces: nothing outside code. -/
def weight (context : Lexical) (c : Char) : Int :=
  match context with
  | code _ => if c = '\x7b' then 1 else if c = '\x7d' then -1 else 0
  | _ => 0

/-- The context and the depth of braces after one more character. -/
def step : Lexical × Int → Char → Lexical × Int
  | (context, depth), c => (context.next c, depth + context.weight c)

/-- The context and the net count of braces after a text that starts in the given context. -/
def scan (context : Lexical) (s : List Char) : Lexical × Int := s.foldl step (context, 0)

/-- The index of the closing brace of code at which the depth comes to zero, `index` and `depth`
being those of the text's first character. -/
def closing? (context : Lexical) (depth : Int) (index : Nat) : List Char → Option Nat
  | [] => none
  | c :: s =>
    if context.weight c = -1 ∧ depth = 1 then some index
    else closing? (context.next c) (depth + context.weight c) (index + 1) s

theorem after_append (context : Lexical) (a b : List Char) :
    context.after (a ++ b) = (context.after a).after b := by
  simp [after]

private theorem foldl_step (context : Lexical) (depth : Int) (s : List Char) :
    s.foldl step (context, depth) = (context.after s, depth + (context.scan s).2) := by
  induction s generalizing context depth with
  | nil => simp [after, scan]
  | cons c s ih =>
    have first : (context.scan (c :: s)).2 = context.weight c + ((context.next c).scan s).2 := by
      rw [scan, List.foldl_cons, step, ih, Int.zero_add]
    rw [List.foldl_cons, step, ih, first, Int.add_assoc]
    rfl

/-- The context that a scan ends in does not depend on the braces that it counts. -/
theorem scan_fst (context : Lexical) (s : List Char) : (context.scan s).1 = context.after s := by
  rw [scan, foldl_step]

/-- The balance of two texts in a row is the sum of theirs, each in its own context. -/
theorem scan_append (context : Lexical) (a b : List Char) :
    (context.scan (a ++ b)).2 = (context.scan a).2 + ((context.after a).scan b).2 := by
  rw [scan, List.foldl_append, foldl_step context 0 a, foldl_step]
  simp

end Lexical

/-- The opening braces less the closing braces of a text read on its own (`brace_delta`). -/
def braceBalance (s : List Char) : Int := (Lexical.start.scan s).2

/-- The index of the brace that balances a block, in the text from the block's opening brace on. -/
def closingBrace? (s : List Char) : Option Nat := Lexical.start.closing? 0 0 s

/-- The byte offset of the brace that balances the block opened at a byte offset of a text
(`find_matching_close`). -/
def matchingClose? (s : List Char) (openAt : Nat) : Option Nat :=
  let (before, rest) := Text.splitAtByte openAt s
  ((Lexical.following before.getLast?).closing? 0 0 rest).map fun index =>
    Text.byteLength before + Text.byteOffset rest index

end SymbolIndex
