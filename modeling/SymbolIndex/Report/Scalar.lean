import SymbolIndex.Text.Basic

/-!
Scalars of a YAML report.

A text is written plain unless a reader could take it for something else: then it is put in double
quotes.  What is quoted is decided by the first character, by the last, by a few characters
anywhere, and by the texts that YAML reads as a number or as a word with a meaning of its own.
-/

namespace SymbolIndex.Scalar

/-- The characters that a plain scalar does not begin with. -/
def indicators : List Char :=
  ['-', '[', ']', '\x7b', '\x7d', '\x27', '\x22', '!', '&', '*', '|', '>', '%', '@', '\x60', ',', '?',
    '#']

/-- The characters that a plain scalar does not hold. -/
def breakers : List Char := [':', '#', '\n', '\r']

/-- The words with a meaning of their own. -/
def reservedWords : List String :=
  ["true", "false", "null", "True", "False", "Null", "TRUE", "FALSE", "NULL", "yes", "no", "Yes",
    "No", "YES", "NO", "on", "off", "On", "Off", "ON", "OFF"]

/-- Whether a text looks like a number (`looks_numeric`): digits with at most one point among them,
after an optional sign.  A point alone does, too. -/
def resemblesNumber (s : List Char) : Bool :=
  let digits :=
    match s with
    | '-' :: rest | '+' :: rest => rest
    | _ => s
  !digits.isEmpty && digits.all (fun c => c.isDigit || c == '.') && digits.count '.' ≤ 1

/-- Whether a text is put in quotes (`needs_quoting`). -/
def mustQuote (s : List Char) : Bool :=
  match s with
  | [] => true
  | first :: _ =>
    indicators.contains first || reservedWords.contains (String.ofList s) || resemblesNumber s
      || s.getLast? == some ' ' || s.any breakers.contains

/-- A character as it is written inside double quotes. -/
def escaped (c : Char) : List Char :=
  if c = '\x22' then ['\\', '\x22']
  else if c = '\\' then ['\\', '\\']
  else if c = '\n' then ['\\', 'n']
  else if c = '\r' then ['\\', 'r']
  else if c = '\t' then ['\\', 't']
  else [c]

/-- A text as an inline scalar (`write_inline_string`). -/
def inlined (s : List Char) : List Char :=
  if s.isEmpty then ['\x27', '\x27']
  else if mustQuote s then '\x22' :: s.flatMap escaped ++ ['\x22']
  else s

/-- The lines of a text for a block scalar: a carriage return before a newline belongs to the
break, and a break at the end begins no line. -/
def blockLines (s : List Char) : List (List Char) :=
  let parts := Text.splitOn '\n' s
  let ended := parts.dropLast.map fun part =>
    if part.getLast? = some '\r' then part.dropLast else part
  match parts.getLast? with
  | none | some [] => ended
  | some last => ended ++ [last]

end SymbolIndex.Scalar
