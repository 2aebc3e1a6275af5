/-!
Numbers as they are written on a command line: decimal digits after an optional plus sign, of a
value that fits 64 bits.
-/

namespace SymbolIndex.Text

/-- The least number that does not fit 64 bits. -/
def wordLimit : Nat := 0x10000000000000000

/-- The value of a run of decimal digits. -/
def digitsValue (digits : List Char) : Nat :=
  digits.foldl (fun n c => 10 * n + (c.toNat - '0'.toNat)) 0

/-- Reads a number of at most 64 bits. -/
def number? (s : List Char) : Option Nat :=
  let digits :=
    match s with
    | '+' :: rest => rest
    | _ => s
  if digits.isEmpty || !digits.all Char.isDigit then none
  else if digitsValue digits < wordLimit then some (digitsValue digits)
  else none

end SymbolIndex.Text
