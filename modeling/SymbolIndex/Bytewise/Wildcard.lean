import SymbolIndex.Bytewise.Scan
import SymbolIndex.Files.Glob

/-!
The comparison of a wildcard pattern with a name, as a loop over the bytes of both.

It goes along both and remembers the last star alone: where the two differ, that star takes one more byte.
-/

namespace SymbolIndex.Bytewise

open Glob

/-- How far a pattern and a name have been compared. -/
structure Comparison where
  nameAt : Nat
  patternAt : Nat
  /-- Where the last star stands, and where the bytes that it stands for end. -/
  lastStar : Option (Nat × Nat)

namespace Comparison

/-- Nothing has been compared yet. -/
def start : Comparison := ⟨0, 0, none⟩

/-- The last star takes one more byte, and the comparison goes on behind both. -/
def retry (c : Comparison) : Option Comparison :=
  c.lastStar.map fun (place, stop) =>
    { nameAt := stop + 1, patternAt := place + 1, lastStar := some (place, stop + 1) }

/-- The comparison after one step, if there is a way to go on. -/
def advance (pattern name : List UInt8) (c : Comparison) : Except Breach (Option Comparison) :=
  match pattern[c.patternAt]? with
  | none => .ok c.retry
  | some p =>
    if p = star then
      .ok (some { c with patternAt := c.patternAt + 1, lastStar := some (c.patternAt, c.nameAt) })
    else do
      let b ← itemAt name c.nameAt
      if standsFor p b then
        return some { c with nameAt := c.nameAt + 1, patternAt := c.patternAt + 1 }
      return c.retry

end Comparison

/-- Whether a pattern has nothing but stars from an index on. -/
def starsFrom (pattern : List UInt8) (index : Nat) : Except Breach Bool :=
  if index ≤ pattern.length then .ok ((pattern.drop index).all (· == star)) else .error .outOfRange

/-- Whether a comparison comes to the end of the name with the pattern used up (`glob_match`). -/
def compareFrom (pattern name : List UInt8) : (steps : Nat) → Comparison → Except Breach Bool
  | 0, c => if c.nameAt < name.length then .error .outOfSteps else starsFrom pattern c.patternAt
  | steps + 1, c =>
    if c.nameAt < name.length then do
      match ← c.advance pattern name with
      | some next => compareFrom pattern name steps next
      | none => return false
    else starsFrom pattern c.patternAt

end SymbolIndex.Bytewise
