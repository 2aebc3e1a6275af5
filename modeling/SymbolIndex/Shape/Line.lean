import SymbolIndex.Shape.Value

/-!
What one trimmed line declares, by the readers that are tried on it one after the other.

The order of the readers is the rule for a line that could be read in several ways.  Where the
declaration stands is not their business, so everything that reads declarations goes by the same rules.
-/

namespace SymbolIndex.Shape

/-- What a line directly in the body of a container reads as (the rules of `collect`). -/
inductive MemberLine where
  /-- A method without a body. -/
  | signature (name : String) (signature : Signature)
  /-- A callable with a body. -/
  | callable (c : Callable)
  /-- A callable whose parameters go on after the line. -/
  | wrapped (name parameters : String)
  | field (f : Field)
  deriving DecidableEq, Repr

/-- Reads a line directly in the body of a container: as a signature first, then as a callable with a
body, then as a wrapped head, then as a field. -/
def memberLine? (line : List Char) : Option MemberLine :=
  match signature? line with
  | some (name, signature) => some (.signature name signature)
  | none =>
    match callable? line with
    | some c => some (.callable c)
    | none =>
      match wrapped? line with
      | some (name, parameters) => some (.wrapped name parameters)
      | none => (field? line).map .field

/-- What a line at the top level reads as, heads of containers apart. -/
inductive TopLine where
  | function (c : Callable)
  | constant (c : Constant)
  deriving DecidableEq, Repr

/-- Reads a line at the top level: as a function first, then as a constant (the rules of
`top_level_symbol`).  A constructor there is nothing. -/
def topLine? (line : List Char) : Option TopLine :=
  match callable? line with
  | some c => if c.name = constructorName then none else some (.function c)
  | none => (constant? line).map .constant

end SymbolIndex.Shape
