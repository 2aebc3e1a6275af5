import SymbolIndex.Text.Basic

/-!
Signatures: what a callable declares besides its name.  The parameters stay raw text, because that
is how they are shown; `parameterList` splits them at their commas.
-/

namespace SymbolIndex

/-- The parameter text of a callable and the type that it says it results in. -/
structure Signature where
  parameters : String
  result : Option String
  deriving DecidableEq, Repr

namespace Signature

/-- No parameters and no declared result. -/
def empty : Signature := ⟨"", none⟩

/-- How a call of the name is written (`call_label`): `name(parameters)`, and the result type where
one is declared. -/
def label (name : String) (signature : Signature) : String :=
  let call := name ++ "(" ++ signature.parameters ++ ")"
  match signature.result with
  | some type => call ++ ": " ++ type
  | none => call

/-- The parameters one by one, trimmed (`parameters`); between two commas there may be none. -/
def parameterList (signature : Signature) : List String :=
  (Text.entries signature.parameters.toList).map String.ofList

end Signature

end SymbolIndex
