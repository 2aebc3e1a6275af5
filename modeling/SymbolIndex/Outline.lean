import SymbolIndex.Model

/-!
The outline of a document: its symbols as a tree of labelled entries.
-/

namespace SymbolIndex

/-- An entry of an outline (`OutlineNode`). -/
structure OutlineEntry where
  label : String
  detail : String
  kind : Kind
  range : Span
  selection : Span
  children : List OutlineEntry

namespace OutlineEntry

mutual

/-- The number of entries of a tree, its root included. -/
def count : OutlineEntry → Nat
  | ⟨_, _, _, _, _, children⟩ => 1 + countAll children

/-- The number of entries of some trees. -/
def countAll : List OutlineEntry → Nat
  | [] => 0
  | node :: later => count node + countAll later

end

/-- A value of more characters than this is abridged. -/
def longestValue : Nat := 30

/-- The characters that an abridged value keeps. -/
def keptOfValue : Nat := 27

/-- A constant's value as its entry shows it (`shorten_value`). -/
def abridged (value : String) : String :=
  if value.length ≤ longestValue then value
  else String.ofList (value.toList.take keptOfValue) ++ "..."

/-- The entry of a member: callables are labelled as they are called. -/
def ofMember (m : Member) : OutlineEntry :=
  { label := if m.kind.isCallable then m.callText else m.name
    detail :=
      match m.form with
      | .field type => type
      | .method _ => "method"
      | .constructor _ => ""
    kind := m.kind
    range := m.site.span
    selection := m.site.selection
    children := [] }

/-- The entry of a symbol, with those of its members below it (`node`). -/
def ofSymbol (s : Symbol) : OutlineEntry :=
  { label := if s.kind.isCallable then s.callText else s.name
    detail :=
      match s.form with
      | .function _ => ""
      | .constant value => abridged value
      | .interfaceType _ => "interface"
      | .classType _ _ => "class"
    kind := s.kind
    range := s.site.span
    selection := s.site.selection
    children := s.members.map ofMember }

end OutlineEntry

/-- The outline of a model. -/
def Model.outline (m : Model) : List OutlineEntry := m.symbols.map OutlineEntry.ofSymbol

/-- The outline of a document (`document_outline`). -/
def Document.outline (d : Document) : List OutlineEntry := (Model.ofDocument d).outline

end SymbolIndex
