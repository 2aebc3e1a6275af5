import SymbolIndex.Symbol

/-!
Declarations as records: the same parts for every kind, filled or left empty as the kind asks for.

A record is what reading a text by its bytes writes down.  A symbol says the same with only the parts
that its kind has, so a symbol can be written as a record, and a record shows a symbol.
-/

namespace SymbolIndex

/-- A declaration with the same parts whatever it declares (`Symbol`). -/
structure Record where
  kind : Kind
  name : String
  /-- The parameter text of a callable. -/
  parameters : String
  /-- The result type of a callable, or the type of a field. -/
  type : Option String
  /-- The value of a constant. -/
  value : Option String
  site : Site
  /-- The interfaces that a class says it implements. -/
  implements : List String
  /-- The members of a container. -/
  members : List Record

namespace Record

/-- A declaration with nothing but its name and its site filled in. -/
def leaf (kind : Kind) (name : String) (site : Site) : Record :=
  { kind, name, parameters := "", type := none, value := none, site, implements := [], members := [] }

/-- Whether a declaration starts no later than another. -/
def startsNoLater (r other : Record) : Bool := r.site.span.start ≤ other.site.span.start

/-- The signature of a callable. -/
def signature (r : Record) : Signature := ⟨r.parameters, r.type⟩

/-- The member that a record shows, with the type of a field as good as left out where there is none. -/
def member (r : Record) : Member :=
  { name := r.name
    site := r.site
    form :=
      match r.kind with
      | .method => .method r.signature
      | .constructor => .constructor r.signature
      | _ => .field (r.type.getD "") }

/-- The symbol that a record shows. -/
def symbol (r : Record) : Symbol :=
  { name := r.name
    site := r.site
    form :=
      match r.kind with
      | .function => .function r.signature
      | .constant => .constant (r.value.getD "")
      | .interfaceType => .interfaceType (r.members.map member)
      | _ => .classType r.implements (r.members.map member) }

end Record

/-- A member as a record. -/
def Member.record (m : Member) : Record :=
  { kind := m.kind
    name := m.name
    parameters := (m.signature?.getD .empty).parameters
    type := m.declaredType?
    value := none
    site := m.site
    implements := []
    members := [] }

/-- A symbol as a record. -/
def Symbol.record (s : Symbol) : Record :=
  { kind := s.kind
    name := s.name
    parameters := (s.signature?.getD .empty).parameters
    type := s.signature?.bind Signature.result
    value := s.value?
    site := s.site
    implements := s.implements
    members := s.members.map Member.record }

/-- Written as a record, a member shows again. -/
@[simp] theorem Member.member_record (m : Member) : m.record.member = m := by
  obtain ⟨name, site, form⟩ := m
  cases form <;> rfl

/-- Written as a record, a symbol shows again. -/
theorem Symbol.symbol_record (s : Symbol) : s.record.symbol = s := by
  have again (members : List Member) : (members.map Member.record).map Record.member = members := by
    rw [List.map_map]
    exact (List.map_congr_left fun m _ => m.member_record).trans (List.map_id members)
  obtain ⟨name, site, form⟩ := s
  cases form with
  | function signature | constant value => rfl
  | interfaceType members | classType implements members =>
    simp [Symbol.record, Record.symbol, Symbol.kind, Symbol.members, Symbol.implements, again]

end SymbolIndex
