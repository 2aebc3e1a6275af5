import SymbolIndex.Kind
import SymbolIndex.Position
import SymbolIndex.Signature

/-!
Symbols: the declarations of a document.

A symbol is a function or a constant, or a container with members: a class, whose members are
fields, methods and constructors, or an interface, whose members are methods without a body.  What
every declaration has, a name and a site, stands apart from what only some have.
-/

namespace SymbolIndex

/-- Where a declaration stands. -/
structure Site where
  /-- The whole declaring construct. -/
  span : Span
  /-- The name alone. -/
  selection : Span
  /-- The line that the declaration starts on. -/
  header : Span
  deriving DecidableEq, Repr

/-- What a member of a container declares. -/
inductive MemberForm where
  | field (type : String)
  | method (signature : Signature)
  | constructor (signature : Signature)
  deriving DecidableEq, Repr

/-- A declaration inside a container. -/
structure Member where
  name : String
  site : Site
  form : MemberForm
  deriving DecidableEq, Repr

/-- What a declaration at the top level of a document declares. -/
inductive SymbolForm where
  | function (signature : Signature)
  | constant (value : String)
  | interfaceType (methods : List Member)
  | classType (implements : List String) (members : List Member)
  deriving DecidableEq, Repr

/-- A declaration at the top level of a document. -/
structure Symbol where
  name : String
  site : Site
  form : SymbolForm
  deriving DecidableEq, Repr

namespace Member

/-- The kind of a member. -/
def kind (m : Member) : Kind :=
  match m.form with
  | .field _ => .field
  | .method _ => .method
  | .constructor _ => .constructor

/-- The signature of a method or a constructor. -/
def signature? (m : Member) : Option Signature :=
  match m.form with
  | .field _ => none
  | .method signature | .constructor signature => some signature

/-- The declared type: of a field its own, of a callable that of its result. -/
def declaredType? (m : Member) : Option String :=
  match m.form with
  | .field type => some type
  | .method signature | .constructor signature => signature.result

/-- Whether a member is a method. -/
def isMethod (m : Member) : Bool := m.kind == .method

end Member

namespace Symbol

/-- The kind of a symbol. -/
def kind (s : Symbol) : Kind :=
  match s.form with
  | .function _ => .function
  | .constant _ => .constant
  | .interfaceType _ => .interfaceType
  | .classType _ _ => .classType

/-- The signature of a function. -/
def signature? (s : Symbol) : Option Signature :=
  match s.form with
  | .function signature => some signature
  | _ => none

/-- The value of a constant. -/
def value? (s : Symbol) : Option String :=
  match s.form with
  | .constant value => some value
  | _ => none

/-- The interfaces that a class says it implements. -/
def implements (s : Symbol) : List String :=
  match s.form with
  | .classType names _ => names
  | _ => []

/-- The members of a container, in document order. -/
def members (s : Symbol) : List Member :=
  match s.form with
  | .classType _ members => members
  | .interfaceType methods => methods
  | _ => []

/-- The methods of a container. -/
def methods (s : Symbol) : List Member := s.members.filter Member.isMethod

/-- The fields of a class. -/
def fields (s : Symbol) : List Member := s.members.filter (·.kind == .field)

/-- The first constructor of a class. -/
def constructor? (s : Symbol) : Option Member := s.members.find? (·.kind == .constructor)

/-- How a call of the symbol is written, with no parameters where it has no signature
(`call_label`). -/
def callText (s : Symbol) : String := (s.signature?.getD .empty).label s.name

end Symbol

namespace Member

/-- How a call of the member is written: a field shows its type as that of a result. -/
def callText (m : Member) : String :=
  (m.signature?.getD ⟨"", m.declaredType?⟩).label m.name

end Member

end SymbolIndex
