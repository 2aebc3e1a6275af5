import SymbolIndex.Model
import SymbolIndex.Table

/-!
Conformance: a class has, by name, every method of every interface that it lists.

Violations come in the order of the classes, then of the interfaces that a class lists, then of the
methods of an interface.  Of several interfaces of one name the last in the document counts.
-/

namespace SymbolIndex

/-- An interface, as far as conformance is concerned. -/
structure Interface where
  name : String
  site : Site
  methods : List Member
  deriving DecidableEq, Repr

/-- A class, as far as conformance is concerned (`ClassEntry`). -/
structure Implementer where
  name : String
  implements : List String
  /-- The names of the methods; constructors and fields are not methods. -/
  methods : List String
  /-- The line of the head, which is where violations are reported. -/
  header : Span
  deriving DecidableEq, Repr

/-- What is wrong between a class and an interface that it lists (`ViolationKind`). -/
inductive Fault where
  /-- No interface has the name. -/
  | unknownInterface
  /-- The interface has a method that the class has not. -/
  | missingMethod (name : String) (signature : Signature)
  deriving DecidableEq, Repr

/-- A class that does not conform. -/
structure Violation where
  className : String
  interfaceName : String
  fault : Fault
  span : Span
  deriving DecidableEq, Repr

namespace Fault

/-- Missing methods are errors; an interface that is unknown may be declared elsewhere. -/
def isError : Fault → Bool
  | unknownInterface => false
  | missingMethod _ _ => true

end Fault

namespace Violation

/-- The text that reports a violation. -/
def message (v : Violation) : String :=
  match v.fault with
  | .unknownInterface => "Interface '" ++ v.interfaceName ++ "' not found"
  | .missingMethod name signature =>
    "Class '" ++ v.className ++ "' does not implement method '" ++ name ++ "' from interface '"
      ++ v.interfaceName ++ "'\n\nRequired: " ++ signature.label name
      ++ "\n\nAdd this method to the class or remove the interface from the implements clause"

end Violation

namespace Interface

/-- The interface that a symbol declares. -/
def ofSymbol? (s : Symbol) : Option Interface :=
  match s.form with
  | .interfaceType methods => some ⟨s.name, s.site, methods⟩
  | _ => none

/-- Its methods with their signatures, in document order. -/
def required (i : Interface) : List (String × Signature) :=
  i.methods.filterMap fun m =>
    match m.form with
    | .method signature => some (m.name, signature)
    | _ => none

end Interface

namespace Implementer

/-- The class that a symbol declares. -/
def ofSymbol? (s : Symbol) : Option Implementer :=
  match s.form with
  | .classType implements _ => some ⟨s.name, implements, s.methods.map Member.name, s.site.header⟩
  | _ => none

/-- What is wrong between a class and one interface that it lists. -/
def faults (c : Implementer) (interfaces : Table Interface) (name : String) : List Fault :=
  match interfaces.find? name with
  | none => [.unknownInterface]
  | some i =>
    (i.required.filter fun (method, _) => !c.methods.contains method).map fun (method, signature) =>
      .missingMethod method signature

/-- The violations of a class. -/
def violations (c : Implementer) (interfaces : Table Interface) : List Violation :=
  c.implements.flatMap fun name =>
    (c.faults interfaces name).map fun fault =>
      { className := c.name, interfaceName := name, fault, span := c.header }

end Implementer

namespace Model

/-- The interfaces of a model by name (`InterfaceTable`). -/
def interfaces (m : Model) : Table Interface :=
  Table.ofList ((m.symbols.filterMap Interface.ofSymbol?).map fun i => (i.name, i))

/-- The classes of a model in document order (`ClassTable`). -/
def classes (m : Model) : List Implementer := m.symbols.filterMap Implementer.ofSymbol?

end Model

/-- The violations of some classes against a table of interfaces (`check`). -/
def violations (interfaces : Table Interface) (classes : List Implementer) : List Violation :=
  classes.flatMap (·.violations interfaces)

/-- The violations of the classes of a model against its own interfaces (`validate`). -/
def Model.violations (m : Model) : List Violation := SymbolIndex.violations m.interfaces m.classes

end SymbolIndex
