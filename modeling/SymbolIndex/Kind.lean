/-!
The kinds of declarations, with the words that they are shown by.
-/

namespace SymbolIndex

/-- What a declaration declares. -/
inductive Kind where
  | function
  | classType
  | interfaceType
  | constant
  | field
  | method
  | constructor
  | binding
  deriving DecidableEq, Repr

namespace Kind

/-- Every kind, in the order in which kinds are listed. -/
def all : List Kind :=
  [function, classType, interfaceType, constant, field, method, constructor, binding]

/-- The word for a kind. -/
def word : Kind → String
  | function => "function"
  | classType => "class"
  | interfaceType => "interface"
  | constant => "constant"
  | field => "field"
  | method => "method"
  | constructor => "constructor"
  | binding => "variable"

/-- Whether declarations of the kind hold members. -/
def isContainer (kind : Kind) : Bool := kind == classType || kind == interfaceType

/-- Whether declarations of the kind can be called. -/
def isCallable (kind : Kind) : Bool := kind == function || kind == method || kind == constructor

end Kind

end SymbolIndex
