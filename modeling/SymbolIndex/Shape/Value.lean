import SymbolIndex.Shape.Callable

/-!
Declarations that hold a value, as one trimmed line writes them: a field `name: Type`, a constant
`const NAME = value`, and the one or two names that a `let` binds.
-/

namespace SymbolIndex.Shape

/-- A field of a container. -/
structure Field where
  name : String
  type : String
  deriving DecidableEq, Repr

/-- A constant and the text of its value. -/
structure Constant where
  name : String
  /-- The column of the name. -/
  nameAt : Nat
  value : String
  deriving DecidableEq, Repr

/-- A name that a `let` binds. -/
structure Binding where
  name : String
  /-- The column of the name. -/
  nameAt : Nat
  deriving DecidableEq, Repr

/-- A name and its type. -/
def fieldHead : Pattern := [.name, .blanks, .literal [':'], .blanks, .some1 isTypeChar]

/-- Reads a field (`match_field`).  A line with an opening parenthesis declares none. -/
def field? (line : List Char) : Option Field :=
  if line.contains '(' then none
  else
    match fieldHead.take? line with
    | some ([name, _, _, _, type], _) => some ⟨String.ofList name, String.ofList type⟩
    | _ => none

/-- The name of a constant is written in capitals. -/
def constantName : Piece :=
  .word (fun c => c.isUpper || c == '_') (fun c => c.isUpper || c.isDigit || c == '_')

/-- A constant up to its value. -/
def constantHead : Pattern :=
  [.literal ['c', 'o', 'n', 's', 't'], .some1 Text.isBlank, constantName, .blanks, .literal ['=']]

/-- The value of a constant: the rest of the line, trimmed.  There has to be something after the
`=` that is not a line break, if only a blank. -/
def constantValue? (s : List Char) : Option (List Char) :=
  match Text.trimStart s with
  | [] =>
    match s.getLast? with
    | none => none
    | some c => if c = '\n' then none else some []
  | value => if value.contains '\n' then none else some (Text.trimEnd value)

/-- Reads a constant (`match_constant`). -/
def constant? (line : List Char) : Option Constant :=
  match constantHead.take? line with
  | some ([word, gap, name, _, _], rest) =>
    (constantValue? rest).map fun value =>
      { name := String.ofList name
        nameAt := Pattern.width [word, gap]
        value := String.ofList value }
  | _ => none

/-- A `let` and the first name that it binds. -/
def letHead : Pattern :=
  [.literal ['l', 'e', 't'], .some1 Text.isBlank, .name, .blanks]

/-- The second name that a `let` binds. -/
def secondName : Pattern := [.literal [','], .blanks, .name, .blanks]

/-- Whether an optional type and then `=` follow. -/
def isBound (s : List Char) : Bool :=
  (Pattern.take? [.literal ['=']] s).isSome
    || (Pattern.take? [.literal [':'], .run (· != '='), .literal ['=']] s).isSome

/-- Reads the names that a `let` binds (`match_variable`): none if the line is no `let`, two for a
value and its error. -/
def bindings (line : List Char) : List Binding :=
  match letHead.take? line with
  | some ([word, gap, name, gap'], rest) =>
    let first : Binding := ⟨String.ofList name, Pattern.width [word, gap]⟩
    match secondName.take? rest with
    | some ([comma, gap'', second, _], rest) =>
      if isBound rest then
        [first, ⟨String.ofList second, Pattern.width [word, gap, name, gap', comma, gap'']⟩]
      else []
    | _ => if isBound rest then [first] else []
  | _ => []

end SymbolIndex.Shape
