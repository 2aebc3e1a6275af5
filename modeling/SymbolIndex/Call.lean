import SymbolIndex.Model

/-!
The call around a cursor, and help with its parameters.

The call is found by reading the text before the cursor backwards: over groups that are closed
again, to the nearest parenthesis that is open and follows a name.  The commas read since then,
outside closed groups, tell which argument the cursor is in.
-/

namespace SymbolIndex

/-- The call that a cursor is in (`CallContext`). -/
structure Call where
  name : List Char
  /-- The number of the argument, from zero. -/
  argument : Nat
  deriving DecidableEq, Repr

namespace Call

/-- The characters of the name of something that is called. -/
def isCalleeChar (c : Char) : Bool := Text.isLetterOrNumber c || c == '_'

/-- The name that a text ends in, blanks after it aside (`callee_before`).  The text is given from
its end to its beginning. -/
def calleeBefore? (reversed : List Char) : Option (List Char) :=
  match (Text.trimStart reversed).takeWhile isCalleeChar with
  | [] => none
  | run => some run.reverse

/-- The innermost open call of a text that is given from its end to its beginning, `closed` groups
being open to the left and `commas` separating arguments to the right. -/
def searchBack? : (closed commas : Nat) → (reversed : List Char) → Option Call
  | _, _, [] => none
  | closed, commas, c :: before =>
    if c = ')' then searchBack? (closed + 1) commas before
    else if c = '(' then
      if closed = 0 then
        match calleeBefore? before with
        | some name => some ⟨name, commas⟩
        | none => searchBack? 0 0 before
      else searchBack? (closed - 1) commas before
    else if c = ',' ∧ closed = 0 then searchBack? closed (commas + 1) before
    else searchBack? closed commas before

/-- The innermost call that the text before a cursor leaves open (`call_context`). -/
def before? (text : List Char) : Option Call := searchBack? 0 0 text.reverse

end Call

/-- Something that can be called. -/
inductive Callee where
  | function (symbol : Symbol) (signature : Signature)
  | method (member : Member) (signature : Signature)
  | constructor (member : Member) (signature : Signature)
  deriving DecidableEq, Repr

namespace Callee

/-- The parameters and the result of what is called. -/
def signature : Callee → Signature
  | function _ signature | method _ signature | constructor _ signature => signature

/-- How a call of the name is written.  A constructor is called by the name of its class, and what
it results in is not shown. -/
def label (name : String) : Callee → String
  | function _ signature | method _ signature => signature.label name
  | constructor _ signature => ({ signature with result := none } : Signature).label name

/-- A function as something to call. -/
def ofFunction? (s : Symbol) : Option Callee :=
  match s.form with
  | .function signature => some (.function s signature)
  | _ => none

/-- A method as something to call. -/
def ofMethod? (m : Member) : Option Callee :=
  match m.form with
  | .method signature => some (.method m signature)
  | _ => none

/-- A constructor as something to call. -/
def ofConstructor? (m : Member) : Option Callee :=
  match m.form with
  | .constructor signature => some (.constructor m signature)
  | _ => none

end Callee

namespace Model

/-- The function of a name. -/
def function? (m : Model) (name : String) : Option Callee :=
  (m.symbols.filter (·.name == name)).findSome? Callee.ofFunction?

/-- The first method of a name, in whatever container. -/
def method? (m : Model) (name : String) : Option Callee :=
  ((m.symbols.flatMap Symbol.members).filter (·.name == name)).findSome? Callee.ofMethod?

/-- The constructor of the first class of a name. -/
def constructorOf? (m : Model) (name : String) : Option Callee :=
  ((m.ofKind .classType).find? (·.name == name)).bind fun s =>
    s.members.findSome? Callee.ofConstructor?

/-- What a call of a name calls (`lookup`): a function, else a method, else the constructor of a
class. -/
def callee? (m : Model) (name : String) : Option Callee :=
  ((m.function? name).or (m.method? name)).or (m.constructorOf? name)

end Model

/-- What is shown while the arguments of a call are written (`SignatureHelp`). -/
structure CallHelp where
  label : String
  parameters : List String
  /-- The parameter that the cursor is in; past the last it stays there. -/
  active : Nat
  deriving DecidableEq, Repr

namespace Document

/-- The text of a line before a column. -/
def textBefore? (d : Document) (p : Position) : Option (List Char) :=
  (d.line? p.line).map fun l => l.content.take p.column

/-- Help with the call that a position is in (`signature_help`). -/
def callHelp? (d : Document) (p : Position) : Option CallHelp := do
  let call ← Call.before? (← d.textBefore? p)
  let name := String.ofList call.name
  let callee ← (Model.ofDocument d).callee? name
  let parameters := callee.signature.parameterList
  some {
    label := callee.label name
    parameters
    active := min call.argument (parameters.length - 1) }

end Document

end SymbolIndex
