import SymbolIndex.Pattern
import SymbolIndex.Signature

/-!
Callables, as one trimmed line writes them.

A callable with a body is `name(parameters)`, an optional result type, and then `=>` or an opening
brace.  A signature line has no body at all.  A wrapped head opens a parameter list that later
lines close.  Control flow looks just like a call, so the words that open it are never names of
callables.
-/

namespace SymbolIndex.Shape

/-- The words that open control flow. -/
def controlWords : List String :=
  ["if", "else", "for", "while", "switch", "match", "return", "fail", "catch"]

/-- Whether a name is a word that opens control flow (`is_control_word`). -/
def opensControlFlow (name : String) : Bool := controlWords.contains name

/-- The name that every constructor has. -/
def constructorName : String := "constructor"

/-- How a callable goes on after its heading. -/
inductive Body where
  /-- One expression, after `=>`. -/
  | expression
  /-- A block, with its opening brace at this column. -/
  | block (braceAt : Nat)
  deriving DecidableEq, Repr

/-- A callable with a body. -/
structure Callable where
  name : String
  signature : Signature
  body : Body
  deriving DecidableEq, Repr

/-- The characters of the result type of a signature line. -/
def isPlainTypeChar (c : Char) : Bool := Text.isNameChar c || c == '[' || c == ']'

/-- The characters of the type of a field and of the result type of a callable with a body. -/
def isTypeChar (c : Char) : Bool := isPlainTypeChar c || c == '<' || c == '>' || c == '?'

/-- A name and the parenthesis that opens its parameters. -/
def openCall : Pattern := [.name, .blanks, .literal ['(']]

/-- A name and all of its parameters. -/
def heading : Pattern := openCall ++ [.run (· != ')'), .literal [')'], .blanks]

/-- A declared result type. -/
def resultType : Pattern := [.literal [':'], .blanks, .some1 isTypeChar, .blanks]

/-- The body that begins here, at the given column. -/
def body? (column : Nat) : List Char → Option Body
  | '=' :: '>' :: _ => some .expression
  | '\x7b' :: _ => some (.block column)
  | _ => none

/-- The optional result type and the body of a callable, where its heading has ended at a
column. -/
def resultAndBody? (column : Nat) (s : List Char) : Option (Option (List Char) × Body) :=
  match resultType.take? s with
  | some ([colon, gap, type, gap'], rest) =>
    (body? (column + Pattern.width [colon, gap, type, gap']) rest).map (some type, ·)
  | _ => (body? column s).map (none, ·)

/-- Reads a callable with a body (`match_callable`). -/
def callable? (line : List Char) : Option Callable :=
  match heading.take? line with
  | some ([name, gap, opening, parameters, closing, gap'], rest) =>
    if opensControlFlow (String.ofList name) then none
    else
      (resultAndBody? (Pattern.width [name, gap, opening, parameters, closing, gap']) rest).map
        fun (type, body) =>
          { name := String.ofList name
            signature := ⟨String.ofList (Text.trim parameters), type.map String.ofList⟩
            body }
  | _ => none

/-- The result type that makes up the rest of a signature line, which may also be blank. -/
def lastResult? (s : List Char) : Option (Option (List Char)) :=
  match Text.trimStart s with
  | [] => some none
  | ':' :: rest =>
    let type := Text.trimStart rest
    if type.isEmpty || !type.all isPlainTypeChar then none else some (some type)
  | _ => none

/-- The parameters of a signature line and its result type.  The parameters end at the first
parenthesis after which only a result type follows, and they do not run over a line break. -/
def parametersAndResult? : List Char → Option (List Char × Option (List Char))
  | [] => none
  | ')' :: s =>
    match lastResult? s with
    | some type => some ([], type)
    | none => (parametersAndResult? s).map fun (parameters, type) => (')' :: parameters, type)
  | '\n' :: _ => none
  | c :: s => (parametersAndResult? s).map fun (parameters, type) => (c :: parameters, type)

/-- Reads a signature line (`match_signature`): a method that is declared without a body. -/
def signature? (line : List Char) : Option (String × Signature) :=
  if Text.occursIn ['=', '>'] line || line.contains '\x7b' then none
  else
    match openCall.take? line with
    | some ([name, _, _], rest) =>
      let name := String.ofList name
      if name = constructorName || opensControlFlow name then none
      else
        (parametersAndResult? rest).map fun (parameters, type) =>
          (name, ⟨String.ofList (Text.trim parameters), type.map String.ofList⟩)
    | _ => none

/-- Reads a head whose parameter list runs onto later lines, as the name and the parameter text that
its own line has (`match_wrapped_head`). -/
def wrapped? (line : List Char) : Option (String × String) :=
  if line.contains ')' then none
  else
    match openCall.take? line with
    | some ([name, _, _], rest) =>
      let name := String.ofList name
      if rest.contains '\n' || opensControlFlow name then none
      else
        let parameters := Text.trimEnd (Text.dropEndWhile (· == ',') (Text.trim rest))
        some (name, String.ofList parameters)
    | _ => none

end SymbolIndex.Shape
