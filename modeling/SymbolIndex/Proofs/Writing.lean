import SymbolIndex.Model
import SymbolIndex.Proofs.Correspondence
import SymbolIndex.Proofs.Patterns

/-! Documents as they are written: declarations in their plainest form, a line for each of their parts.
The types carry what makes a declaration writable, so that names are names and the lines of a body
stay inside the body; what is left to choose is how lines are indented and where blank lines and
comments stand between them. -/
namespace SymbolIndex.Writing

/-- An ASCII name. -/
structure Identifier where
  text : List Char
  fits : Piece.name.Fits text

/-- The name of a callable that is no constructor. -/
structure CallableName extends Identifier where
  noControl : Shape.opensControlFlow (String.ofList text) = false
  noConstructor : String.ofList text ≠ Shape.constructorName

/-- The name of a class or an interface, which begins with a capital. -/
structure ContainerName where
  text : List Char
  fits : Shape.containerName.Fits text

/-- The name of a constant, in capitals. -/
structure ConstantName where
  text : List Char
  fits : Shape.constantName.Fits text

/-- A type: letters, digits, underscores and brackets. -/
structure TypeName where
  text : List Char
  fits : (Piece.some1 Shape.isPlainTypeChar).Fits text

/-- What parameters may be written with: no parentheses, braces, quote marks or slashes. -/
def isParameterChar (c : Char) : Bool :=
  !(['(', ')', '\x7b', '\x7d', '\x22', '\x27', '/'].contains c)

/-- The text between the parentheses of a callable. -/
structure Parameters where
  text : List Char
  chars : ∀ c ∈ text, isParameterChar c = true
  noArrow : Text.occursIn ['=', '>'] text = false

/-- The value of a constant, or the expression that a callable stands for. It leaves no brace
open. -/
structure Expression where
  text : List Char
  nonempty : text ≠ []
  trimmed : Text.trim text = text
  closed : braceBalance text ≤ 0

/-- Lines inside a block: from the given depth on none of them closes the block, and after the last
one nothing else is open. -/
def Enclosed : Int → List (List Char) → Prop
  | depth, [] => depth = 1
  | depth, line :: later => 1 ≤ depth ∧ Enclosed (depth + braceBalance line) later

instance instDecidableEnclosed : (depth : Int) → (lines : List (List Char)) →
    Decidable (Enclosed depth lines)
  | depth, [] => inferInstanceAs (Decidable (depth = 1))
  | depth, line :: later =>
    have := instDecidableEnclosed (depth + braceBalance line) later
    inferInstanceAs (Decidable (1 ≤ depth ∧ Enclosed (depth + braceBalance line) later))

/-- The lines of a body, without their indentation. -/
structure Block where
  lines : List (List Char)
  trimmed : ∀ line ∈ lines, Text.trim line = line
  unopened : ∀ line ∈ lines, Text.startsWith Comment.openMark line = false
  enclosed : Enclosed 1 lines

/-- A callable without its body. -/
structure Heading where
  name : CallableName
  parameters : Parameters
  result : Option TypeName

/-- A member of a class. -/
inductive ClassMember where
  | field (name : Identifier) (type : TypeName)
  | constructor (parameters : Parameters) (body : Block)
  | short (heading : Heading) (body : Expression) (level : braceBalance body.text = 0)
  | long (heading : Heading) (body : Block)

/-- A declaration at the top level. A class that implements nothing has a member, or it could not be
told from an interface. -/
inductive Declaration where
  | constant (name : ConstantName) (value : Expression)
  | short (heading : Heading) (body : Expression)
  | long (heading : Heading) (body : Block)
  | interfaceType (name : ContainerName) (methods : List Heading)
  | classType (name : ContainerName) (implements : List ContainerName) (members : List ClassMember)
      (distinct : implements = [] → members ≠ [])

section Lines

/-- A result type, where one is written. -/
def resultText : Option TypeName → List Char
  | none => []
  | some type => ':' :: ' ' :: type.text

/-- A name with its parameters and its result type. -/
def callText (name : List Char) (parameters : Parameters) (result : Option TypeName) : List Char :=
  name ++ '(' :: (parameters.text ++ ')' :: resultText result)

/-- A callable without its body. -/
def Heading.text (heading : Heading) : List Char :=
  callText heading.name.text heading.parameters heading.result

/-- What follows the heading of a callable that stands for an expression. -/
def shortText (body : Expression) : List Char := ' ' :: '=' :: '>' :: ' ' :: body.text

/-- The lines of something with a block, from what stands before the opening brace. -/
def blockLines (head : List Char) (body : List (List Char)) : List (List Char) :=
  (head ++ [' ', '\x7b']) :: body ++ [['\x7d']]

/-- The implements clause of a class. -/
def clauseText : List ContainerName → List Char
  | [] => []
  | names => ' ' :: ':' :: ' ' :: [',', ' '].intercalate (names.map ContainerName.text)

def ClassMember.lines : ClassMember → List (List Char)
  | field name type => [name.text ++ resultText (some type)]
  | constructor parameters body =>
    blockLines (callText Shape.constructorName.toList parameters none) body.lines
  | short heading body _ => [heading.text ++ shortText body]
  | long heading body => blockLines heading.text body.lines

/-- The lines of a declaration, none of them indented. -/
def Declaration.lines : Declaration → List (List Char)
  | constant name value =>
    ['c', 'o', 'n', 's', 't', ' '] ++ name.text ++ ' ' :: '=' :: ' ' :: value.text |> List.singleton
  | short heading body => [heading.text ++ shortText body]
  | long heading body => blockLines heading.text body.lines
  | interfaceType name methods => blockLines name.text (methods.map Heading.text)
  | classType name implements members _ =>
    blockLines (name.text ++ clauseText implements) (members.flatMap ClassMember.lines)

end Lines

/-- A line that declares nothing wherever it stands: a blank one or a comment. -/
def Filler (line : List Char) : Prop :=
  Text.trim line = [] ∨ Text.startsWith Comment.lineMark (Text.trim line) = true

/-- Lines as they may be written in a document: each with some blanks around it, and fillers in
between. -/
inductive Spread : List (List Char) → List (List Char) → Prop where
  | nil : Spread [] []
  | filler {texts lines : List (List Char)} (line : List Char) (empty : Filler line)
      (rest : Spread texts lines) : Spread texts (line :: lines)
  | line {texts lines : List (List Char)} (line : List Char) (rest : Spread texts lines) :
      Spread (Text.trim line :: texts) (line :: lines)

instance (line : List Char) : Decidable (Filler line) :=
  inferInstanceAs (Decidable (_ ∨ _))

theorem spread_nil_cons {line : List Char} {lines : List (List Char)} :
    Spread [] (line :: lines) ↔ Filler line ∧ Spread [] lines := by
  constructor
  · rintro (_ | ⟨_, empty, rest⟩)
    exact ⟨empty, rest⟩
  · rintro ⟨empty, rest⟩
    exact .filler line empty rest

theorem spread_cons_cons {text line : List Char} {texts lines : List (List Char)} :
    Spread (text :: texts) (line :: lines) ↔
      Filler line ∧ Spread (text :: texts) lines ∨ text = Text.trim line ∧ Spread texts lines := by
  constructor
  · rintro (_ | ⟨_, empty, rest⟩ | ⟨_, rest⟩)
    · exact .inl ⟨empty, rest⟩
    · exact .inr ⟨rfl, rest⟩
  · rintro (⟨empty, rest⟩ | ⟨rfl, rest⟩)
    · exact .filler line empty rest
    · exact .line line rest

instance instDecidableSpread : (texts lines : List (List Char)) → Decidable (Spread texts lines)
  | [], [] => isTrue .nil
  | _ :: _, [] => isFalse nofun
  | [], _ :: lines =>
    have := instDecidableSpread [] lines
    decidable_of_iff' _ spread_nil_cons
  | text :: texts, _ :: lines =>
    have := instDecidableSpread (text :: texts) lines
    have := instDecidableSpread texts lines
    decidable_of_iff' _ spread_cons_cons

/-- Whether a declaration is that of an interface. -/
def Declaration.isInterface : Declaration → Bool
  | interfaceType _ _ => true
  | _ => false

/-- The lines of a document that is written as these declarations. From the head of an interface to
its end no line mentions a constructor, comments included. -/
inductive Written : List Declaration → List (List Char) → Prop where
  | nil : Written [] []
  | filler {declarations : List Declaration} {lines : List (List Char)} (line : List Char)
      (empty : Filler line) (rest : Written declarations lines) :
      Written declarations (line :: lines)
  | declaration {declarations : List Declaration} {lines : List (List Char)}
      (declaration : Declaration) (own : List (List Char)) (spread : Spread declaration.lines own)
      (quiet : declaration.isInterface = true →
        ∀ line ∈ own, Text.occursIn Shape.constructorName.toList line = false)
      (rest : Written declarations lines) : Written (declaration :: declarations) (own ++ lines)

section Symbols

/-- No place in particular. -/
def nowhere : Site :=
  ⟨⟨.origin, .origin⟩, ⟨.origin, .origin⟩, ⟨.origin, .origin⟩⟩

/-- The signature that parameters and a result type give. -/
def signature (parameters : Parameters) (result : Option TypeName) : Signature :=
  ⟨String.ofList (Text.trim parameters.text), result.map fun type => String.ofList type.text⟩

def Heading.signature (heading : Heading) : Signature :=
  Writing.signature heading.parameters heading.result

/-- The method that a heading declares. -/
def Heading.method (heading : Heading) : Member :=
  ⟨String.ofList heading.name.text, nowhere, .method heading.signature⟩

def ClassMember.member : ClassMember → Member
  | field name type => ⟨String.ofList name.text, nowhere, .field (String.ofList type.text)⟩
  | constructor parameters _ =>
    ⟨Shape.constructorName, nowhere, .constructor (Writing.signature parameters none)⟩
  | short heading _ _ => heading.method
  | long heading _ => heading.method

/-- The symbol that a declaration declares, but for its place. -/
def Declaration.symbol : Declaration → Symbol
  | constant name value =>
    ⟨String.ofList name.text, nowhere, .constant (String.ofList value.text)⟩
  | short heading _ | long heading _ =>
    ⟨String.ofList heading.name.text, nowhere, .function heading.signature⟩
  | interfaceType name methods =>
    ⟨String.ofList name.text, nowhere, .interfaceType (methods.map Heading.method)⟩
  | classType name implements members _ =>
    ⟨String.ofList name.text, nowhere,
      .classType (implements.map fun i => String.ofList i.text) (members.map ClassMember.member)⟩

end Symbols

end SymbolIndex.Writing
