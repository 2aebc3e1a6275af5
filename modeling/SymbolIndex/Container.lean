import SymbolIndex.Shape.Container
import SymbolIndex.Shape.Line
import SymbolIndex.Site

/-!
Containers while they are read: from the line of their head to the line that closes them.

Only lines directly in the body, at depth one, declare members.  Whether `Name {` opened an
interface is settled when it closes: it did if no line from its head to its end mentions a
constructor and no member has a body or is a field.  Body-less methods are members of an interface
and are dropped from a class; wrapped method heads are members of a class, but do not make a block
one.

A class has its members in the order in which they were read, so one list keeps them all.  Two lists,
put together and sorted at the end as in `Bytewise.OpenContainer`, come to the same.
-/

namespace SymbolIndex

/-- A container whose end has not been read yet (`OpenContainer`). -/
structure Container where
  name : String
  site : Site
  /-- The interfaces it lists, if its head has an implements clause. -/
  implements : Option (List String)
  /-- The depth of braces, counted from before its head. -/
  depth : Int
  /-- Whether a line so far mentions a constructor. -/
  mentionsConstructor : Bool
  /-- The methods without a body: its members if it is an interface. -/
  signatures : Array Member
  /-- The fields, the callables with a body and the wrapped heads: its members if it is a class. -/
  members : Array Member
  /-- Whether a field or a callable with a body has been declared, which no interface has. -/
  hasBody : Bool
  /-- Whether the next line continues the parameters of a wrapped head. -/
  inParameters : Bool

namespace Container

/-- Whether a line mentions a constructor, in whatever way. -/
def mentions (l : Line) : Bool := Text.occursIn Shape.constructorName.toList l.content

/-- The container that a line's head opens (`start`). -/
def ofHead (l : Line) (head : Shape.Head) : Container :=
  { name := head.name
    site := l.site 0 head.name (l.blockStop head.braceAt)
    implements := head.implements
    depth := braceBalance l.trimmed
    mentionsConstructor := mentions l
    signatures := #[]
    members := #[]
    hasBody := false
    inParameters := false }

/-- A member that is a callable: the constructor, or else a method. -/
def callableForm (name : String) (signature : Signature) : MemberForm :=
  if name = Shape.constructorName then .constructor signature else .method signature

/-- Where the body of a callable that a line declares stops. -/
def bodyStop (l : Line) : Shape.Body → Position
  | .expression => l.stop
  | .block braceAt => l.blockStop braceAt

/-- What the line of a member declares. -/
inductive Entry where
  /-- A method without a body. -/
  | signature (member : Member)
  /-- A field, or a callable with a body. -/
  | bodied (member : Member)
  /-- A callable whose parameters go on after the line. -/
  | wrapped (member : Member)

/-- The entry for what a line reads as. -/
def entryOn (l : Line) : Shape.MemberLine → Entry
  | .signature name signature =>
    .signature { name, site := l.site 0 name l.stop, form := .method signature }
  | .callable c =>
    .bodied {
      name := c.name
      site := l.site 0 c.name (bodyStop l c.body)
      form := callableForm c.name c.signature }
  | .wrapped name parameters =>
    .wrapped { name, site := l.site 0 name l.stop, form := callableForm name ⟨parameters, none⟩ }
  | .field f => .bodied { name := f.name, site := l.site 0 f.name l.stop, form := .field f.type }

/-- What a line directly in a body declares. -/
def declared? (l : Line) : Option Entry := (Shape.memberLine? l.trimmed).map (entryOn l)

/-- The container with one more line directly in its body.  A line that continues the parameters of
a wrapped head declares nothing, and the first with a closing parenthesis is the last of them. -/
def collect (b : Container) (l : Line) : Container :=
  if b.inParameters then { b with inParameters := !l.trimmed.contains ')' }
  else
    match declared? l with
    | some (.signature member) => { b with signatures := b.signatures.push member }
    | some (.bodied member) => { b with members := b.members.push member, hasBody := true }
    | some (.wrapped member) =>
      { b with members := b.members.push member, inParameters := true }
    | none => b

/-- Whether the container turns out to be an interface. -/
def isInterface (b : Container) : Bool :=
  b.implements.isNone && !b.mentionsConstructor && !b.hasBody

/-- The symbol of the container once it is closed (`finish`). -/
def close (b : Container) : Symbol :=
  { name := b.name
    site := b.site
    form :=
      if b.isInterface then .interfaceType b.signatures.toList
      else .classType (b.implements.getD []) b.members.toList }

end Container

end SymbolIndex
