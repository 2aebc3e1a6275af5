import SymbolIndex.Files.Tree

/-!
Reading source files as text.

A file that is empty or looks binary holds nothing to analyse.  Any other has to be valid UTF-8; a
byte order mark in front of it is not part of the text.
-/

namespace SymbolIndex

/-- What stands in a file, as far as it could be read. -/
inductive Stored where
  | bytes (content : ByteArray)
  | unreadable (reason : String)

/-- Why a file cannot be analysed. -/
inductive ReadError where
  | notUtf8
  | system (reason : String)
  deriving DecidableEq, Repr

/-- The text that reports why a file was not read. -/
def ReadError.message : ReadError → String
  | notUtf8 => "Not valid UTF-8"
  | system reason => reason

namespace Source

/-- The number of bytes that are looked at to tell a binary file. -/
def binaryWindow : Nat := 8192

/-- Whether a file looks binary (`is_binary`): a null byte is among its first. -/
def looksBinary (content : ByteArray) : Bool := (content.data.extract 0 binaryWindow).contains 0

/-- A text without the byte order mark in front of it (`strip_bom`). -/
def withoutMark (text : String) : String :=
  match text.toList with
  | '\ufeff' :: rest => String.ofList rest
  | _ => text

/-- The text of a file, if there is something to analyse. -/
def decode (content : ByteArray) : Except ReadError (Option String) :=
  if content.isEmpty || looksBinary content then .ok none
  else
    match String.fromUTF8? content with
    | some text => .ok (some (withoutMark text))
    | none => .error .notUtf8

/-- The text of what stands in a file (`read_source`). -/
def read : Stored → Except ReadError (Option String)
  | .bytes content => decode content
  | .unreadable reason => .error (.system reason)

end Source

/-- What an analysis finds in a file (`FileOutcome`). -/
structure FileResult (β : Type) where
  relative : String
  result : Except ReadError β

/-- The outcomes of an analysis of some files, in their order (`analyze_files`).  Files with nothing to
analyse have none, and once the analysis is cancelled no file has. -/
def FoundFile.analyze {β : Type} (files : List (FoundFile Stored)) (cancelled : Bool)
    (analysis : String → β) : List (FileResult β) :=
  if cancelled then []
  else
    files.filterMap fun file =>
      match Source.read file.content with
      | .ok (some text) => some ⟨file.relative, .ok (analysis text)⟩
      | .ok none => none
      | .error e => some ⟨file.relative, .error e⟩

end SymbolIndex
