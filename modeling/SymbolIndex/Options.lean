import SymbolIndex.Position
import SymbolIndex.Text.Basic
import SymbolIndex.Text.Number

/-!
The options of a run, as a command line gives them.

Arguments are read from left to right.  An option that takes a value takes the next argument,
whatever that looks like.  Globs and exclusions add up, and of any other option with a value the
last counts. Asking for help or for the version ends the reading.  That at most one mode is asked
for, and that declarations are dropped from references only, is checked once all arguments are
read.
-/

namespace SymbolIndex

/-- What is looked up: a name, or the word at a position. -/
inductive Query where
  | name (text : String)
  | position (p : Position)
  deriving DecidableEq, Repr

/-- What a run reports. -/
inductive Mode where
  | outline
  | check
  | definition (query : Query)
  | references (query : Query)
  deriving DecidableEq, Repr

/-- Whether the mode looks up references. -/
def Mode.isReferences : Mode → Bool
  | references _ => true
  | _ => false

/-- The formats of a report. -/
inductive Format where
  | yaml
  | json
  deriving DecidableEq, Repr

/-- The settings of a run (`CliArgs`). -/
structure Options where
  /-- The directory that is searched. -/
  root : String
  globs : List String
  mode : Mode
  keepDeclarations : Bool
  format : Format
  /-- Seconds. -/
  timeout : Option Nat
  excludes : List String
  withoutUsual : Bool
  deriving DecidableEq, Repr

/-- What a command line asks for (`CliAction`). -/
inductive Command where
  | run (options : Options)
  | help
  | version
  deriving DecidableEq, Repr

/-- The options that there are. -/
inductive Flag where
  | root
  | glob
  | outline
  | check
  | definition
  | references
  | noDeclaration
  | format
  | timeout
  | exclude
  | withoutUsual
  | help
  | version
  deriving DecidableEq, Repr

namespace Flag

/-- Every way to write an option, the usual one first. -/
def spellings : Flag → List String
  | root => ["--root", "-d"]
  | glob => ["--glob", "--r", "-g"]
  | outline => ["--outline"]
  | check => ["--check"]
  | definition => ["--def"]
  | references => ["--refs"]
  | noDeclaration => ["--no-declaration"]
  | format => ["--format"]
  | timeout => ["--timeout"]
  | exclude => ["--exclude"]
  | withoutUsual => ["--no-defaults"]
  | help => ["--help", "-h", "-?"]
  | version => ["--version", "-V"]

/-- The usual way to write an option. -/
def usual (flag : Flag) : String := flag.spellings.headD ""

/-- Every option. -/
def all : List Flag :=
  [root, glob, outline, check, definition, references, noDeclaration, format, timeout, exclude,
    withoutUsual, help, version]

/-- The option that an argument writes. -/
def ofString? (text : String) : Option Flag := all.find? (·.spellings.contains text)

end Flag

/-- Why a command line is refused. -/
inductive UsageError where
  | missingValue (flag : Flag)
  | invalidPosition (flag : Flag) (text : String)
  | invalidFormat (text : String)
  | invalidTimeout (text : String)
  | unknownOption (text : String)
  /-- More than one mode is asked for. -/
  | exclusive (flags : List Flag)
  /-- Declarations are to be dropped, but not from references. -/
  | noReferences
  deriving DecidableEq, Repr

namespace UsageError

/-- The text that says why a command line is refused. -/
def message : UsageError → String
  | missingValue flag => "Missing value for " ++ flag.usual
  | invalidPosition flag text =>
    "Invalid position for " ++ flag.usual ++ ": '" ++ text
      ++ "'. Expected <line>:<col>, both starting at 1."
  | invalidFormat text => "Invalid value for --format: '" ++ text ++ "'. Use 'yaml' or 'json'."
  | invalidTimeout text => "Invalid integer for --timeout: " ++ text
  | unknownOption text =>
    "Unknown option: " ++ text ++ "\nRun 'liva-index --help' for usage information."
  | exclusive flags =>
    " and ".intercalate (flags.map Flag.usual) ++ " are mutually exclusive and cannot be combined."
  | noReferences => "--no-declaration only applies to --refs"

end UsageError

namespace Query

/-- A line or a column counted from one, as it is counted from zero (`parse_one_based`). -/
def coordinate? (text : List Char) : Option Nat :=
  (Text.number? text).bind fun n => if n = 0 then none else some (n - 1)

/-- Reads a query: with a colon in it a position, else a name. -/
def parse (flag : Flag) (text : String) : Except UsageError Query :=
  let line := text.toList.takeWhile (· != ':')
  match text.toList.dropWhile (· != ':') with
  | [] => .ok (.name text)
  | _ :: column =>
    match coordinate? line, coordinate? column with
    | some line, some column => .ok (.position ⟨line, column⟩)
    | _, _ => .error (.invalidPosition flag text)

end Query

namespace Options

/-- What the arguments read so far say. -/
structure Draft where
  root : Option String := none
  globs : List String := []
  modes : List (Flag × Mode) := []
  keepDeclarations : Bool := true
  format : Format := .yaml
  timeout : Option Nat := none
  excludes : List String := []
  withoutUsual : Bool := false

/-- How an option acts: by itself, through the value after it, or by ending the reading. -/
inductive Action where
  | alone (act : Draft → Draft)
  | valued (act : String → Draft → Except UsageError Draft)
  | final (command : Command)

/-- Reads the name of a format. -/
def readFormat (text : String) : Except UsageError Format :=
  if text = "yaml" then .ok .yaml
  else if text = "json" then .ok .json
  else .error (.invalidFormat text)

/-- Reads a number of seconds. -/
def readTimeout (text : String) : Except UsageError Nat :=
  match Text.number? text.toList with
  | some seconds => .ok seconds
  | none => .error (.invalidTimeout text)

namespace Draft

/-- The draft with one more mode asked for. -/
def addMode (flag : Flag) (mode : Mode) (d : Draft) : Draft :=
  { d with modes := d.modes ++ [(flag, mode)] }

end Draft

/-- What an option does. -/
def action (flag : Flag) : Action :=
  match flag with
  | .root => .valued fun text d => .ok { d with root := some text }
  | .glob => .valued fun text d => .ok { d with globs := d.globs ++ [text] }
  | .outline => .alone (Draft.addMode flag .outline)
  | .check => .alone (Draft.addMode flag .check)
  | .definition =>
    .valued fun text d =>
      (Query.parse flag text).map fun query => d.addMode flag (.definition query)
  | .references =>
    .valued fun text d =>
      (Query.parse flag text).map fun query => d.addMode flag (.references query)
  | .noDeclaration => .alone fun d => { d with keepDeclarations := false }
  | .format => .valued fun text d => (readFormat text).map fun format => { d with format }
  | .timeout =>
    .valued fun text d => (readTimeout text).map fun seconds => { d with timeout := some seconds }
  | .exclude => .valued fun text d => .ok { d with excludes := d.excludes ++ [text] }
  | .withoutUsual => .alone fun d => { d with withoutUsual := true }
  | .help => .final .help
  | .version => .final .version

/-- The pattern that selects files if no other is given. -/
def defaultGlob : String := "*.liva"

/-- The options that all arguments say together. -/
def Draft.finish (currentDirectory : String) (d : Draft) : Except UsageError Options :=
  if d.modes.length > 1 then .error (.exclusive (d.modes.map Prod.fst))
  else
    let mode := ((d.modes.head?).map Prod.snd).getD .outline
    if !d.keepDeclarations && !mode.isReferences then .error .noReferences
    else
      .ok {
        root := d.root.getD currentDirectory
        globs := if d.globs.isEmpty then [defaultGlob] else d.globs
        mode
        keepDeclarations := d.keepDeclarations
        format := d.format
        timeout := d.timeout
        excludes := d.excludes
        withoutUsual := d.withoutUsual }

/-- Reads arguments on top of what earlier ones said. -/
def parseFrom (currentDirectory : String) (d : Draft) : List String → Except UsageError Command
  | [] => (d.finish currentDirectory).map .run
  | argument :: later =>
    match Flag.ofString? argument with
    | none => .error (.unknownOption argument)
    | some flag =>
      match action flag with
      | .final command => .ok command
      | .alone act => parseFrom currentDirectory (act d) later
      | .valued act =>
        match later with
        | [] => .error (.missingValue flag)
        | value :: later =>
          match act value d with
          | .error e => .error e
          | .ok d => parseFrom currentDirectory d later

/-- Reads a command line (`parse_args`). -/
def parse (currentDirectory : String) (arguments : List String) : Except UsageError Command :=
  parseFrom currentDirectory {} arguments

end Options

end SymbolIndex
