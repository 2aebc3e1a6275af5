import SymbolIndex.Kind
import SymbolIndex.Reference

/-!
Definitions of a name, found in the text of a document and not in its model.

Each way to declare a name is a pattern that begins where a line begins.  Such a pattern may run
over several lines, as the parameters of a function do; the search goes on with the first line that
begins after the match.  All functions come first, then variables and constants, then, for a name
that begins with a capital, classes; a place found once is not reported again.
-/

namespace SymbolIndex

/-- A place where a name is declared. -/
structure Definition where
  kind : Kind
  span : Span
  deriving DecidableEq, Repr

namespace Definition

/-- A way to declare a name, as what comes before the name on its line and what follows it. -/
structure Form where
  kind : Kind
  lead : Pattern
  /-- The ways to go on; the first that matches counts. -/
  tails : List Pattern

/-- Possibly empty blanks within a line. -/
def gaps : Piece := .run Text.isGap

/-- One or more blanks within a line. -/
def someGaps : Piece := .some1 Text.isGap

/-- The parameters of a function, which may run over several lines. -/
def parameters : Pattern := [.blanks, .literal ['('], .run (· != ')'), .literal [')'], .blanks]

/-- The result type of a function, which has to be one word. -/
def resultWord : Pattern := [.literal [':'], .blanks, .some1 Text.isWordChar, .blanks]

/-- What an expression follows. -/
def arrow : Piece := .literal ['=', '>']

/-- What opens a block. -/
def brace : Piece := .literal ['\x7b']

/-- The ways to declare a function: without and with a result type, each with an expression or a
block. -/
def functionForms : List Form :=
  [{ kind := .function, lead := [gaps], tails := [parameters ++ [arrow]] },
    { kind := .function, lead := [gaps], tails := [parameters ++ [brace]] },
    { kind := .function, lead := [gaps], tails := [parameters ++ resultWord ++ [brace]] },
    { kind := .function, lead := [gaps], tails := [parameters ++ resultWord ++ [arrow]] }]

/-- The word that declares variables. -/
def letWord : Piece := .literal ['l', 'e', 't']

/-- The word that declares a constant. -/
def constWord : Piece := .literal ['c', 'o', 'n', 's', 't']

/-- The ways to declare a variable, alone or as the first or the second of two, and a constant. -/
def valueForms : List Form :=
  [{ kind := .binding
     lead := [gaps, letWord, someGaps]
     tails := [[gaps, .literal ['=']], [gaps, .literal [',']]] },
    { kind := .constant, lead := [gaps, constWord, someGaps], tails := [[gaps, .literal ['=']]] },
    { kind := .binding
      lead := [gaps, letWord, someGaps, .some1 Text.isWordChar, gaps, .literal [','], gaps]
      tails := [[gaps, .literal ['=']]] },
    { kind := .binding
      lead := [gaps, letWord, someGaps]
      tails := [[gaps, .literal [','], gaps, .some1 Text.isWordChar, gaps, .literal ['=']]] }]

/-- The way to declare a class or an interface. -/
def containerForm : Form :=
  { kind := .classType
    lead := [gaps]
    tails :=
      [[gaps, brace], [gaps, .literal [':'], .run (fun c => c != '\x7b' && c != '\n'), brace]] }

/-- The forms in which a name may be declared. -/
def formsFor (name : List Char) : List Form :=
  functionForms ++ valueForms ++
    (if (name.head?.map Text.isCapital).getD false then [containerForm] else [])

/-- A match of a form: the column of the name, and the number of line breaks that the match runs
over. -/
structure Match where
  column : Nat
  breaks : Nat

/-- Matches a form against the text that a line begins. -/
def Form.match? (form : Form) (name onward : List Char) : Option Match :=
  match Pattern.take? form.lead onward with
  | none => none
  | some (lead, rest) =>
    match Text.afterPrefix? name rest with
    | none => none
    | some rest =>
      form.tails.findSome? fun tail =>
        (Pattern.take? tail rest).map fun (texts, _) =>
          { column := Pattern.width lead, breaks := texts.flatten.count '\n' }

/-- The matches of a form in some lines, the first `skipped` of which belong to an earlier match. -/
def Form.matchesIn (form : Form) (name : List Char) : (skipped : Nat) → List Line → List Span
  | _, [] => []
  | skipped + 1, _ :: later => matchesIn form name skipped later
  | 0, l :: later =>
    match form.match? name l.onward with
    | none => matchesIn form name 0 later
    | some m =>
      Span.onLine l.number m.column (m.column + name.length)
        :: matchesIn form name m.breaks later

/-- Some definitions and those of further places that none of them has (`push_matches`). -/
def addNew (found : List Definition) (kind : Kind) (spans : List Span) : List Definition :=
  spans.foldl
    (fun found span =>
      if found.any (·.span == span) then found else found ++ [⟨kind, span⟩])
    found

end Definition

namespace Document

/-- The definitions of a name (`resolve_definition`).  What is not a word has none. -/
def definitions (d : Document) (name : List Char) : List Definition :=
  if isWord name then
    let lines := d.lines
    (Definition.formsFor name).foldl
      (fun found form => Definition.addNew found form.kind (form.matchesIn name 0 lines)) []
  else []

/-- The definitions of the word under a position. -/
def definitionsAt (d : Document) (p : Position) : List Definition :=
  match d.wordAt? p with
  | some (name, _) => d.definitions name
  | none => []

end Document

end SymbolIndex
