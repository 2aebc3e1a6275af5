import SymbolIndex.Proofs.PlainLines
import SymbolIndex.Proofs.ReadBack

/-! Written documents are read as what they were written from. What the lines of a declaration do is put
together from what each line does, with a claim about the reading before and behind every line;
blank lines and comments keep every such claim, so they may stand anywhere. -/
namespace SymbolIndex

/-- The same member, wherever it stands. -/
def Member.unplaced : Member → Member := Member.mapSites fun _ => Writing.nowhere

/-- The same symbol, wherever it stands. -/
def Symbol.unplaced : Symbol → Symbol := Symbol.mapSites fun _ => Writing.nowhere

namespace Writing

section Spreading

theorem spread_append {a b lines : List (List Char)} (spread : Spread (a ++ b) lines) :
    ∃ first second, lines = first ++ second ∧ Spread a first ∧ Spread b second := by
  generalize whole : a ++ b = texts at spread
  induction spread generalizing a with
  | nil =>
    obtain ⟨rfl, rfl⟩ := List.append_eq_nil_iff.mp whole
    exact ⟨[], [], rfl, .nil, .nil⟩
  | filler line empty rest ih =>
    obtain ⟨first, second, rfl, upper, lower⟩ := ih whole
    exact ⟨line :: first, second, rfl, .filler line empty upper, lower⟩
  | line line rest ih =>
    cases a with
    | nil =>
      refine ⟨[], _, rfl, .nil, ?_⟩
      rw [List.nil_append] at whole
      exact whole ▸ .line line rest
    | cons text a =>
      obtain ⟨rfl, later⟩ := List.cons.inj whole
      obtain ⟨first, second, rfl, upper, lower⟩ := ih later
      exact ⟨line :: first, second, rfl, .line line upper, lower⟩

/-- The lines of a document that show the given lines, wherever they stand. -/
def Shows (lines : List Line) (raws : List (List Char)) : Prop :=
  lines.map Line.content = raws.map Document.chomp

/-- A line of a document that is silent about constructors, if it has to be. -/
def Permits (silent : Bool) (l : Line) : Prop :=
  '\n' ∉ l.trimmed ∧ (silent = true → Container.mentions l = false)

/-- A blank line or a comment takes nothing from a claim about the reading, and completes nothing. -/
def Stays (silent : Bool) (claim : Reading → Prop) : Prop :=
  ∀ r l, claim r → Permits silent l → Filler l.trimmed → claim (r.step l).1 ∧ (r.step l).2 = none

/-- From a reading of which the first claim holds, lines that are written as the texts complete these
symbols and leave a reading of which the second claim holds. -/
def Reads (silent : Bool) (before : Reading → Prop) (texts : List (List Char))
    (declared : List Symbol) (behind : Reading → Prop) : Prop :=
  ∀ raws lines r, Spread texts raws → Shows lines raws → (∀ l ∈ lines, Permits silent l) → before r →
    behind (r.after lines) ∧ (r.symbols lines).map Symbol.unplaced = declared

variable {silent : Bool} {P Q R : Reading → Prop}

private theorem trimmed_of_content {l : Line} {raw : List Char}
    (content : l.content = Document.chomp raw) : l.trimmed = Text.trim raw := by
  rw [Line.trimmed, content, Text.trim_chomp]

private theorem filler_trimmed {l : Line} {raw : List Char}
    (content : l.content = Document.chomp raw) (filler : Filler raw) : Filler l.trimmed := by
  have again : Text.trim l.trimmed = Text.trim raw := by
    rw [trimmed_of_content content, Text.trim_trim]
  rwa [Filler, again]

theorem Reads.nil (stays : Stays silent P) : Reads silent P [] [] P := by
  intro raws lines r spread shows permits holds
  generalize whole : ([] : List (List Char)) = texts at spread
  induction spread generalizing lines r with
  | nil =>
    obtain rfl := List.map_eq_nil_iff.mp shows
    exact ⟨holds, rfl⟩
  | filler raw empty rest ih =>
    obtain ⟨l, later, rfl, content, shows⟩ := List.map_eq_cons_iff.mp shows
    obtain ⟨here, others⟩ := List.forall_mem_cons.mp permits
    obtain ⟨next, completes⟩ := stays r l holds here (filler_trimmed content empty)
    rw [Reading.after_cons, Reading.symbols_cons, completes]
    exact ih later _ shows others next whole
  | line => cases whole

theorem Reads.cons {text : List Char} {texts : List (List Char)} {s : Option Symbol}
    {declared : List Symbol} (stays : Stays silent P)
    (line : ∀ r l, P r → Permits silent l → l.trimmed = text →
      Q (r.step l).1 ∧ (r.step l).2.map Symbol.unplaced = s)
    (rest : Reads silent Q texts declared R) :
    Reads silent P (text :: texts) (s.toList ++ declared) R := by
  intro raws lines r spread shows permits holds
  generalize whole : text :: texts = all at spread
  induction spread generalizing lines r with
  | nil => cases whole
  | filler raw empty _ ih =>
    obtain ⟨l, later, rfl, content, shows⟩ := List.map_eq_cons_iff.mp shows
    obtain ⟨here, others⟩ := List.forall_mem_cons.mp permits
    obtain ⟨next, completes⟩ := stays r l holds here (filler_trimmed content empty)
    rw [Reading.after_cons, Reading.symbols_cons, completes]
    exact ih later _ shows others next whole
  | line raw spread ih =>
    obtain ⟨l, later, rfl, content, shows⟩ := List.map_eq_cons_iff.mp shows
    obtain ⟨here, others⟩ := List.forall_mem_cons.mp permits
    obtain ⟨rfl, rfl⟩ := List.cons.inj whole
    obtain ⟨next, completes⟩ := line r l holds here (trimmed_of_content content)
    obtain ⟨behind, same⟩ := rest _ later _ spread shows others next
    refine ⟨behind, ?_⟩
    rw [Reading.symbols_cons, List.map_append, same, ← completes]
    cases (r.step l).2 <;> rfl

theorem Reads.append {a b : List (List Char)} {x y : List Symbol} (first : Reads silent P a x Q)
    (second : Reads silent Q b y R) : Reads silent P (a ++ b) (x ++ y) R := by
  intro raws lines r spread shows permits holds
  obtain ⟨upper, lower, rfl, above, below⟩ := spread_append spread
  obtain ⟨lines₁, lines₂, rfl, shows₁, shows₂⟩ :=
    List.map_eq_append_iff.mp (shows.trans List.map_append)
  obtain ⟨permits₁, permits₂⟩ := List.forall_mem_append.mp permits
  obtain ⟨between, same₁⟩ := first upper lines₁ r above shows₁ permits₁ holds
  obtain ⟨behind, same₂⟩ := second lower lines₂ _ below shows₂ permits₂ between
  rw [Reading.after_append, Reading.symbols_append, List.map_append, same₁, same₂]
  exact ⟨behind, rfl⟩

end Spreading

section Steps

private theorem step_of_read {r : Reading} {l : Line} {comment : Bool} (some : l.trimmed ≠ [])
    (reads : Comment.read r.inComment l.trimmed = ⟨comment, r.inComment⟩) :
    r.step l = if comment then (r.note l, none) else (r.note l).codeStep l := by
  have noted : Comment.read (r.note l).inComment l.trimmed = ⟨comment, r.inComment⟩ := reads
  have nonempty : l.trimmed.isEmpty = false := List.isEmpty_eq_false_iff.mpr some
  rw [Reading.step]
  simp only [nonempty, noted]
  rfl

theorem step_of_filler {r : Reading} {l : Line} (outside : r.inComment = false)
    (filler : Filler l.trimmed) : r.step l = (r.note l, none) := by
  have trimmed : Text.trim l.trimmed = l.trimmed := Text.trim_trim l.content
  rw [Filler, trimmed] at filler
  obtain empty | comment := filler
  · simp [Reading.step, empty]
  · obtain ⟨rest, whole⟩ := Text.exists_of_startsWith comment
    have reads : Comment.read r.inComment l.trimmed = ⟨true, r.inComment⟩ := by
      rw [outside, whole]
      rfl
    exact step_of_read (by simp [whole, Comment.lineMark]) reads

/-- The texts of code begin neither with a comment nor with a blank. -/
def StartsAsCode (text : List Char) : Prop := ∃ c rest, text = c :: rest ∧ c ≠ '/'

theorem step_of_code {r : Reading} {l : Line} (outside : r.inComment = false)
    (code : StartsAsCode l.trimmed) : r.step l = (r.note l).codeStep l := by
  obtain ⟨c, rest, whole, noSlash⟩ := code
  have reads : Comment.read r.inComment l.trimmed = ⟨false, r.inComment⟩ := by
    rw [outside, whole]
    simp [Comment.read, Comment.openMark, Comment.lineMark, Text.startsWith, Text.afterPrefix?,
      Ne.symm noSlash]
  exact step_of_read (by simp [whole]) reads

end Steps

section Bodies

theorem Enclosed.pos {depth : Int} {lines : List (List Char)} (enclosed : Enclosed depth lines) :
    1 ≤ depth := by
  cases lines with
  | nil => exact Int.le_of_eq enclosed.symm
  | cons line later => exact enclosed.1

/-- If a claim that counts the depth is kept up by every line inside a block, the lines of a body
complete nothing and bring it back to where the block opened. -/
theorem reads_enclosed {silent : Bool} (claim : Int → Reading → Prop)
    (stays : ∀ depth, Stays silent (claim depth))
    (line : ∀ depth r l, claim depth r → Permits silent l → 1 ≤ depth →
      1 ≤ depth + braceBalance l.trimmed → Text.startsWith Comment.openMark l.trimmed = false →
      claim (depth + braceBalance l.trimmed) (r.step l).1 ∧ (r.step l).2 = none)
    {lines : List (List Char)} {depth : Int} (enclosed : Enclosed depth lines)
    (unopened : ∀ line ∈ lines, Text.startsWith Comment.openMark line = false) :
    Reads silent (claim depth) lines [] (claim 1) := by
  induction lines generalizing depth with
  | nil =>
    obtain rfl : depth = 1 := enclosed
    exact .nil (stays 1)
  | cons text later ih =>
    obtain ⟨here, others⟩ := List.forall_mem_cons.mp unopened
    obtain ⟨above, rest⟩ := enclosed
    refine Reads.cons (s := none) (stays depth) ?_ (ih rest others)
    rintro r l holds permits rfl
    obtain ⟨next, completes⟩ := line depth r l holds permits above rest.pos here
    exact ⟨next, by rw [completes]; rfl⟩

end Bodies

section TopLevel

/-- Outside containers, at a depth. -/
def AtDepth (depth : Int) (r : Reading) : Prop := r = { Reading.start with depth }

theorem AtDepth.free {depth : Int} {r : Reading} (place : AtDepth depth r) : r.container = none := by
  rw [place]
  rfl

theorem stays_atDepth (silent : Bool) (depth : Int) : Stays silent (AtDepth depth) := by
  intro r l place _ filler
  have free := place.free
  rw [step_of_filler (place ▸ rfl) filler, Reading.note_of_free free]
  exact ⟨place, rfl⟩

/-- Inside the body of a function nothing is declared. -/
theorem atDepth_line {silent : Bool} {depth : Int} {r : Reading} {l : Line}
    (place : AtDepth depth r) (permits : Permits silent l) (above : 1 ≤ depth)
    (stays : 1 ≤ depth + braceBalance l.trimmed)
    (unopened : Text.startsWith Comment.openMark l.trimmed = false) :
    AtDepth (depth + braceBalance l.trimmed) (r.step l).1 ∧ (r.step l).2 = none := by
  have outside : r.inComment = false := place ▸ rfl
  have free : r.container = none := place.free
  have level : r.depth = depth := place ▸ rfl
  have leaves := Reading.commented_of_unopened outside unopened
  generalize next : r.step l = result
  cases next ▸ Reading.step_outcome r l with
  | blank empty =>
    have zero : braceBalance l.trimmed = 0 := by rw [empty]; rfl
    rw [zero, Int.add_zero, Reading.note_of_free free]
    exact ⟨place, rfl⟩
  | comment is =>
    rw [outside, Comment.read_of_unopened unopened] at is
    rw [braceBalance_of_comment permits.1 is, Int.add_zero, Reading.note_of_free free, leaves]
    exact ⟨place, rfl⟩
  | nested =>
    rw [leaves, level, Int.max_eq_right (by omega)]
    exact ⟨by rw [place]; rfl, rfl⟩
  | declared _ _ top | opened _ _ top | whole _ _ top => omega
  | grown _ _ inside | closed _ _ inside => exact absurd (free.symm.trans inside) (by simp)

/-- The closing brace of a function's body. -/
theorem atDepth_closing {r : Reading} {l : Line} (place : AtDepth 1 r) (text : l.trimmed = ['\x7d']) :
    AtDepth 0 (r.step l).1 ∧ (r.step l).2 = none := by
  have outside : r.inComment = false := place ▸ rfl
  have code : StartsAsCode l.trimmed := text ▸ ⟨'\x7d', [], rfl, by decide⟩
  have closes : braceBalance l.trimmed = -1 := by rw [text]; rfl
  rw [step_of_code outside code, Reading.note_of_free place.free, place]
  simp [Reading.codeStep, Reading.topStep, Reading.start, closes, AtDepth]

/-- A line at the top level that declares a symbol. -/
theorem top_line {r : Reading} {l : Line} {s : Symbol} (place : AtDepth 0 r)
    (code : StartsAsCode l.trimmed) (headless : Shape.containerHead? l.trimmed = none)
    (declares : Reading.topLevel? l = some s) :
    AtDepth (max 0 (braceBalance l.trimmed)) (r.step l).1 ∧ (r.step l).2 = some s := by
  have outside : r.inComment = false := place ▸ rfl
  rw [step_of_code outside code, Reading.note_of_free place.free, place]
  simp [Reading.codeStep, Reading.topStep, Reading.start, headless, declares, AtDepth]

theorem topLevel?_callable {l : Line} {c : Shape.Callable} (reads : Shape.callable? l.trimmed = some c)
    (noConstructor : c.name ≠ Shape.constructorName) :
    ∃ s, Reading.topLevel? l = some s ∧
      s.unplaced = ⟨c.name, nowhere, .function c.signature⟩ := by
  simp only [Reading.topLevel?, Shape.topLine?, reads, if_neg noConstructor]
  exact ⟨_, rfl, rfl⟩

theorem topLevel?_constant {l : Line} {c : Shape.Constant} (noCall : Shape.callable? l.trimmed = none)
    (reads : Shape.constant? l.trimmed = some c) :
    ∃ s, Reading.topLevel? l = some s ∧ s.unplaced = ⟨c.name, nowhere, .constant c.value⟩ := by
  simp only [Reading.topLevel?, Shape.topLine?, noCall, reads]
  exact ⟨_, rfl, rfl⟩

theorem startsAsCode_name {name : List Char} (fits : Piece.name.Fits name) (rest : List Char) :
    StartsAsCode (name ++ rest) := by
  obtain ⟨c, later, rfl, noSlash, -⟩ := ne_of_name fits
  exact ⟨c, later ++ rest, rfl, noSlash⟩

theorem reads_constant (name : ConstantName) (value : Expression) :
    Reads false (AtDepth 0) (Declaration.constant name value).lines
      [(Declaration.constant name value).symbol] (AtDepth 0) := by
  refine Reads.cons (s := some (Declaration.constant name value).symbol) (stays_atDepth false 0) ?_
    (.nil (stays_atDepth false 0))
  intro r l place permits text
  have oneLine : '\n' ∉ value.text := fun member => permits.1 (by simp [text, member])
  obtain ⟨noCall, headless⟩ := constant_refused name (' ' :: '=' :: ' ' :: value.text)
  obtain ⟨column, reads⟩ := constant?_written name value oneLine
  obtain ⟨s, declares, same⟩ := topLevel?_constant (text ▸ noCall) (text ▸ reads)
  have code : StartsAsCode l.trimmed := text ▸ ⟨'c', _, rfl, by decide⟩
  obtain ⟨next, completes⟩ := top_line place code (text ▸ headless) declares
  rw [text, braceBalance_constant, Int.max_eq_left value.closed] at next
  exact ⟨next, by rw [completes]; exact congrArg some same⟩

/-- A heading with whatever makes it a callable declares a function. -/
theorem top_callable {r : Reading} {l : Line} {heading : Heading} {rest : List Char}
    {body : Shape.Body} (place : AtDepth 0 r) (text : l.trimmed = heading.text ++ rest)
    (reads : Shape.callable? (heading.text ++ rest) =
      some ⟨String.ofList heading.name.text, heading.signature, body⟩) :
    AtDepth (max 0 (braceBalance (heading.text ++ rest))) (r.step l).1 ∧
      (r.step l).2.map Symbol.unplaced =
        some ⟨String.ofList heading.name.text, nowhere, .function heading.signature⟩ := by
  have fits := heading.name.fits
  have headless : Shape.containerHead? (heading.text ++ rest) = none := by
    rw [Heading.text, callText, List.append_assoc]
    exact containerHead?_call fits _
  have code : StartsAsCode (heading.text ++ rest) := by
    rw [Heading.text, callText, List.append_assoc]
    exact startsAsCode_name fits _
  obtain ⟨s, declares, same⟩ := topLevel?_callable (text ▸ reads) heading.name.noConstructor
  obtain ⟨next, completes⟩ := top_line place (text ▸ code) (text ▸ headless) declares
  exact ⟨text ▸ next, by rw [completes]; exact congrArg some same⟩

theorem reads_short (heading : Heading) (body : Expression) :
    Reads false (AtDepth 0) (Declaration.short heading body).lines
      [(Declaration.short heading body).symbol] (AtDepth 0) := by
  refine Reads.cons (s := some (Declaration.short heading body).symbol) (stays_atDepth false 0) ?_
    (.nil (stays_atDepth false 0))
  intro r l place _ text
  have balance : braceBalance (heading.text ++ shortText body) = braceBalance body.text :=
    braceBalance_short heading.name.fits heading.parameters heading.result body
  obtain ⟨next, completes⟩ := top_callable place text
    (callable?_short heading.name.fits heading.name.noControl heading.parameters heading.result body)
  rw [balance, Int.max_eq_left body.closed] at next
  exact ⟨next, completes⟩

theorem reads_long (heading : Heading) (body : Block) :
    Reads false (AtDepth 0) (Declaration.long heading body).lines
      [(Declaration.long heading body).symbol] (AtDepth 0) := by
  have fits := heading.name.fits
  have inside : Reads false (AtDepth 1) body.lines [] (AtDepth 1) :=
    reads_enclosed AtDepth (stays_atDepth false)
      (fun _ _ _ place permits above stays unopened => atDepth_line place permits above stays unopened)
      body.enclosed body.unopened
  have closing : Reads false (AtDepth 1) [['\x7d']] [] (AtDepth 0) := by
    refine Reads.cons (s := none) (stays_atDepth false 1) ?_ (.nil (stays_atDepth false 0))
    intro r l place _ text
    obtain ⟨next, completes⟩ := atDepth_closing place text
    exact ⟨next, by rw [completes]; rfl⟩
  refine Reads.cons (s := some (Declaration.long heading body).symbol) (Q := AtDepth 1)
    (stays_atDepth false 0) ?_ (inside.append closing)
  intro r l place _ text
  have balance : braceBalance (heading.text ++ [' ', '\x7b']) = 1 :=
    braceBalance_head (inert_callText fits heading.parameters heading.result)
  obtain ⟨column, reads⟩ :=
    callable?_long fits heading.name.noControl heading.parameters heading.result
  obtain ⟨next, completes⟩ := top_callable place text reads
  rw [balance] at next
  exact ⟨next, completes⟩

end TopLevel

section Containers

/-- What has been read of a container: its head, its depth and its members so far. -/
structure Gathers (silent : Bool) (name : String) (implements : Option (List String))
    (signatures members : List Member) (depth : Int) (b : Container) : Prop where
  name : b.name = name
  implements : b.implements = implements
  depth : b.depth = depth
  mentions : silent = true → b.mentionsConstructor = false
  hasBody : b.hasBody = !members.isEmpty
  inParameters : b.inParameters = false
  signatures : b.signatures.toList.map Member.unplaced = signatures
  members : b.members.toList.map Member.unplaced = members

variable {silent : Bool} {name : String} {implements : Option (List String)}
  {signatures members : List Member} {depth : Int} {b : Container} {r : Reading} {l : Line}

/-- Inside a container of which so much has been read. -/
def Inside (silent : Bool) (name : String) (implements : Option (List String))
    (signatures members : List Member) (depth : Int) (r : Reading) : Prop :=
  ∃ b, r = { Reading.start with container := some b } ∧
    Gathers silent name implements signatures members depth b

theorem Gathers.noting (gathers : Gathers silent name implements signatures members depth b)
    (permits : Permits silent l) :
    Gathers silent name implements signatures members depth (b.noting l) :=
  { gathers with
    mentions := fun quiet => by
      simp [Container.noting, gathers.mentions quiet, permits.2 quiet] }

theorem stays_inside : Stays silent (Inside silent name implements signatures members depth) := by
  rintro r l ⟨b, rfl, gathers⟩ permits filler
  rw [step_of_filler rfl filler]
  exact ⟨⟨b.noting l, rfl, gathers.noting permits⟩, rfl⟩

/-- A line deeper than the members is only noted. -/
theorem inside_line (inside : Inside silent name implements signatures members (1 + depth) r)
    (permits : Permits silent l) (above : 1 ≤ depth) (stays : 0 ≤ depth + braceBalance l.trimmed)
    (unopened : Text.startsWith Comment.openMark l.trimmed = false) :
    Inside silent name implements signatures members (1 + (depth + braceBalance l.trimmed))
      (r.step l).1 ∧ (r.step l).2 = none := by
  obtain ⟨b, rfl, gathers⟩ := inside
  have noted := gathers.noting permits
  have deep : ¬ (b.noting l).depth = 1 := by
    rw [noted.depth]
    omega
  have grows : b.grown l = { b.noting l with depth := b.depth + braceBalance l.trimmed } := by
    rw [Container.grown, if_neg deep]
  have level := gathers.depth
  generalize before : ({ Reading.start with container := some b } : Reading) = r
  have outside : r.inComment = false := before ▸ rfl
  have leaves (r : Reading) (outside : r.inComment = false) : r.commented l = r :=
    Reading.commented_of_unopened outside unopened
  generalize next : r.step l = result
  cases next ▸ Reading.step_outcome r l with
  | blank empty =>
    have zero : braceBalance l.trimmed = 0 := by rw [empty]; rfl
    rw [zero, Int.add_zero, ← before]
    exact ⟨⟨b.noting l, rfl, noted⟩, rfl⟩
  | comment is =>
    rw [outside, Comment.read_of_unopened unopened] at is
    rw [braceBalance_of_comment permits.1 is, Int.add_zero, leaves (r.note l) outside, ← before]
    exact ⟨⟨b.noting l, rfl, noted⟩, rfl⟩
  | nested _ free | declared _ free | opened _ free | whole _ free =>
    rw [← before] at free
    cases free
  | grown _ b' same =>
    rw [← before] at same
    obtain rfl := Option.some.inj same
    rw [leaves r outside, ← before, grows]
    have deeper : b.depth + braceBalance l.trimmed = 1 + (depth + braceBalance l.trimmed) := by omega
    exact ⟨⟨_, rfl, { noted with depth := deeper }⟩, rfl⟩
  | closed _ b' same closes =>
    rw [← before] at same
    obtain rfl := Option.some.inj same
    omega

/-- A line of code directly in a container that does not close it. -/
theorem step_grown (inside : b.depth = 1) (code : StartsAsCode l.trimmed)
    (level : 0 ≤ braceBalance l.trimmed) :
    ({ Reading.start with container := some b } : Reading).step l =
      ({ Reading.start with container := some (b.grown l) }, none) := by
  have positive : ¬ (b.noting l).depth + braceBalance l.trimmed ≤ 0 := by
    rw [show (b.noting l).depth = 1 from inside]
    omega
  rw [step_of_code rfl code]
  show Reading.bodyStep _ (b.noting l) l = _
  rw [Reading.bodyStep, if_neg positive]
  rfl

/-- A line that declares a field or a callable with a body adds it to the members. -/
theorem inside_bodied {m : Member} (inside : Inside silent name implements signatures members 1 r)
    (permits : Permits silent l) (code : StartsAsCode l.trimmed)
    (level : 0 ≤ braceBalance l.trimmed) (declares : Container.declared? l = some (.bodied m)) :
    Inside silent name implements signatures (members ++ [m.unplaced])
      (1 + braceBalance l.trimmed) (r.step l).1 ∧ (r.step l).2 = none := by
  obtain ⟨b, rfl, gathers⟩ := inside
  have noted := gathers.noting permits
  have grows : b.grown l = { b.noting l with
      members := b.members.push m, hasBody := true, depth := b.depth + braceBalance l.trimmed } := by
    have direct : (b.noting l).depth = 1 := noted.depth
    have continues : ¬ (b.noting l).inParameters = true := by simp [noted.inParameters]
    rw [Container.grown, if_pos direct, Container.collect, if_neg continues, declares]
    rfl
  rw [step_grown gathers.depth code level, grows]
  refine ⟨⟨_, rfl, { noted with depth := ?_, hasBody := by simp, members := ?_ }⟩, rfl⟩
  · exact congrArg (· + braceBalance l.trimmed) gathers.depth
  · simp [gathers.members]

/-- A line that declares a method without a body adds it to the signatures. -/
theorem inside_signature {m : Member} (inside : Inside silent name implements signatures members 1 r)
    (permits : Permits silent l) (code : StartsAsCode l.trimmed)
    (level : braceBalance l.trimmed = 0) (declares : Container.declared? l = some (.signature m)) :
    Inside silent name implements (signatures ++ [m.unplaced]) members 1 (r.step l).1 ∧
      (r.step l).2 = none := by
  obtain ⟨b, rfl, gathers⟩ := inside
  have noted := gathers.noting permits
  have grows : b.grown l = { b.noting l with
      signatures := b.signatures.push m, depth := b.depth + braceBalance l.trimmed } := by
    have direct : (b.noting l).depth = 1 := noted.depth
    have continues : ¬ (b.noting l).inParameters = true := by simp [noted.inParameters]
    rw [Container.grown, if_pos direct, Container.collect, if_neg continues, declares]
    rfl
  rw [step_grown gathers.depth code (Int.le_of_eq level.symm), grows]
  refine ⟨⟨_, rfl, { noted with depth := ?_, signatures := ?_ }⟩, rfl⟩
  · exact (congrArg (b.depth + ·) level).trans ((Int.add_zero _).trans gathers.depth)
  · simp [gathers.signatures]

/-- The closing brace of a container completes it. -/
theorem inside_closing (inside : Inside silent name implements signatures members 1 r)
    (permits : Permits silent l) (text : l.trimmed = ['\x7d']) :
    AtDepth 0 (r.step l).1 ∧ ∃ b, (r.step l).2 = some b.close ∧
      Gathers silent name implements signatures members 1 b := by
  obtain ⟨b, rfl, gathers⟩ := inside
  have noted := gathers.noting permits
  have code : StartsAsCode l.trimmed := text ▸ ⟨'\x7d', [], rfl, by decide⟩
  have closes : (b.noting l).depth + braceBalance l.trimmed ≤ 0 := by
    rw [noted.depth, text]
    decide
  have steps : ({ Reading.start with container := some b } : Reading).step l =
      (Reading.start, some (b.noting l).close) := by
    rw [step_of_code rfl code]
    show Reading.bodyStep _ (b.noting l) l = _
    rw [Reading.bodyStep, if_pos closes]
    rfl
  rw [steps]
  exact ⟨rfl, b.noting l, rfl, noted⟩

/-- The head of a container opens it. -/
theorem top_head {head : Shape.Head} (place : AtDepth 0 r) (permits : Permits silent l)
    (code : StartsAsCode l.trimmed) (heads : Shape.containerHead? l.trimmed = some head)
    (opens : braceBalance l.trimmed = 1) :
    Inside silent head.name head.implements [] [] 1 (r.step l).1 ∧ (r.step l).2 = none := by
  have outside : r.inComment = false := place ▸ rfl
  have positive : ¬ (Container.ofHead l head).depth ≤ 0 := by
    show ¬ braceBalance l.trimmed ≤ 0
    omega
  have steps : r.step l =
      ({ Reading.start with container := some (Container.ofHead l head) }, none) := by
    rw [step_of_code outside code, Reading.note_of_free place.free, place]
    simp only [Reading.codeStep, Reading.topStep, Reading.start, heads, ne_eq, not_true_eq_false,
      ↓reduceIte, positive]
  rw [steps]
  exact ⟨⟨_, rfl, {
    name := rfl
    implements := rfl
    depth := opens
    mentions := permits.2
    signatures := rfl
    members := rfl
    hasBody := rfl
    inParameters := rfl }⟩, rfl⟩

end Containers

section Members

variable {silent : Bool} {name : String} {implements : Option (List String)}
  {signatures members : List Member}

/-- A line is read as the callable with a body that it declares. -/
theorem declared?_callable {l : Line} {c : Shape.Callable} (unbodied : Shape.signature? l.trimmed = none)
    (reads : Shape.callable? l.trimmed = some c) :
    ∃ m, Container.declared? l = some (.bodied m) ∧
      m.unplaced = ⟨c.name, nowhere, Container.callableForm c.name c.signature⟩ := by
  simp only [Container.declared?, Shape.memberLine?, unbodied, reads]
  exact ⟨_, rfl, rfl⟩

/-- The lines inside the body of a method complete nothing. -/
theorem reads_body (body : Block) :
    Reads silent (Inside silent name implements signatures members 2) body.lines []
      (Inside silent name implements signatures members 2) :=
  reads_enclosed (fun depth => Inside silent name implements signatures members (1 + depth))
    (fun _ => stays_inside)
    (fun _ _ _ inside permits above stays unopened =>
      inside_line inside permits above (Int.le_trans (by decide) stays) unopened)
    body.enclosed body.unopened

/-- The brace that closes the body of a method leaves the container open. -/
theorem reads_body_closing :
    Reads silent (Inside silent name implements signatures members 2) [['\x7d']] []
      (Inside silent name implements signatures members 1) := by
  refine Reads.cons (s := none) stays_inside ?_ (.nil stays_inside)
  intro r l inside permits text
  have closes : braceBalance l.trimmed = -1 := by rw [text]; rfl
  have opened : Inside silent name implements signatures members (1 + 1) r := inside
  obtain ⟨next, completes⟩ :=
    inside_line opened permits (Int.le_refl 1) (by rw [closes]; decide) (by rw [text]; rfl)
  rw [closes] at next
  exact ⟨next, by rw [completes]; rfl⟩

/-- A line that is the heading of a callable, with what makes it one, adds the callable. -/
theorem inside_callable {r : Reading} {l : Line} {word : List Char} {parameters : Parameters}
    {result : Option TypeName} {rest : List Char} {body : Shape.Body}
    (inside : Inside silent name implements signatures members 1 r) (permits : Permits silent l)
    (text : l.trimmed = callText word parameters result ++ rest) (fits : Piece.name.Fits word)
    (unbodied : Shape.signature? (callText word parameters result ++ rest) = none)
    (reads : Shape.callable? (callText word parameters result ++ rest) =
      some ⟨String.ofList word, signature parameters result, body⟩)
    (level : 0 ≤ braceBalance (callText word parameters result ++ rest)) :
    Inside silent name implements signatures
      (members ++ [⟨String.ofList word, nowhere,
        Container.callableForm (String.ofList word) (signature parameters result)⟩])
      (1 + braceBalance (callText word parameters result ++ rest)) (r.step l).1 ∧
      (r.step l).2.map Symbol.unplaced = none := by
  have code : StartsAsCode (callText word parameters result ++ rest) := by
    rw [callText, List.append_assoc]
    exact startsAsCode_name fits _
  obtain ⟨m, declares, same⟩ := declared?_callable (text ▸ unbodied) (text ▸ reads)
  obtain ⟨next, completes⟩ := inside_bodied inside permits (text ▸ code) (text ▸ level) declares
  rw [same, text] at next
  exact ⟨next, by rw [completes]; rfl⟩

/-- A callable with a block as its body is read with the block. -/
theorem reads_block {word : List Char} {parameters : Parameters} {result : Option TypeName}
    (fits : Piece.name.Fits word)
    (noControl : Shape.opensControlFlow (String.ofList word) = false) {m : Member}
    (is : ⟨String.ofList word, nowhere,
      Container.callableForm (String.ofList word) (signature parameters result)⟩ = m) (body : Block) :
    Reads silent (Inside silent name implements signatures members 1)
      (blockLines (callText word parameters result) body.lines) []
      (Inside silent name implements signatures (members ++ [m]) 1) := by
  have balance : braceBalance (callText word parameters result ++ [' ', '\x7b']) = 1 :=
    braceBalance_head (inert_callText fits parameters result)
  have unbodied : Shape.signature? (callText word parameters result ++ [' ', '\x7b']) = none :=
    Shape.signature?_of_brace (by simp)
  obtain ⟨column, reads⟩ := callable?_long fits noControl parameters result
  refine Reads.cons (s := none) stays_inside ?_ ((reads_body body).append reads_body_closing)
  intro r l inside permits text
  have adds := inside_callable inside permits text fits unbodied reads (by rw [balance]; decide)
  rwa [balance, is] at adds

theorem callableForm_method (heading : Heading) :
    (⟨String.ofList heading.name.text, nowhere,
      Container.callableForm (String.ofList heading.name.text)
        (signature heading.parameters heading.result)⟩ : Member) = heading.method := by
  rw [Container.callableForm, if_neg heading.name.noConstructor]
  rfl

theorem callableForm_constructor (parameters : Parameters) :
    (⟨String.ofList Shape.constructorName.toList, nowhere,
      Container.callableForm (String.ofList Shape.constructorName.toList)
        (signature parameters none)⟩ : Member) =
      ⟨Shape.constructorName, nowhere, .constructor (signature parameters none)⟩ := by
  rw [String.ofList_toList, Container.callableForm, if_pos rfl]

/-- The lines of a member add it to those of the container. -/
theorem reads_member (member : ClassMember) :
    Reads silent (Inside silent name implements signatures members 1) member.lines []
      (Inside silent name implements signatures (members ++ [member.member]) 1) := by
  cases member with
  | field word type =>
    refine Reads.cons (s := none) stays_inside ?_ (.nil stays_inside)
    intro r l inside permits text
    have level : braceBalance l.trimmed = 0 := by rw [text, braceBalance_field]
    obtain ⟨unbodied, noCall, unwrapped⟩ := field_refused word type
    have declares : ∃ m, Container.declared? l = some (.bodied m) ∧
        m.unplaced = (ClassMember.field word type).member := by
      simp only [Container.declared?, Shape.memberLine?, text, unbodied, noCall, unwrapped, field?_written]
      exact ⟨_, rfl, rfl⟩
    obtain ⟨m, declares, same⟩ := declares
    have code : StartsAsCode l.trimmed := text ▸ startsAsCode_name word.fits _
    obtain ⟨next, completes⟩ :=
      inside_bodied inside permits code (Int.le_of_eq level.symm) declares
    rw [same, level] at next
    exact ⟨next, by rw [completes]; rfl⟩
  | constructor parameters body =>
    have fits : Piece.name.Fits Shape.constructorName.toList :=
      ⟨'c', _, rfl, rfl, List.all_eq_true.mp rfl⟩
    have noControl : Shape.opensControlFlow (String.ofList Shape.constructorName.toList) = false := by
      decide +kernel
    exact reads_block fits noControl (callableForm_constructor parameters) body
  | short heading body level =>
    have fits := heading.name.fits
    have balance : braceBalance (callText heading.name.text heading.parameters heading.result ++
        shortText body) = 0 :=
      (braceBalance_short fits heading.parameters heading.result body).trans level
    have unbodied : Shape.signature? (heading.text ++ shortText body) = none :=
      signature?_of_arrow (Text.occursIn_append_right rfl _)
    refine Reads.cons (s := none) stays_inside ?_ (.nil stays_inside)
    intro r l inside permits text
    have adds := inside_callable inside permits text fits unbodied
      (callable?_short fits heading.name.noControl heading.parameters heading.result body)
      (Int.le_of_eq balance.symm)
    rw [callableForm_method, balance] at adds
    exact adds
  | long heading body =>
    exact reads_block heading.name.fits heading.name.noControl (callableForm_method heading) body

theorem reads_members (added : List ClassMember) :
    Reads silent (Inside silent name implements signatures members 1)
      (added.flatMap ClassMember.lines) []
      (Inside silent name implements signatures (members ++ added.map ClassMember.member) 1) := by
  induction added generalizing members with
  | nil =>
    rw [List.map_nil, List.append_nil]
    exact .nil stays_inside
  | cons member added ih =>
    rw [List.flatMap_cons, List.map_cons, List.append_cons]
    exact (reads_member member).append ih

/-- A heading alone on its line adds a method without a body. -/
theorem reads_heading (heading : Heading) :
    Reads silent (Inside silent name implements signatures members 1) [heading.text] []
      (Inside silent name implements (signatures ++ [heading.method]) members 1) := by
  refine Reads.cons (s := none) stays_inside ?_ (.nil stays_inside)
  intro r l inside permits text
  have fits := heading.name.fits
  have level : braceBalance l.trimmed = 0 := by
    rw [text]
    exact braceBalance_inert (inert_callText fits heading.parameters heading.result)
  have declares : ∃ m, Container.declared? l = some (.signature m) ∧ m.unplaced = heading.method := by
    have reads := signature?_heading heading (text ▸ permits.1)
    simp only [Container.declared?, Shape.memberLine?, text, reads]
    exact ⟨_, rfl, rfl⟩
  obtain ⟨m, declares, same⟩ := declares
  have code : StartsAsCode l.trimmed := text ▸ startsAsCode_name fits _
  obtain ⟨next, completes⟩ := inside_signature inside permits code level declares
  rw [same] at next
  exact ⟨next, by rw [completes]; rfl⟩

theorem reads_headings (added : List Heading) :
    Reads silent (Inside silent name implements signatures members 1) (added.map Heading.text) []
      (Inside silent name implements (signatures ++ added.map Heading.method) members 1) := by
  induction added generalizing signatures with
  | nil =>
    rw [List.map_nil, List.map_nil, List.append_nil]
    exact .nil stays_inside
  | cons heading added ih =>
    rw [List.map_cons, List.map_cons, List.append_cons]
    exact (reads_heading heading).append ih

end Members

section Documents

theorem startsAsCode_container (name : ContainerName) (rest : List Char) :
    StartsAsCode (name.text ++ rest) := by
  obtain ⟨text, c, later, rfl, capital, -⟩ := name
  exact ⟨c, later ++ rest, rfl, Lexical.ne_of_class capital rfl⟩

/-- The interfaces that the head of a class lists, if it has a clause at all. -/
def listed : List ContainerName → Option (List String)
  | [] => none
  | names => some (names.map fun i => String.ofList i.text)

/-- A container is read from its head over its members to its end, and what it is decides what symbol
it completes. -/
theorem reads_container {silent : Bool} (name : ContainerName) (implements : List ContainerName)
    {texts : List (List Char)} {signatures members : List Member} {s : Symbol}
    (inside : Reads silent
      (Inside silent (String.ofList name.text) (listed implements) [] [] 1) texts []
      (Inside silent (String.ofList name.text) (listed implements) signatures members 1))
    (completes : ∀ b, Gathers silent (String.ofList name.text) (listed implements) signatures
      members 1 b → b.close.unplaced = s) :
    Reads silent (AtDepth 0) (blockLines (name.text ++ clauseText implements) texts) [s]
      (AtDepth 0) := by
  have closing : Reads silent
      (Inside silent (String.ofList name.text) (listed implements) signatures members 1)
      [['\x7d']] [s] (AtDepth 0) := by
    refine Reads.cons (s := some s) stays_inside ?_ (.nil (stays_atDepth silent 0))
    intro r l inside permits text
    obtain ⟨next, b, closes, gathers⟩ := inside_closing inside permits text
    exact ⟨next, by rw [closes]; exact congrArg some (completes b gathers)⟩
  refine Reads.cons (s := none) (stays_atDepth silent 0) ?_ (inside.append closing)
  intro r l place permits text
  obtain ⟨column, heads⟩ := containerHead?_written name implements
  have code : StartsAsCode l.trimmed := by
    rw [text, List.append_assoc]
    exact startsAsCode_container name _
  have opens : braceBalance l.trimmed = 1 := by rw [text, braceBalance_container]
  obtain ⟨next, quiet⟩ := top_head place permits code (text ▸ heads) opens
  refine ⟨?_, by rw [quiet]; rfl⟩
  cases implements <;> exact next

theorem close_interface {name : String} {signatures : List Member} {b : Container}
    (gathers : Gathers true name none signatures [] 1 b) :
    b.close.unplaced = ⟨name, nowhere, .interfaceType signatures⟩ := by
  have form : b.isInterface = true := by
    simp [Container.isInterface, gathers.implements, gathers.mentions rfl, gathers.hasBody]
  rw [Container.close, form, ← gathers.name, ← gathers.signatures]
  rfl

theorem close_class {silent : Bool} {name : String} {implements : Option (List String)}
    {members : List Member} {b : Container}
    (gathers : Gathers silent name implements [] members 1 b)
    (distinct : implements = none → members ≠ []) :
    b.close.unplaced = ⟨name, nowhere, .classType (implements.getD []) members⟩ := by
  have form : b.isInterface = false := by
    cases implements with
    | none =>
      have some : members.isEmpty = false := List.isEmpty_eq_false_iff.mpr (distinct rfl)
      simp [Container.isInterface, gathers.hasBody, some]
    | some names => simp [Container.isInterface, gathers.implements]
  rw [Container.close, form, ← gathers.name, ← gathers.members, ← gathers.implements]
  rfl

/-- The lines of a declaration complete its symbol and nothing else, and leave nothing open. -/
theorem reads_declaration (declaration : Declaration) :
    Reads declaration.isInterface (AtDepth 0) declaration.lines [declaration.symbol] (AtDepth 0) := by
  cases declaration with
  | constant name value => exact reads_constant name value
  | short heading body => exact reads_short heading body
  | long heading body => exact reads_long heading body
  | interfaceType name methods =>
    have reads := reads_container name [] (reads_headings methods)
      fun b gathers => close_interface gathers
    rw [clauseText, List.append_nil, List.nil_append] at reads
    exact reads
  | classType name implements members distinct =>
    have telling : listed implements = none → [] ++ members.map ClassMember.member ≠ [] := by
      cases implements with
      | nil => simpa [listed] using distinct rfl
      | cons first names => simp [listed]
    have reads : Reads false (AtDepth 0) (blockLines (name.text ++ clauseText implements) _) [_]
        (AtDepth 0) :=
      reads_container name implements (reads_members members) fun b gathers =>
        close_class gathers telling
    have names : (listed implements).getD [] = implements.map fun i => String.ofList i.text := by
      cases implements <;> rfl
    rw [names, List.nil_append] at reads
    exact reads

theorem permits_of_raw {silent : Bool} {l : Line} {raw : List Char}
    (content : l.content = Document.chomp raw) (oneLine : '\n' ∉ raw)
    (quiet : silent = true → Text.occursIn Shape.constructorName.toList raw = false) :
    Permits silent l := by
  refine ⟨?_, fun kept => ?_⟩
  · rw [trimmed_of_content content]
    exact fun member => oneLine (Text.mem_of_mem_trim member)
  · obtain ⟨terminator, whole, -⟩ := Text.exists_chomp_append raw
    rw [Container.mentions, content, ← Bool.not_eq_true]
    intro occurs
    have inRaw := Text.occursIn_append_left occurs terminator
    rw [← whole, quiet kept] at inRaw
    cases inRaw

/-- A written document is read as its declarations, in order. -/
theorem reads_written {declarations : List Declaration} {raws : List (List Char)}
    (written : Written declarations raws) {lines : List Line} (shows : Shows lines raws)
    (oneLine : ∀ raw ∈ raws, '\n' ∉ raw) {r : Reading} (place : AtDepth 0 r) :
    (r.symbols lines).map Symbol.unplaced = declarations.map Declaration.symbol := by
  induction written generalizing lines r with
  | nil =>
    obtain rfl := List.map_eq_nil_iff.mp shows
    rfl
  | filler raw empty rest ih =>
    obtain ⟨l, later, rfl, content, shows⟩ := List.map_eq_cons_iff.mp shows
    obtain ⟨here, others⟩ := List.forall_mem_cons.mp oneLine
    have permits : Permits false l := permits_of_raw content here (by simp)
    obtain ⟨next, completes⟩ := stays_atDepth false 0 r l place permits (filler_trimmed content empty)
    rw [Reading.symbols_cons, completes]
    exact ih shows others next
  | declaration declaration own spread quiet rest ih =>
    obtain ⟨above, below, rfl, shows₁, shows₂⟩ :=
      List.map_eq_append_iff.mp (shows.trans List.map_append)
    obtain ⟨oneLine₁, oneLine₂⟩ := List.forall_mem_append.mp oneLine
    have permits : ∀ l ∈ above, Permits declaration.isInterface l := by
      intro l member
      have content : l.content ∈ own.map Document.chomp := shows₁ ▸ List.mem_map_of_mem member
      obtain ⟨raw, inside, same⟩ := List.mem_map.mp content
      exact permits_of_raw same.symm (oneLine₁ raw inside) fun silent => quiet silent raw inside
    obtain ⟨next, same⟩ := reads_declaration declaration own above r spread shows₁ permits place
    rw [Reading.symbols_append, List.map_append, same, ih shows₂ oneLine₂ next]
    rfl

end Documents

end Writing

/-- The symbols of a document that is written as some declarations are those of the declarations, in
their order and with everything that they say, however its lines are indented and wherever blank
lines and comments stand. -/
theorem symbols_of_written {declarations : List Writing.Declaration} {lines : List (List Char)}
    (written : Writing.Written declarations lines) (oneLine : ∀ line ∈ lines, '\n' ∉ line) :
    (Model.ofDocument (.ofLines lines)).symbols.map Symbol.unplaced =
      declarations.map Writing.Declaration.symbol := by
  have read {raws : List (List Char)} (written : Writing.Written declarations raws)
      (shows : Writing.Shows (Document.ofLines lines).lines raws)
      (oneLine : ∀ raw ∈ raws, '\n' ∉ raw) :
      (Model.ofDocument (.ofLines lines)).symbols.map Symbol.unplaced =
        declarations.map Writing.Declaration.symbol :=
    Writing.reads_written written shows oneLine rfl
  cases lines with
  | nil =>
    -- A document has a line even where none is written.
    exact read (.filler [] (.inl rfl) written) rfl (by simp)
  | cons first later => exact read written (Document.content_ofLines (by simp) oneLine) oneLine

section Sketch

open Writing

private def number : TypeName := ⟨"Number".toList, 'N', _, rfl, rfl, List.all_eq_true.mp rfl⟩

private def area : Heading :=
  { name := { text := "area".toList, fits := ⟨'a', _, rfl, rfl, List.all_eq_true.mp rfl⟩,
              noControl := rfl, noConstructor := by decide }
    parameters := ⟨[], by simp, rfl⟩
    result := some number }

private def shape : ContainerName := ⟨"Shape".toList, 'S', _, rfl, rfl, List.all_eq_true.mp rfl⟩

private def side : Identifier := ⟨"side".toList, 's', _, rfl, rfl, List.all_eq_true.mp rfl⟩

private def branch : Block := ⟨["if \x7b".toList, "\x7d".toList], by decide, by decide, by decide⟩

private def four : Expression := ⟨"4".toList, by decide, rfl, by decide⟩

private def box : Declaration :=
  .classType ⟨"Box".toList, 'B', _, rfl, rfl, List.all_eq_true.mp rfl⟩ [shape]
    [.field side number, .constructor ⟨"side ".toList, List.all_eq_true.mp rfl, rfl⟩ branch,
      .short area four rfl]
    (by simp)

private def unit : Declaration :=
  .constant ⟨"UNIT".toList, 'U', _, rfl, rfl, List.all_eq_true.mp rfl⟩
    ⟨"'\x7d'".toList, by decide, rfl, by decide⟩

private def shapeLines : List (List Char) :=
  ["Shape \x7b", "  area(): Number", "  // no more", "\x7d"].map String.toList

private def boxLines : List (List Char) :=
  ["  Box : Shape \x7b", "side: Number", "constructor(side ) \x7b", "if \x7b", "", "  \x7d", "\x7d",
    "area(): Number => 4", " \x7d"].map String.toList

private def unitLines : List (List Char) := ["const UNIT = '\x7d'  ".toList]

/-- An interface, a class that implements it and a constant, with comments, blank lines and some
indentation. -/
def sketch : List (List Char) :=
  "// all shapes".toList :: (shapeLines ++ [] :: (boxLines ++ (unitLines ++ [])))

/-- All that is declared in `sketch` is found. -/
theorem symbols_of_sketch :
    (Model.ofDocument (.ofLines sketch)).symbols.map Symbol.unplaced =
      [Declaration.interfaceType shape [area], box, unit].map Declaration.symbol := by
  have written : Written [.interfaceType shape [area], box, unit] sketch :=
    .filler _ (by decide +kernel) <|
      .declaration _ shapeLines (by decide +kernel) (by decide +kernel) <|
      .filler [] (.inl rfl) <| .declaration _ boxLines (by decide +kernel) nofun <|
      .declaration _ unitLines (by decide +kernel) nofun .nil
  exact symbols_of_written written (by decide +kernel)

end Sketch

end SymbolIndex
