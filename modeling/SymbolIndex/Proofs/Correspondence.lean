import Mathlib.Data.List.Forall2
import SymbolIndex.Proofs.Reading

/-! Two documents read side by side. Where the lines of one read like those of the other, and sites on
them stand to one another in some way, the same symbols are declared, and their sites stand to one
another in that way. What the way is depends on the two documents; it may differ by the kind of a
declaration, because only containers and callables reach past their line. -/
namespace SymbolIndex

variable {places : Kind → Site → Site → Prop}

/-- The same member, at places that correspond. -/
structure Member.Matches (places : Kind → Site → Site → Prop) (m m' : Member) : Prop where
  name : m.name = m'.name
  form : m.form = m'.form
  site : places m.kind m.site m'.site

/-- The same declaration, with members that match. -/
inductive SymbolForm.Matches (places : Kind → Site → Site → Prop) :
    SymbolForm → SymbolForm → Prop where
  | function (signature : Signature) : Matches places (.function signature) (.function signature)
  | constant (value : String) : Matches places (.constant value) (.constant value)
  | interfaceType {methods methods' : List Member}
      (same : List.Forall₂ (Member.Matches places) methods methods') :
      Matches places (.interfaceType methods) (.interfaceType methods')
  | classType (implements : List String) {members members' : List Member}
      (same : List.Forall₂ (Member.Matches places) members members') :
      Matches places (.classType implements members) (.classType implements members')

/-- The same symbol, at places that correspond. -/
structure Symbol.Matches (places : Kind → Site → Site → Prop) (s s' : Symbol) : Prop where
  name : s.name = s'.name
  form : SymbolForm.Matches places s.form s'.form
  site : places s.kind s.site s'.site

section Weaker

variable {places' : Kind → Site → Site → Prop}
  (weaker : ∀ kind site site', places kind site site' → places' kind site site')
include weaker

theorem Member.Matches.mono {m m' : Member} (same : m.Matches places m') : m.Matches places' m' :=
  ⟨same.name, same.form, weaker _ _ _ same.site⟩

theorem Symbol.Matches.mono {s s' : Symbol} (same : s.Matches places s') : s.Matches places' s' := by
  obtain ⟨name, site, form⟩ := s
  obtain ⟨name', site', form'⟩ := s'
  obtain ⟨names, forms, place⟩ := same
  refine ⟨names, ?_, weaker _ _ _ place⟩
  cases forms with
  | function signature => exact .function signature
  | constant value => exact .constant value
  | interfaceType members => exact .interfaceType (members.imp fun _ _ => Member.Matches.mono weaker)
  | classType implements members =>
    exact .classType implements (members.imp fun _ _ => Member.Matches.mono weaker)

end Weaker

/-- Lines that read alike, with declarations at places that correspond. -/
structure Line.Matches (places : Kind → Site → Site → Prop) (l l' : Line) : Prop where
  trimmed : l.trimmed = l'.trimmed
  mentions : Container.mentions l = Container.mentions l'
  alone : ∀ kind nameAt name, places kind (l.site nameAt name l.stop) (l'.site nameAt name l'.stop)
  container : ∀ kind head, kind.isContainer = true →
    Shape.containerHead? l.trimmed = some head →
    places kind (l.site 0 head.name (l.blockStop head.braceAt))
      (l'.site 0 head.name (l'.blockStop head.braceAt))
  callable : ∀ kind c braceAt, kind.isCallable = true → Shape.callable? l.trimmed = some c →
    c.body = .block braceAt →
    places kind (l.site 0 c.name (l.blockStop braceAt)) (l'.site 0 c.name (l'.blockStop braceAt))

namespace Container

/-- Containers that are open in the two documents and have been the same so far. Signatures count only
as long as the container can turn out to be an interface. -/
structure Matches (places : Kind → Site → Site → Prop) (b b' : Container) : Prop where
  name : b.name = b'.name
  site : ∀ kind : Kind, kind.isContainer = true → places kind b.site b'.site
  implements : b.implements = b'.implements
  depth : b.depth = b'.depth
  mentionsConstructor : b.mentionsConstructor = b'.mentionsConstructor
  signatures : b.isInterface = true →
    List.Forall₂ (Member.Matches places) b.signatures.toList b'.signatures.toList
  members : List.Forall₂ (Member.Matches places) b.members.toList b'.members.toList
  hasBody : b.hasBody = b'.hasBody
  inParameters : b.inParameters = b'.inParameters

/-- What matching lines declare. -/
inductive Entry.Matches (places : Kind → Site → Site → Prop) : Entry → Entry → Prop where
  | signature {m m' : Member} (same : m.Matches places m') :
      Matches places (.signature m) (.signature m')
  | bodied {m m' : Member} (same : m.Matches places m') : Matches places (.bodied m) (.bodied m')
  | wrapped {m m' : Member} (same : m.Matches places m') : Matches places (.wrapped m) (.wrapped m')

/-- What two lines declare in a container comes to the same: it matches, or is no more than signatures
in what cannot be an interface. -/
inductive Entry.Agree (places : Kind → Site → Site → Prop) (b : Container) :
    Option Entry → Option Entry → Prop where
  | same {entry entry' : Option Entry} (related : Option.Rel (Entry.Matches places) entry entry') :
      Agree places b entry entry'
  | dropped {entry entry' : Option Entry} (settled : b.isInterface = false)
      (bodiless : ∀ e ∈ entry, ∃ m, e = .signature m)
      (bodiless' : ∀ e ∈ entry', ∃ m, e = .signature m) : Agree places b entry entry'

variable {b b' : Container} {l l' : Line}

/-- The site of a callable with a body corresponds, wherever the body stops. -/
theorem callable_matches (lines : l.Matches places l') {kind : Kind} (calls : kind.isCallable = true)
    {c : Shape.Callable} (reads : Shape.callable? l.trimmed = some c) :
    places kind (l.site 0 c.name (bodyStop l c.body)) (l'.site 0 c.name (bodyStop l' c.body)) := by
  cases body : c.body with
  | expression => exact lines.alone kind 0 c.name
  | block braceAt => exact lines.callable kind c braceAt calls reads body

theorem declared?_matches (lines : l.Matches places l') :
    Option.Rel (Entry.Matches places) (declared? l) (declared? l') := by
  unfold declared? Shape.memberLine?
  rw [← lines.trimmed]
  cases Shape.signature? l.trimmed with
  | some declared =>
    exact .some (.signature ⟨rfl, rfl, lines.alone _ 0 declared.1⟩)
  | none =>
    cases reads : Shape.callable? l.trimmed with
    | some c =>
      exact .some (.bodied ⟨rfl, rfl,
        callable_matches lines (callableForm_isCallable c.name c.signature _) reads⟩)
    | none =>
      cases Shape.wrapped? l.trimmed with
      | some declared => exact .some (.wrapped ⟨rfl, rfl, lines.alone _ 0 declared.1⟩)
      | none =>
        cases Shape.field? l.trimmed with
        | some f => exact .some (.bodied ⟨rfl, rfl, lines.alone _ 0 f.name⟩)
        | none => exact .none

theorem declared?_bodiless (callable : Shape.callable? l.trimmed = none)
    (wrapped : Shape.wrapped? l.trimmed = none) (field : Shape.field? l.trimmed = none) :
    ∀ e ∈ declared? l, ∃ m, e = .signature m := by
  intro e declares
  unfold declared? Shape.memberLine? at declares
  rw [callable, wrapped, field] at declares
  cases reads : Shape.signature? l.trimmed with
  | none =>
    rw [reads] at declares
    cases declares
  | some declared =>
    rw [reads] at declares
    exact ⟨_, (Option.some.inj declares).symm⟩

theorem collect_of_bodiless (declares : b.inParameters = false)
    (bodiless : ∀ e ∈ declared? l, ∃ m, e = .signature m) :
    ∃ signatures, b.collect l = { b with signatures } := by
  rw [collect, if_neg (Bool.eq_false_iff.mp declares)]
  cases entry : declared? l with
  | none => exact ⟨b.signatures, rfl⟩
  | some e =>
    obtain ⟨m, rfl⟩ := bodiless e entry
    exact ⟨b.signatures.push m, rfl⟩

theorem collect_matches (containers : b.Matches places b')
    (closing : b.inParameters = true → l.trimmed.contains ')' = l'.trimmed.contains ')')
    (entries : b.inParameters = false → Entry.Agree places b (declared? l) (declared? l')) :
    (b.collect l).Matches places (b'.collect l') := by
  have pushed {m m' : Member} (same : m.Matches places m') {ms ms' : Array Member}
      (before : List.Forall₂ (Member.Matches places) ms.toList ms'.toList) :
      List.Forall₂ (Member.Matches places) (ms.push m).toList (ms'.push m').toList := by
    rw [Array.toList_push, Array.toList_push]
    exact List.rel_append before (.cons same .nil)
  by_cases continues : b.inParameters = true
  · rw [collect, collect, if_pos continues, if_pos (containers.inParameters ▸ continues)]
    exact { containers with inParameters := by rw [closing continues] }
  · have declares := Bool.eq_false_iff.mpr continues
    cases entries declares with
    | dropped settled bodiless bodiless' =>
      obtain ⟨signatures, collected⟩ := collect_of_bodiless declares bodiless
      obtain ⟨signatures', collected'⟩ :=
        collect_of_bodiless (containers.inParameters ▸ declares) bodiless'
      rw [collected, collected']
      exact { containers with signatures := fun form => absurd form (Bool.eq_false_iff.mp settled) }
    | same related =>
      rw [collect, collect, if_neg continues, if_neg (containers.inParameters ▸ continues)]
      generalize declared? l = entry, declared? l' = entry' at related ⊢
      cases related with
      | none => exact containers
      | some same =>
        cases same with
        | signature same =>
          exact { containers with signatures := fun form => pushed same (containers.signatures form) }
        | bodied same =>
          have settled (m : Member) : isInterface { b with members := b.members.push m, hasBody := true } =
              false := Bool.and_false _
          exact { containers with
            members := pushed same containers.members
            hasBody := rfl
            signatures := fun form => absurd form (Bool.eq_false_iff.mp (settled _)) }
        | wrapped same =>
          exact { containers with members := pushed same containers.members, inParameters := rfl }

/-- What can be an interface with one more line noted could be one before. -/
theorem isInterface_of_noting (form : (b.noting l).isInterface = true) : b.isInterface = true := by
  simp only [isInterface, noting, Bool.and_eq_true, Bool.not_eq_true', Bool.or_eq_false_iff] at form ⊢
  exact ⟨⟨form.1.1, form.1.2.1⟩, form.2⟩

theorem noting_matches (containers : b.Matches places b') (mentions : mentions l = mentions l') :
    (b.noting l).Matches places (b'.noting l') :=
  { containers with
    mentionsConstructor := by simp [noting, containers.mentionsConstructor, mentions]
    signatures := fun form => containers.signatures (isInterface_of_noting form) }

theorem ofHead_matches (mentions : mentions l = mentions l')
    (balance : braceBalance l.trimmed = braceBalance l'.trimmed) {head : Shape.Head}
    (site : ∀ kind : Kind, kind.isContainer = true →
      places kind (l.site 0 head.name (l.blockStop head.braceAt))
        (l'.site 0 head.name (l'.blockStop head.braceAt))) :
    (ofHead l head).Matches places (ofHead l' head) where
  name := rfl
  site := site
  implements := rfl
  depth := balance
  mentionsConstructor := mentions
  signatures _ := .nil
  members := .nil
  hasBody := rfl
  inParameters := rfl

theorem close_matches (containers : b.Matches places b') : b.close.Matches places b'.close := by
  refine ⟨containers.name, ?_, containers.site _ b.isContainer_close⟩
  have form : b.isInterface = b'.isInterface := by
    simp [isInterface, containers.implements, containers.mentionsConstructor, containers.hasBody]
  unfold close
  rw [← form, ← containers.implements]
  cases isInterface : b.isInterface with
  | true => exact .interfaceType (containers.signatures isInterface)
  | false => exact .classType _ containers.members

end Container

namespace Reading

/-- Readings of the two documents that have come to the same point. -/
structure Matches (places : Kind → Site → Site → Prop) (r r' : Reading) : Prop where
  inComment : r.inComment = r'.inComment
  container : Option.Rel (Container.Matches places) r.container r'.container
  depth : r.depth = r'.depth

variable {r r' : Reading} {l l' : Line}

theorem Matches.refl_of_free (free : r.container = none) : r.Matches places r :=
  ⟨rfl, free ▸ .none, rfl⟩

theorem Matches.eq_of_free (readings : r.Matches places r') (free : r.container = none) : r' = r := by
  obtain ⟨inComment, container, depth⟩ := r
  obtain ⟨inComment', container', depth'⟩ := r'
  obtain rfl : container = none := free
  obtain ⟨rfl, containers, rfl⟩ := readings
  cases containers
  rfl

theorem topLevel?_matches (lines : l.Matches places l') :
    Option.Rel (Symbol.Matches places) (topLevel? l) (topLevel? l') := by
  unfold topLevel? Shape.topLine?
  rw [← lines.trimmed]
  cases reads : Shape.callable? l.trimmed with
  | some c =>
    dsimp only
    split
    · exact .none
    · exact .some ⟨rfl, .function _, Container.callable_matches lines rfl reads⟩
  | none =>
    cases Shape.constant? l.trimmed with
    | some c => exact .some ⟨rfl, .constant _, lines.alone _ c.nameAt c.name⟩
    | none => exact .none

theorem note_matches (readings : r.Matches places r')
    (mentions : Container.mentions l = Container.mentions l') :
    (r.note l).Matches places (r'.note l') where
  inComment := readings.inComment
  depth := readings.depth
  container := by
    have containers := readings.container
    unfold note
    generalize r.container = inside, r'.container = inside' at containers ⊢
    cases containers with
    | none => exact .none
    | some same => exact .some (Container.noting_matches same mentions)

/-- A line is read directly in the body of the container, which it does not close. -/
structure Collects (r : Reading) (l : Line) (b : Container) : Prop where
  inside : r.container = some b
  direct : b.depth = 1
  stays : 0 < b.depth + braceBalance l.trimmed

/-- Lines of code that do the same to a reading: what they declare where they are read is the same at
places that correspond, and top-level symbols are the same in some way. -/
structure Alike (places : Kind → Site → Site → Prop) (same : Symbol → Symbol → Prop) (r : Reading)
    (l l' : Line) : Prop where
  mentions : Container.mentions l = Container.mentions l'
  balance : braceBalance l.trimmed = braceBalance l'.trimmed
  head : Shape.containerHead? l.trimmed = Shape.containerHead? l'.trimmed
  opened : ∀ (kind : Kind) head, kind.isContainer = true → Shape.containerHead? l.trimmed = some head →
    places kind (l.site 0 head.name (l.blockStop head.braceAt))
      (l'.site 0 head.name (l'.blockStop head.braceAt))
  topLevel : r.container = none → r.depth = 0 → Option.Rel same (topLevel? l) (topLevel? l')
  entry : ∀ b, r.Collects l b → b.inParameters = false →
    Container.Entry.Agree places b (Container.declared? l) (Container.declared? l')
  closing : ∀ b, r.Collects l b → b.inParameters = true →
    l.trimmed.contains ')' = l'.trimmed.contains ')'

theorem alike_of_matches (lines : l.Matches places l') (r : Reading) :
    r.Alike places (Symbol.Matches places) l l' where
  mentions := lines.mentions
  balance := congrArg braceBalance lines.trimmed
  head := congrArg Shape.containerHead? lines.trimmed
  opened := lines.container
  topLevel _ _ := topLevel?_matches lines
  entry _ _ _ := .same (Container.declared?_matches lines)
  closing _ _ _ := by rw [lines.trimmed]

/-- Steps that leave readings which match, and complete symbols which are the same in some way. -/
def StepMatches (places : Kind → Site → Site → Prop) (same : Symbol → Symbol → Prop)
    (next next' : Reading × Option Symbol) : Prop :=
  next.1.Matches places next'.1 ∧ Option.Rel same next.2 next'.2

section Steps

variable {same : Symbol → Symbol → Prop}
  (closes : ∀ b b' : Container, b.Matches places b' → same b.close b'.close)
include closes

theorem topStep_matches (readings : r.Matches places r') (free : r.container = none)
    (alike : r.Alike places same l l') : StepMatches places same (r.topStep l) (r'.topStep l') := by
  have deeper : ({ r with depth := max 0 (r.depth + braceBalance l.trimmed) } : Reading).Matches
      places { r' with depth := max 0 (r'.depth + braceBalance l'.trimmed) } :=
    { readings with depth := by rw [readings.depth, alike.balance] }
  unfold topStep
  by_cases deep : r.depth ≠ 0
  · rw [if_pos deep, if_pos (readings.depth ▸ deep)]
    exact ⟨deeper, .none⟩
  · rw [if_neg deep, if_neg (readings.depth ▸ deep), ← alike.head]
    cases heads : Shape.containerHead? l.trimmed with
    | none => exact ⟨deeper, alike.topLevel free (not_not.mp deep)⟩
    | some head =>
      have opened := Container.ofHead_matches alike.mentions alike.balance
        (fun kind contains => alike.opened kind head contains heads)
      dsimp only
      by_cases ends : (Container.ofHead l head).depth ≤ 0
      · rw [if_pos ends, if_pos (opened.depth ▸ ends)]
        exact ⟨readings, .some (closes _ _ opened)⟩
      · rw [if_neg ends, if_neg (opened.depth ▸ ends)]
        exact ⟨{ readings with container := .some opened }, .none⟩

theorem bodyStep_matches {b b' : Container} (readings : r.Matches places r')
    (inside : r.container = some b) (containers : b.Matches places b') (alike : r.Alike places same l l') :
    StepMatches places same (r.bodyStep b l) (r'.bodyStep b' l') := by
  unfold bodyStep
  dsimp only
  rw [← containers.depth, ← alike.balance]
  by_cases ends : b.depth + braceBalance l.trimmed ≤ 0
  · rw [if_pos ends, if_pos ends]
    exact ⟨{ readings with container := .none }, .some (closes _ _ containers)⟩
  · rw [if_neg ends, if_neg ends]
    by_cases direct : b.depth = 1
    · have collects : r.Collects l b := ⟨inside, direct, Int.not_le.mp ends⟩
      have collected := Container.collect_matches containers (alike.closing b collects)
        (alike.entry b collects)
      rw [if_pos direct, if_pos direct]
      exact ⟨{ readings with container := .some { collected with depth := rfl } }, .none⟩
    · rw [if_neg direct, if_neg direct]
      exact ⟨{ readings with container := .some { containers with depth := rfl } }, .none⟩

theorem codeStep_matches (readings : r.Matches places r') (alike : r.Alike places same l l') :
    StepMatches places same (r.codeStep l) (r'.codeStep l') := by
  have containers := readings.container
  unfold codeStep
  cases inside : r.container with
  | none =>
    rw [inside] at containers
    generalize r'.container = inside' at containers
    cases containers
    exact topStep_matches closes readings inside alike
  | some b =>
    rw [inside] at containers
    generalize r'.container = inside' at containers
    cases containers with
    | some same => exact bodyStep_matches closes readings inside same alike

/-- A line does the same to both readings. -/
theorem step_matches (readings : r.Matches places r')
    (mentions : Container.mentions l = Container.mentions l')
    (empty : l.trimmed.isEmpty = l'.trimmed.isEmpty)
    (comment : Comment.read r.inComment l.trimmed = Comment.read r.inComment l'.trimmed)
    (alike : l.IsCode r.inComment → ((r.note l).commented l).Alike places same l l') :
    StepMatches places same (r.step l) (r'.step l') := by
  have noted := note_matches readings mentions
  have commented : ((r.note l).commented l).Matches places ((r'.note l').commented l') := by
    refine { noted with inComment := ?_ }
    show (Comment.read r.inComment l.trimmed).leavesOpen = (Comment.read r'.inComment l'.trimmed).leavesOpen
    rw [← readings.inComment, comment]
  unfold step
  dsimp only
  rw [← empty]
  by_cases blank : l.trimmed.isEmpty = true
  · rw [if_pos blank, if_pos blank]
    exact ⟨noted, .none⟩
  · rw [if_neg blank, if_neg blank]
    have same' : (Comment.read (r'.note l').inComment l'.trimmed).isComment =
        (Comment.read (r.note l).inComment l.trimmed).isComment := by
      rw [← noted.inComment]
      exact congrArg Comment.Reading.isComment comment.symm
    rw [same']
    by_cases is : (Comment.read (r.note l).inComment l.trimmed).isComment = true
    · rw [if_pos is, if_pos is]
      exact ⟨commented, .none⟩
    · rw [if_neg is, if_neg is]
      exact codeStep_matches closes commented
        (alike ⟨fun none => blank (by rw [none]; rfl), Bool.eq_false_iff.mpr is⟩)

end Steps

theorem forall₂_toList {α β : Type} {R : α → β → Prop} {a : Option α} {b : Option β}
    (related : Option.Rel R a b) : List.Forall₂ R a.toList b.toList := by
  cases related with
  | none => exact .nil
  | some same => exact .cons same .nil

/-- Documents whose lines match declare symbols that match. -/
theorem symbols_match {lines lines' : List Line} (readings : r.Matches places r')
    (same : List.Forall₂ (Line.Matches places) lines lines') :
    (r.after lines).Matches places (r'.after lines') ∧
      List.Forall₂ (Symbol.Matches places) (r.symbols lines) (r'.symbols lines') := by
  induction same generalizing r r' with
  | nil => exact ⟨readings, .nil⟩
  | cons first _ ih =>
    obtain ⟨next, completed⟩ := step_matches (fun _ _ => Container.close_matches) readings first.mentions
      (by rw [first.trimmed]) (by rw [first.trimmed]) fun _ => alike_of_matches first _
    obtain ⟨last, later⟩ := ih next
    refine ⟨last, ?_⟩
    rw [symbols_cons, symbols_cons]
    exact List.rel_append (forall₂_toList completed) later

end Reading

/-- The same member somewhere else. -/
def Member.mapSites (move : Site → Site) (m : Member) : Member := { m with site := move m.site }

/-- The same symbol somewhere else, with its members. -/
def Symbol.mapSites (move : Site → Site) (s : Symbol) : Symbol :=
  { name := s.name
    site := move s.site
    form :=
      match s.form with
      | .function signature => .function signature
      | .constant value => .constant value
      | .interfaceType methods => .interfaceType (methods.map (Member.mapSites move))
      | .classType implements members => .classType implements (members.map (Member.mapSites move)) }

theorem Member.mapSites_id (m : Member) : m.mapSites id = m := rfl

theorem Symbol.mapSites_id (s : Symbol) : s.mapSites id = s := by
  have same : Member.mapSites id = id := funext Member.mapSites_id
  obtain ⟨name, site, form⟩ := s
  cases form <;> simp [mapSites, same]

section MapSites

variable {Holds : Kind → Site → Prop} {move move' : Site → Site}

private theorem map_mapSites_of_members {ms ms' : List Member}
    (same : List.Forall₂
      (Member.Matches fun kind site site' => Holds kind site → move' site' = move site) ms ms')
    (inside : ∀ m ∈ ms, Holds m.kind m.site) :
    ms'.map (Member.mapSites move') = ms.map (Member.mapSites move) := by
  induction same with
  | nil => rfl
  | @cons m m' _ _ first _ ih =>
    obtain ⟨here, others⟩ := List.forall_mem_cons.mp inside
    have moved : m'.mapSites move' = m.mapSites move := by
      obtain ⟨name, site, form⟩ := m
      obtain ⟨name', site', form'⟩ := m'
      obtain ⟨rfl, rfl, place⟩ := first
      exact congrArg (Member.mk _ · _) (place here)
    rw [List.map_cons, List.map_cons, ih others, moved]

/-- Symbols that match are the same once their sites are moved to where they are the same. -/
theorem Symbol.mapSites_of_matches {s s' : Symbol}
    (same : s.Matches (fun kind site site' => Holds kind site → move' site' = move site) s')
    (here : Holds s.kind s.site) (inside : ∀ m ∈ s.members, Holds m.kind m.site) :
    s'.mapSites move' = s.mapSites move := by
  obtain ⟨name, site, form⟩ := s
  obtain ⟨name', site', form'⟩ := s'
  obtain ⟨rfl, forms, place⟩ := same
  have moved : move' site' = move site := place here
  unfold mapSites
  cases forms with
  | function | constant => rw [moved]
  | interfaceType members | classType _ members =>
    dsimp only
    rw [moved, map_mapSites_of_members members inside]

theorem map_mapSites_of_matches {ss ss' : List Symbol}
    (same : List.Forall₂
      (Symbol.Matches fun kind site site' => Holds kind site → move' site' = move site) ss ss')
    (hold : ∀ s ∈ ss, Holds s.kind s.site ∧ ∀ m ∈ s.members, Holds m.kind m.site) :
    ss'.map (Symbol.mapSites move') = ss.map (Symbol.mapSites move) := by
  induction same with
  | nil => rfl
  | cons first _ ih =>
    obtain ⟨⟨here, inside⟩, others⟩ := List.forall_mem_cons.mp hold
    rw [List.map_cons, List.map_cons, ih others, Symbol.mapSites_of_matches first here inside]

/-- Where sites of declarations that meet a condition are moved, and all do, the symbols are the
same but for the move. -/
theorem eq_map_mapSites_of_matches {ss ss' : List Symbol}
    (same : List.Forall₂
      (Symbol.Matches fun kind site site' => Holds kind site → site' = move site) ss ss')
    (hold : ∀ s ∈ ss, Holds s.kind s.site ∧ ∀ m ∈ s.members, Holds m.kind m.site) :
    ss' = ss.map (Symbol.mapSites move) := by
  have still : Symbol.mapSites id = id := funext Symbol.mapSites_id
  have moved : ss'.map (Symbol.mapSites id) = ss.map (Symbol.mapSites move) :=
    map_mapSites_of_matches same hold
  rwa [still, List.map_id] at moved

end MapSites

end SymbolIndex
