import SymbolIndex.Model
import SymbolIndex.Proofs.Lines

/-! What one line can do to a document that is being read, and what follows for a run of lines. A line that
completes a container leaves none open, and a line that declares something was read while none was open; so
what holds of all that single lines declare holds of all symbols of a run and of their members. -/
namespace SymbolIndex

namespace Site

/-- The line that a declaration starts on. -/
def line (site : Site) : Nat := site.span.start.line

end Site

namespace Shape

variable {line : List Char}

/-- A line in a body that reads as a callable with a body is read by the reader for these. -/
theorem callable?_of_memberLine? {c : Callable} (rule : memberLine? line = some (.callable c)) :
    callable? line = some c := by
  unfold memberLine? at rule
  split at rule
  · cases rule
  · split at rule
    · next reads =>
      cases rule
      exact reads
    · split at rule
      · cases rule
      · obtain ⟨_, -, other⟩ := Option.map_eq_some_iff.mp rule
        cases other

/-- A line at the top level reads as a function, unless it is called a constructor, or else as a
constant. -/
theorem topLine?_some {read : TopLine} (rule : topLine? line = some read) :
    (∃ c, callable? line = some c ∧ c.name ≠ constructorName ∧ read = .function c) ∨
    callable? line = none ∧ ∃ c, constant? line = some c ∧ read = .constant c := by
  unfold topLine? at rule
  split at rule
  · next c reads =>
    split at rule
    · cases rule
    · next named => exact .inl ⟨c, reads, named, (Option.some.inj rule).symm⟩
  · next bodiless =>
    obtain ⟨c, reads, rfl⟩ := Option.map_eq_some_iff.mp rule
    exact .inr ⟨bodiless, c, reads, rfl⟩

end Shape

namespace Line

/-- Whether a site is that of a declaration on the line. -/
def Hosts (l : Line) (site : Site) : Prop := ∃ nameAt name stop, site = l.site nameAt name stop

theorem Hosts.line_eq {l : Line} {site : Site} (hosts : l.Hosts site) : site.line = l.number := by
  obtain ⟨nameAt, name, stop, rfl⟩ := hosts
  rfl

/-- What a line declares, by the reader that finds it there: its kind, its name and its site. Whether
a container's head is that of a class or of an interface does not show on its line. -/
inductive Declares (l : Line) : Kind → String → Site → Prop where
  | container {kind : Kind} {head : Shape.Head} (contains : kind.isContainer = true)
      (heads : Shape.containerHead? l.trimmed = some head) :
      Declares l kind head.name (l.site 0 head.name (l.blockStop head.braceAt))
  | callable {kind : Kind} {c : Shape.Callable} (calls : kind.isCallable = true)
      (reads : Shape.callable? l.trimmed = some c) :
      Declares l kind c.name (l.site 0 c.name (Container.bodyStop l c.body))
  | signature {name : String} {signature : Signature}
      (reads : Shape.signature? l.trimmed = some (name, signature)) :
      Declares l .method name (l.site 0 name l.stop)
  | wrapped {kind : Kind} {name parameters : String} (calls : kind.isCallable = true)
      (reads : Shape.wrapped? l.trimmed = some (name, parameters)) :
      Declares l kind name (l.site 0 name l.stop)
  | field {f : Shape.Field} (reads : Shape.field? l.trimmed = some f) :
      Declares l .field f.name (l.site 0 f.name l.stop)
  | constant {c : Shape.Constant} (reads : Shape.constant? l.trimmed = some c) :
      Declares l .constant c.name (l.site c.nameAt c.name l.stop)

theorem Declares.hosts {l : Line} {kind : Kind} {name : String} {site : Site}
    (declares : l.Declares kind name site) : l.Hosts site := by
  cases declares <;> exact ⟨_, _, _, rfl⟩

/-- A line of code, as against one that is blank or a comment. -/
def IsCode (l : Line) (inComment : Bool) : Prop :=
  l.trimmed ≠ [] ∧ (Comment.read inComment l.trimmed).isComment = false

end Line

/-- Something holds of a symbol and of its members. -/
def Symbol.Throughout (P : Kind → String → Site → Prop) (s : Symbol) : Prop :=
  P s.kind s.name s.site ∧ ∀ m ∈ s.members, P m.kind m.name m.site

namespace Container

/-- The container once it has taken note of a line. -/
def noting (b : Container) (l : Line) : Container :=
  { b with mentionsConstructor := b.mentionsConstructor || mentions l }

/-- The container after a line of code that does not close it. -/
def grown (b : Container) (l : Line) : Container :=
  let noted := b.noting l
  { (if noted.depth = 1 then noted.collect l else noted) with
    depth := b.depth + braceBalance l.trimmed }

/-- The member that a line declares. -/
def Entry.member : Entry → Member
  | .signature member | .bodied member | .wrapped member => member

theorem callableForm_isCallable (name : String) (signature : Signature) (site : Site) :
    (Member.mk name site (callableForm name signature)).kind.isCallable = true := by
  unfold callableForm
  split <;> rfl

/-- What a line directly in a body can be, with the readers that were tried on it in vain. -/
inductive Finds (l : Line) : Option Entry → Prop where
  | signature {name : String} {signature : Signature}
      (reads : Shape.signature? l.trimmed = some (name, signature)) :
      Finds l (some (.signature ⟨name, l.site 0 name l.stop, .method signature⟩))
  | callable {c : Shape.Callable} (unsigned : Shape.signature? l.trimmed = none)
      (reads : Shape.callable? l.trimmed = some c) :
      Finds l (some (.bodied
        ⟨c.name, l.site 0 c.name (bodyStop l c.body), callableForm c.name c.signature⟩))
  | wrapped {name parameters : String} (unsigned : Shape.signature? l.trimmed = none)
      (bodiless : Shape.callable? l.trimmed = none)
      (reads : Shape.wrapped? l.trimmed = some (name, parameters)) :
      Finds l (some (.wrapped ⟨name, l.site 0 name l.stop, callableForm name ⟨parameters, none⟩⟩))
  | field {f : Shape.Field} (unsigned : Shape.signature? l.trimmed = none)
      (bodiless : Shape.callable? l.trimmed = none) (unwrapped : Shape.wrapped? l.trimmed = none)
      (reads : Shape.field? l.trimmed = some f) :
      Finds l (some (.bodied ⟨f.name, l.site 0 f.name l.stop, .field f.type⟩))
  | nothing (unsigned : Shape.signature? l.trimmed = none)
      (bodiless : Shape.callable? l.trimmed = none) (unwrapped : Shape.wrapped? l.trimmed = none)
      (fieldless : Shape.field? l.trimmed = none) : Finds l none

theorem declared?_finds (l : Line) : Finds l (declared? l) := by
  unfold declared? Shape.memberLine?
  cases unsigned : Shape.signature? l.trimmed with
  | some declared => exact .signature unsigned
  | none =>
    cases bodiless : Shape.callable? l.trimmed with
    | some c => exact .callable unsigned bodiless
    | none =>
      cases unwrapped : Shape.wrapped? l.trimmed with
      | some declared => exact .wrapped unsigned bodiless unwrapped
      | none =>
        cases fieldless : Shape.field? l.trimmed with
        | some f => exact .field unsigned bodiless unwrapped fieldless
        | none => exact .nothing unsigned bodiless unwrapped fieldless

theorem declared?_declares {l : Line} {entry : Entry} (declares : declared? l = some entry) :
    l.Declares entry.member.kind entry.member.name entry.member.site := by
  generalize found : some entry = finding at declares
  cases declares ▸ declared?_finds l with
  | signature reads =>
    obtain rfl := Option.some.inj found
    exact .signature reads
  | callable _ reads =>
    obtain rfl := Option.some.inj found
    exact .callable (callableForm_isCallable ..) reads
  | wrapped _ _ reads =>
    obtain rfl := Option.some.inj found
    exact .wrapped (callableForm_isCallable ..) reads
  | field _ _ _ reads =>
    obtain rfl := Option.some.inj found
    exact .field reads
  | nothing => cases found

/-- The members read so far, in whichever form the container closes. -/
def collected (b : Container) : List Member := b.signatures.toList ++ b.members.toList

/-- A line adds at most the member that it declares. -/
theorem mem_collected_collect {b : Container} {l : Line} {m : Member}
    (member : m ∈ (b.collect l).collected) :
    m ∈ b.collected ∨ ∃ entry, declared? l = some entry ∧ m = entry.member := by
  unfold collect at member
  split at member
  · exact .inl member
  · split at member
    · next declares =>
      simp only [collected, Array.toList_push, List.mem_append, List.mem_singleton] at member ⊢
      rcases member with (before | rfl) | before
      · exact .inl (.inl before)
      · exact .inr ⟨_, declares, rfl⟩
      · exact .inl (.inr before)
    · next declares =>
      simp only [collected, Array.toList_push, List.mem_append, List.mem_singleton] at member ⊢
      rcases member with before | before | rfl
      · exact .inl (.inl before)
      · exact .inl (.inr before)
      · exact .inr ⟨_, declares, rfl⟩
    · next declares =>
      simp only [collected, Array.toList_push, List.mem_append, List.mem_singleton] at member ⊢
      rcases member with before | before | rfl
      · exact .inl (.inl before)
      · exact .inl (.inr before)
      · exact .inr ⟨_, declares, rfl⟩
    · exact .inl member

theorem mem_collected_grown {b : Container} {l : Line} {m : Member}
    (member : m ∈ (b.grown l).collected) :
    m ∈ b.collected ∨ ∃ entry, declared? l = some entry ∧ m = entry.member := by
  unfold grown at member
  by_cases direct : b.depth = 1
  · have collects : m ∈ ((b.noting l).collect l).collected := by
      simpa [noting, direct, collected] using member
    exact (mem_collected_collect collects).imp_left id
  · exact .inl (by simpa [noting, direct, collected] using member)

/-- What counts only for an interface is what lines declare without a body. -/
theorem mem_signatures_collect {b : Container} {l : Line} {m : Member}
    (member : m ∈ (b.collect l).signatures.toList) :
    m ∈ b.signatures.toList ∨ declared? l = some (.signature m) := by
  unfold collect at member
  split at member
  · exact .inl member
  · split at member
    · next declares =>
      rw [Array.toList_push, List.mem_append, List.mem_singleton] at member
      rcases member with before | rfl
      · exact .inl before
      · exact .inr declares
    · exact .inl member
    · exact .inl member
    · exact .inl member

theorem collect_site (b : Container) (l : Line) :
    (b.collect l).name = b.name ∧ (b.collect l).site = b.site := by
  unfold collect
  split
  · exact ⟨rfl, rfl⟩
  · split <;> exact ⟨rfl, rfl⟩

theorem grown_site (b : Container) (l : Line) :
    (b.grown l).name = b.name ∧ (b.grown l).site = b.site := by
  unfold grown
  dsimp only
  split
  · exact collect_site (b.noting l) l
  · exact ⟨rfl, rfl⟩

theorem isContainer_close (b : Container) : b.close.kind.isContainer = true := by
  unfold close Symbol.kind
  cases b.isInterface <;> rfl

theorem mem_members_close {b : Container} {m : Member} (member : m ∈ b.close.members) :
    m ∈ b.collected := by
  unfold close Symbol.members at member
  cases form : b.isInterface with
  | true => exact List.mem_append_left _ (by simpa [form] using member)
  | false => exact List.mem_append_right _ (by simpa [form] using member)

section Throughout

variable {P : Kind → String → Site → Prop} {b : Container} {l : Line}

/-- Something holds of the container, whichever kind it turns out to have, and of its members. -/
def Throughout (P : Kind → String → Site → Prop) (b : Container) : Prop :=
  (∀ kind : Kind, kind.isContainer = true → P kind b.name b.site) ∧
    ∀ m ∈ b.collected, P m.kind m.name m.site

theorem Throughout.grown (throughout : b.Throughout P)
    (declared : ∀ kind name site, l.Declares kind name site → P kind name site) :
    (b.grown l).Throughout P := by
  obtain ⟨own, members⟩ := throughout
  obtain ⟨name, site⟩ := b.grown_site l
  refine ⟨fun kind contains => by rw [name, site]; exact own kind contains, fun m member => ?_⟩
  rcases mem_collected_grown member with before | ⟨entry, declares, rfl⟩
  · exact members m before
  · exact declared _ _ _ (declared?_declares declares)

theorem Throughout.close (throughout : b.Throughout P) : b.close.Throughout P :=
  ⟨throughout.1 _ b.isContainer_close, fun m member => throughout.2 m (mem_members_close member)⟩

end Throughout

end Container

namespace Reading

/-- The reading with the comment state that a line leaves. -/
def commented (r : Reading) (l : Line) : Reading :=
  { r with inComment := (Comment.read r.inComment l.trimmed).leavesOpen }

/-- Everything that a line can do, with the conditions under which it does so. -/
inductive Outcome (r : Reading) (l : Line) : Reading × Option Symbol → Prop where
  | blank (empty : l.trimmed = []) : Outcome r l (r.note l, none)
  | comment (is : (Comment.read r.inComment l.trimmed).isComment = true) :
      Outcome r l ((r.note l).commented l, none)
  | nested (code : l.IsCode r.inComment) (free : r.container = none) (deep : r.depth ≠ 0) :
      Outcome r l
        ({ r.commented l with depth := max 0 (r.depth + braceBalance l.trimmed) }, none)
  | declared (code : l.IsCode r.inComment) (free : r.container = none) (top : r.depth = 0)
      (headless : Shape.containerHead? l.trimmed = none) :
      Outcome r l
        ({ r.commented l with depth := max 0 (r.depth + braceBalance l.trimmed) }, topLevel? l)
  | opened (code : l.IsCode r.inComment) (free : r.container = none) (top : r.depth = 0)
      (head : Shape.Head) (heads : Shape.containerHead? l.trimmed = some head)
      (positive : 0 < braceBalance l.trimmed) :
      Outcome r l ({ r.commented l with container := some (Container.ofHead l head) }, none)
  | whole (code : l.IsCode r.inComment) (free : r.container = none) (top : r.depth = 0)
      (head : Shape.Head) (heads : Shape.containerHead? l.trimmed = some head)
      (closes : braceBalance l.trimmed ≤ 0) :
      Outcome r l (r.commented l, some (Container.ofHead l head).close)
  | grown (code : l.IsCode r.inComment) (b : Container) (inside : r.container = some b)
      (positive : 0 < b.depth + braceBalance l.trimmed) :
      Outcome r l ({ r.commented l with container := some (b.grown l) }, none)
  | closed (code : l.IsCode r.inComment) (b : Container) (inside : r.container = some b)
      (closes : b.depth + braceBalance l.trimmed ≤ 0) :
      Outcome r l ({ r.commented l with container := none }, some (b.noting l).close)

/-- What a line declares at the top level: a function unless it is called a constructor, or else a
constant. -/
theorem topLevel?_some {l : Line} {s : Symbol} (declares : topLevel? l = some s) :
    (∃ c, Shape.callable? l.trimmed = some c ∧ c.name ≠ Shape.constructorName ∧
      s = ⟨c.name, l.site 0 c.name (Container.bodyStop l c.body), .function c.signature⟩) ∨
    Shape.callable? l.trimmed = none ∧ ∃ c, Shape.constant? l.trimmed = some c ∧
      s = ⟨c.name, l.site c.nameAt c.name l.stop, .constant c.value⟩ := by
  obtain ⟨read, rule, rfl⟩ := Option.map_eq_some_iff.mp declares
  rcases Shape.topLine?_some rule with ⟨c, reads, named, rfl⟩ | ⟨bodiless, c, reads, rfl⟩
  · exact .inl ⟨c, reads, named, rfl⟩
  · exact .inr ⟨bodiless, c, reads, rfl⟩

theorem note_of_free {r : Reading} (free : r.container = none) (l : Line) : r.note l = r := by
  obtain ⟨inComment, container, depth⟩ := r
  subst free
  rfl

theorem step_outcome (r : Reading) (l : Line) : Outcome r l (r.step l) := by
  by_cases empty : l.trimmed = []
  · have stays : r.step l = (r.note l, none) := by simp [step, empty]
    rw [stays]
    exact .blank empty
  cases is : (Comment.read r.inComment l.trimmed).isComment with
  | true =>
    have stays : r.step l = ((r.note l).commented l, none) := by
      simp [step, empty, note, is, commented]
    rw [stays]
    exact .comment is
  | false =>
    have code : l.IsCode r.inComment := ⟨empty, is⟩
    have reads : r.step l = ((r.note l).commented l).codeStep l := by
      simp [step, empty, note, is, commented]
    rw [reads]
    cases inside : r.container with
    | some b =>
      have body : ((r.note l).commented l).codeStep l =
          ((r.note l).commented l).bodyStep (b.noting l) l := by
        simp [codeStep, commented, note, inside, Container.noting]
      rw [body, bodyStep]
      by_cases closes : (b.noting l).depth + braceBalance l.trimmed ≤ 0
      · rw [if_pos closes]
        exact .closed code b inside closes
      · rw [if_neg closes]
        exact .grown code b inside (Int.not_le.mp closes)
    | none =>
      have top : ((r.note l).commented l).codeStep l = (r.commented l).topStep l := by
        simp [codeStep, note_of_free inside, commented, inside]
      rw [top, topStep]
      by_cases deep : r.depth = 0
      · have level : ¬ (r.commented l).depth ≠ 0 := by simpa [commented] using deep
        rw [if_neg level]
        cases heads : Shape.containerHead? l.trimmed with
        | none => exact .declared code inside deep heads
        | some head =>
          by_cases closes : braceBalance l.trimmed ≤ 0
          · have whole : (Container.ofHead l head).depth ≤ 0 := closes
            simp only [whole, ↓reduceIte]
            exact .whole code inside deep head heads closes
          · have opens : ¬ (Container.ofHead l head).depth ≤ 0 := closes
            simp only [opens, ↓reduceIte]
            exact .opened code inside deep head heads (Int.not_le.mp closes)
      · have level : (r.commented l).depth ≠ 0 := deep
        rw [if_pos level]
        exact .nested code inside deep

theorem after_append (r : Reading) (a b : List Line) :
    r.after (a ++ b) = (r.after a).after b := by
  simp [after]

theorem after_cons (r : Reading) (l : Line) (later : List Line) :
    r.after (l :: later) = (r.step l).1.after later := rfl

theorem symbols_cons (r : Reading) (l : Line) (later : List Line) :
    r.symbols (l :: later) = (r.step l).2.toList ++ (r.step l).1.symbols later := by
  rw [symbols]
  split
  · rename_i completes
    simp [completes]
  · rename_i completes
    simp [completes]

theorem symbols_append (r : Reading) (a b : List Line) :
    r.symbols (a ++ b) = r.symbols a ++ (r.after a).symbols b := by
  induction a generalizing r with
  | nil => rfl
  | cons l a ih => rw [List.cons_append, symbols_cons, symbols_cons, ih, after_cons, List.append_assoc]

theorem after_concat (r : Reading) (lines : List Line) (l : Line) :
    r.after (lines ++ [l]) = ((r.after lines).step l).1 := after_append r lines [l]

/-- What every line keeps of the reading before it, and says of the symbol that it completes, holds of all
symbols of a run. -/
theorem symbols_of_steps {I : Reading → Prop} {S : Symbol → Prop} {r : Reading} {lines : List Line}
    (holds : I r)
    (step : ∀ before l after, lines = before ++ l :: after → I (r.after before) →
      I ((r.after before).step l).1 ∧ ∀ s, ((r.after before).step l).2 = some s → S s) :
    ∀ s ∈ r.symbols lines, S s := by
  intro s member
  induction lines generalizing r with
  | nil => cases member
  | cons l later ih =>
    obtain ⟨kept, here⟩ := step [] l later rfl holds
    rw [symbols_cons, List.mem_append, Option.mem_toList] at member
    rcases member with completes | below
    · exact here s completes
    · refine ih kept ?_ below
      intro before l' after split
      exact step (l :: before) l' after (congrArg (l :: ·) split)

/-- Every symbol is completed by one of the lines. -/
theorem mem_symbols_iff {r : Reading} {lines : List Line} {s : Symbol} :
    s ∈ r.symbols lines ↔
      ∃ above l rest, lines = above ++ l :: rest ∧ ((r.after above).step l).2 = some s := by
  have placed : ∀ s ∈ r.symbols lines,
      ∃ above l rest, lines = above ++ l :: rest ∧ ((r.after above).step l).2 = some s := by
    refine symbols_of_steps (I := fun _ => True) trivial ?_
    intro above l rest split _
    exact ⟨trivial, fun s completes => ⟨above, l, rest, split, completes⟩⟩
  constructor
  · exact placed s
  · rintro ⟨above, l, rest, rfl, completes⟩
    rw [symbols_append, symbols_cons, completes]
    simp

/-- A container that is open after a line was open before it, or its head is on the line. -/
theorem step_container {r : Reading} {l : Line} {b : Container}
    (isOpen : (r.step l).1.container = some b) :
    (∃ b', r.container = some b' ∧ b.site = b'.site) ∨ r.container = none ∧ l.Hosts b.site := by
  generalize next : r.step l = result at isOpen
  cases next ▸ step_outcome r l with
  | blank | comment =>
    obtain ⟨b', inside, rfl⟩ := Option.map_eq_some_iff.mp isOpen
    exact .inl ⟨b', inside, rfl⟩
  | nested _ free | declared _ free | whole _ free =>
    exact absurd (free.symm.trans isOpen) (by simp)
  | opened _ free _ head =>
    obtain rfl := Option.some.inj isOpen
    exact .inr ⟨free, 0, head.name, _, rfl⟩
  | grown _ b' inside =>
    obtain rfl := Option.some.inj isOpen
    exact .inl ⟨b', inside, (b'.grown_site l).2⟩
  | closed => simp at isOpen

/-- A line that completes a symbol leaves no container open, and the symbol is that of the open
container or stands on the line itself. -/
theorem step_symbol {r : Reading} {l : Line} {s : Symbol} (completes : (r.step l).2 = some s) :
    (r.step l).1.container = none ∧
      ((∃ b, r.container = some b ∧ s.site = b.site) ∨ r.container = none ∧ l.Hosts s.site) := by
  generalize next : r.step l = result at completes
  cases next ▸ step_outcome r l with
  | blank | comment | nested | opened | grown => simp at completes
  | declared _ free =>
    refine ⟨free, .inr ⟨free, ?_⟩⟩
    rcases topLevel?_some completes with ⟨c, -, -, rfl⟩ | ⟨-, c, -, rfl⟩
    · exact ⟨_, _, _, rfl⟩
    · exact ⟨_, _, _, rfl⟩
  | whole _ free _ head =>
    obtain rfl := Option.some.inj completes
    exact ⟨free, .inr ⟨free, 0, head.name, _, rfl⟩⟩
  | closed _ b inside =>
    obtain rfl := Option.some.inj completes
    exact ⟨rfl, .inl ⟨b, inside, rfl⟩⟩

/-- Whatever holds of all sites on the lines that are read, and of that of the container which is
open before them, holds of the sites of all symbols. -/
theorem symbols_sites {P : Site → Prop} {lines : List Line} {r : Reading}
    (inside : ∀ b, r.container = some b → P b.site)
    (hosted : ∀ l ∈ lines, ∀ site, l.Hosts site → P site) :
    ∀ s ∈ r.symbols lines, P s.site := by
  refine symbols_of_steps (I := fun r => ∀ b, r.container = some b → P b.site) inside ?_
  intro before l after split inside
  have here := hosted l (split ▸ List.mem_append_right _ List.mem_cons_self)
  constructor
  · intro b isOpen
    obtain ⟨b', before, same⟩ | ⟨-, hosts⟩ := step_container isOpen
    · exact same ▸ inside b' before
    · exact here _ hosts
  · intro s completes
    obtain ⟨-, ⟨b, isOpen, same⟩ | ⟨-, hosts⟩⟩ := step_symbol completes
    · exact same ▸ inside b isOpen
    · exact here _ hosts

section Throughout

variable {P : Kind → String → Site → Prop}

theorem topLevel?_throughout {l : Line} {s : Symbol} (declares : topLevel? l = some s)
    (declared : ∀ kind name site, l.Declares kind name site → P kind name site) :
    s.Throughout P := by
  rcases topLevel?_some declares with ⟨c, reads, -, rfl⟩ | ⟨-, c, reads, rfl⟩
  · exact ⟨declared _ _ _ (.callable rfl reads), fun _ member => nomatch member⟩
  · exact ⟨declared _ _ _ (.constant reads), fun _ member => nomatch member⟩

/-- Whatever holds of all that a line of code declares is kept by the line: if it holds of the
container that is open, it holds of the one that is open afterwards and of the symbol that is
completed. -/
theorem step_throughout {r : Reading} {l : Line}
    (inside : ∀ b, r.container = some b → b.Throughout P)
    (declared : l.IsCode r.inComment → ∀ kind name site, l.Declares kind name site →
      P kind name site) :
    (∀ b, (r.step l).1.container = some b → b.Throughout P) ∧
      ∀ s, (r.step l).2 = some s → s.Throughout P := by
  have headed (code : l.IsCode r.inComment) {head : Shape.Head}
      (heads : Shape.containerHead? l.trimmed = some head) :
      (Container.ofHead l head).Throughout P :=
    ⟨fun _ contains => declared code _ _ _ (.container contains heads), fun _ member => nomatch member⟩
  have noted (b : Container) (isOpen : (r.note l).container = some b) : b.Throughout P := by
    obtain ⟨b', before, rfl⟩ := Option.map_eq_some_iff.mp isOpen
    exact inside b' before
  generalize next : r.step l = result
  cases next ▸ step_outcome r l with
  | blank | comment => exact ⟨noted, nofun⟩
  | nested => exact ⟨inside, nofun⟩
  | declared code =>
    exact ⟨inside, fun s completes => topLevel?_throughout completes (declared code)⟩
  | opened code _ _ _ heads =>
    refine ⟨?_, nofun⟩
    rintro _ ⟨⟩
    exact headed code heads
  | whole code _ _ _ heads =>
    refine ⟨inside, ?_⟩
    rintro _ ⟨⟩
    exact (headed code heads).close
  | grown code b isOpen =>
    refine ⟨?_, nofun⟩
    rintro _ ⟨⟩
    exact (inside b isOpen).grown (declared code)
  | closed _ b isOpen =>
    refine ⟨nofun, ?_⟩
    rintro _ ⟨⟩
    exact Container.Throughout.close (inside b isOpen)

/-- Whatever holds of all that the lines of code declare holds of all symbols and their members. -/
theorem symbols_throughout {r : Reading} {lines : List Line}
    (inside : ∀ b, r.container = some b → b.Throughout P)
    (declared : ∀ before l after, lines = before ++ l :: after →
      l.IsCode (r.after before).inComment → ∀ kind name site, l.Declares kind name site →
      P kind name site) :
    ∀ s ∈ r.symbols lines, s.Throughout P := by
  refine symbols_of_steps (I := fun r => ∀ b, r.container = some b → b.Throughout P) inside ?_
  intro before l after split inside
  exact step_throughout inside (declared before l after split)

end Throughout

section Origin

variable {Q : Container → Prop}

/-- What holds of a container from its head on and is kept by the lines that follow holds of it where it
is closed. A line completes such a container, or what it declares at the top level. -/
theorem step_origin {r : Reading} {l : Line} (inside : ∀ b, r.container = some b → Q b)
    (heads : ∀ head, Shape.containerHead? l.trimmed = some head → Q (Container.ofHead l head))
    (notes : ∀ b, Q b → Q (b.noting l)) (grows : ∀ b, Q b → Q (b.grown l)) :
    (∀ b, (r.step l).1.container = some b → Q b) ∧
      ∀ s, (r.step l).2 = some s → topLevel? l = some s ∨ ∃ b, Q b ∧ s = b.close := by
  have noted (b : Container) (isOpen : (r.note l).container = some b) : Q b := by
    obtain ⟨b', before, rfl⟩ := Option.map_eq_some_iff.mp isOpen
    exact notes b' (inside b' before)
  generalize next : r.step l = result
  cases next ▸ step_outcome r l with
  | blank | comment => exact ⟨noted, nofun⟩
  | nested => exact ⟨inside, nofun⟩
  | declared => exact ⟨inside, fun s completes => .inl completes⟩
  | opened _ _ _ head declares =>
    refine ⟨?_, nofun⟩
    rintro _ ⟨⟩
    exact heads head declares
  | whole _ _ _ head declares =>
    refine ⟨inside, ?_⟩
    rintro _ ⟨⟩
    exact .inr ⟨_, heads head declares, rfl⟩
  | grown _ b isOpen =>
    refine ⟨?_, nofun⟩
    rintro _ ⟨⟩
    exact grows b (inside b isOpen)
  | closed _ b isOpen =>
    refine ⟨nofun, ?_⟩
    rintro _ ⟨⟩
    exact .inr ⟨_, notes b (inside b isOpen), rfl⟩

/-- A symbol is what a line declares at the top level, or a container that has been closed. -/
theorem symbols_origin {r : Reading} {lines : List Line} (inside : ∀ b, r.container = some b → Q b)
    (heads : ∀ l ∈ lines, ∀ head, Shape.containerHead? l.trimmed = some head →
      Q (Container.ofHead l head))
    (notes : ∀ l ∈ lines, ∀ b, Q b → Q (b.noting l)) (grows : ∀ l ∈ lines, ∀ b, Q b → Q (b.grown l)) :
    ∀ s ∈ r.symbols lines,
      (∃ l ∈ lines, topLevel? l = some s) ∨ ∃ b : Container, Q b ∧ s = b.close := by
  refine symbols_of_steps (I := fun r => ∀ b, r.container = some b → Q b) inside ?_
  intro before l after split inside
  have member : l ∈ lines := split ▸ List.mem_append_right _ List.mem_cons_self
  obtain ⟨stays, completed⟩ := step_origin inside (heads l member) (notes l member) (grows l member)
  refine ⟨stays, ?_⟩
  intro s completes
  exact (completed s completes).imp_left fun declares => ⟨l, member, declares⟩

end Origin

end Reading

/-- Whatever holds of all that lines of a document can declare holds of its symbols and their members. -/
theorem Model.throughout_of_declares {d : Document} {P : Kind → String → Site → Prop}
    (declared : ∀ l ∈ d.lines, ∀ kind name site, l.Declares kind name site → P kind name site) :
    ∀ s ∈ (Model.ofDocument d).symbols, s.Throughout P := by
  apply Reading.symbols_throughout
  · intro b isOpen
    cases isOpen
  · intro before l after split _
    exact declared l (split ▸ List.mem_append_right _ List.mem_cons_self)

end SymbolIndex
