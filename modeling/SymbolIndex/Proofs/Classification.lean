import SymbolIndex.Proofs.Depths

/-! What a block turns out to be. Reading settles it on the closing line, from flags and lists that were kept
below the head; here a block is a stretch of lines, and what it declares is said of these lines alone: which
of them are code, how deep they stand, which continue a parameter list, and what each declares when it is
read by itself. An open container has at every line just what the lines of its block so far say, and so the
containers of a document are what its blocks say, neither more nor less. -/
namespace SymbolIndex

/-- The items of a list that meet a condition on themselves and on all items above them. -/
def filterBelow {α : Type} (p : List α → α → Prop) [∀ above x, Decidable (p above x)] (above : List α) :
    List α → List α
  | [] => []
  | x :: later =>
    let others := filterBelow p (above ++ [x]) later
    if p above x then x :: others else others

section FilterBelow

variable {α : Type} {p : List α → α → Prop} [∀ above x, Decidable (p above x)] {above : List α}

theorem filterBelow_append (a b : List α) :
    filterBelow p above (a ++ b) = filterBelow p above a ++ filterBelow p (above ++ a) b := by
  induction a generalizing above with
  | nil => rw [List.nil_append, List.append_nil, filterBelow, List.nil_append]
  | cons x a ih =>
    rw [List.cons_append, filterBelow, filterBelow, ih, List.append_assoc, List.singleton_append]
    split
    · rfl
    · rfl

theorem filterBelow_concat (a : List α) (x : α) :
    filterBelow p above (a ++ [x]) =
      filterBelow p above a ++ if p (above ++ a) x then [x] else [] := by
  rw [filterBelow_append]
  rfl

end FilterBelow

namespace Line

/-- The method that a line declares without a body. -/
def signed? (l : Line) : Option Member :=
  (Shape.signature? l.trimmed).map fun (name, signature) =>
    { name, site := l.site 0 name l.stop, form := .method signature }

/-- The member of a class that a line declares: a callable with a body, else a callable whose parameters go
on below, else a field, unless the line is a method without a body. -/
def implemented? (l : Line) : Option Member :=
  if (Shape.signature? l.trimmed).isSome then none
  else
    (((Shape.callable? l.trimmed).map fun c =>
        { name := c.name
          site := l.site 0 c.name (Container.bodyStop l c.body)
          form := Container.callableForm c.name c.signature }).or
      ((Shape.wrapped? l.trimmed).map fun (name, parameters) =>
        { name
          site := l.site 0 name l.stop
          form := Container.callableForm name ⟨parameters, none⟩ })).or
      ((Shape.field? l.trimmed).map fun f =>
        { name := f.name, site := l.site 0 f.name l.stop, form := .field f.type })

/-- Whether a line declares what no interface has: a callable with a body, or a field. -/
def showsBody (l : Line) : Bool :=
  (Shape.signature? l.trimmed).isNone &&
    ((Shape.callable? l.trimmed).isSome ||
      (Shape.wrapped? l.trimmed).isNone && (Shape.field? l.trimmed).isSome)

/-- Whether a line is a callable whose parameters go on below it. -/
def opensParameters (l : Line) : Bool :=
  (Shape.signature? l.trimmed).isNone && (Shape.callable? l.trimmed).isNone &&
    (Shape.wrapped? l.trimmed).isSome

end Line

namespace Block

/-- Whether a block comment is open below some lines, given whether one is open above them. -/
def inComment (isOpen : Bool) (lines : List Line) : Bool :=
  lines.foldl (fun inside l => (Comment.read inside l.trimmed).leavesOpen) isOpen

variable (isOpen : Bool)

/-- The lines of code among some lines. -/
def code (lines : List Line) : List Line :=
  filterBelow (fun above l => l.IsCode (inComment isOpen above)) [] lines

/-- The depth of braces below some lines, of which only those of code count. -/
def depth (lines : List Line) : Int :=
  (code isOpen lines).foldl (fun level l => level + braceBalance l.trimmed) 0

/-- A line of code stands directly in the body of the block that the lines above it begin. -/
def Direct (above : List Line) (l : Line) : Prop :=
  l.IsCode (inComment isOpen above) ∧ depth isOpen above = 1

instance (above : List Line) (l : Line) : Decidable (Direct isOpen above l) := instDecidableAnd

/-- The lines that stand directly in the body. -/
def body (lines : List Line) : List Line := filterBelow (Direct isOpen) [] lines

/-- Whether a parameter list is open below some lines of a body: one that is not part of another has been
opened, and no line since has a closing parenthesis. -/
def inParameters (body : List Line) : Bool :=
  body.foldl (fun inside l => if inside then !l.trimmed.contains ')' else l.opensParameters) false

/-- A line directly in the body that continues no parameter list. -/
def Declaring (above : List Line) (l : Line) : Prop :=
  Direct isOpen above l ∧ inParameters (body isOpen above) = false

instance (above : List Line) (l : Line) : Decidable (Declaring isOpen above l) := instDecidableAnd

/-- The lines below a head that declare members. -/
def declaring (head : Line) (inner : List Line) : List Line := filterBelow (Declaring isOpen) [head] inner

variable {isOpen} {head : Line} {lines : List Line} {l : Line}

theorem inComment_concat :
    inComment isOpen (lines ++ [l]) = (Comment.read (inComment isOpen lines) l.trimmed).leavesOpen := by
  rw [inComment, List.foldl_append]
  rfl

theorem code_concat : code isOpen (lines ++ [l]) =
    code isOpen lines ++ if l.IsCode (inComment isOpen lines) then [l] else [] :=
  filterBelow_concat lines l

theorem depth_of_code (code : l.IsCode (inComment isOpen lines)) :
    depth isOpen (lines ++ [l]) = depth isOpen lines + braceBalance l.trimmed := by
  rw [depth, code_concat, if_pos code, List.foldl_append]
  rfl

/-- Blank lines and comments leave the depth as it is. -/
theorem depth_of_skipped (skipped : ¬ l.IsCode (inComment isOpen lines)) :
    depth isOpen (lines ++ [l]) = depth isOpen lines := by
  rw [depth, code_concat, if_neg skipped, List.append_nil]
  rfl

theorem depth_head (code : head.IsCode isOpen) : depth isOpen [head] = braceBalance head.trimmed := by
  have first : depth isOpen ([] ++ [head]) = depth isOpen [] + braceBalance head.trimmed :=
    depth_of_code code
  exact first.trans (Int.zero_add _)

theorem body_of_direct (direct : Direct isOpen lines l) :
    body isOpen (lines ++ [l]) = body isOpen lines ++ [l] := by
  rw [body, filterBelow_concat, List.nil_append, if_pos direct]
  rfl

theorem body_of_indirect (indirect : ¬ Direct isOpen lines l) :
    body isOpen (lines ++ [l]) = body isOpen lines := by
  rw [body, filterBelow_concat, List.nil_append, if_neg indirect, List.append_nil]
  rfl

theorem inParameters_concat : inParameters (lines ++ [l]) =
    if inParameters lines then !l.trimmed.contains ')' else l.opensParameters := by
  rw [inParameters, List.foldl_append]
  rfl

/-- The head of a block declares nothing in it. -/
theorem body_head : body isOpen [head] = [] := by
  have outside : ¬ Direct isOpen [] head := by
    rintro ⟨-, level⟩
    cases level
  rw [body, filterBelow, filterBelow, if_neg outside]

theorem declaring_of_silent (silent : ¬ Declaring isOpen (head :: lines) l) :
    declaring isOpen head (lines ++ [l]) = declaring isOpen head lines := by
  rw [declaring, filterBelow_concat, List.singleton_append, if_neg silent, List.append_nil]
  rfl

theorem declaring_of_declaring (declares : Declaring isOpen (head :: lines) l) :
    declaring isOpen head (lines ++ [l]) = declaring isOpen head lines ++ [l] := by
  rw [declaring, filterBelow_concat, List.singleton_append, if_pos declares]
  rfl

theorem declaring_of_indirect (indirect : ¬ Direct isOpen (head :: lines) l) :
    declaring isOpen head (lines ++ [l]) = declaring isOpen head lines :=
  declaring_of_silent fun declares => indirect declares.1

end Block

namespace Container

variable {b : Container} {l : Line}

/-- What one line adds to a container, outside parameter lists. -/
theorem collect_line (outside : b.inParameters = false) :
    b.collect l = { b with
      signatures := b.signatures ++ l.signed?.toArray
      members := b.members ++ l.implemented?.toArray
      hasBody := b.hasBody || l.showsBody
      inParameters := l.opensParameters } := by
  rw [collect, if_neg (Bool.eq_false_iff.mp outside)]
  generalize found : declared? l = finding
  cases found ▸ declared?_finds l with
  | signature reads =>
    simp [Line.signed?, Line.implemented?, Line.showsBody, Line.opensParameters, reads, outside]
  | callable unsigned reads =>
    simp [Line.signed?, Line.implemented?, Line.showsBody, Line.opensParameters, unsigned, reads, outside]
  | wrapped unsigned bodiless reads =>
    simp [Line.signed?, Line.implemented?, Line.showsBody, Line.opensParameters, unsigned, bodiless, reads]
  | field unsigned bodiless unwrapped reads =>
    simp [Line.signed?, Line.implemented?, Line.showsBody, Line.opensParameters, unsigned, bodiless,
      unwrapped, reads, outside]
  | nothing unsigned bodiless unwrapped fieldless =>
    -- Such a line leaves the container alone; that it opens no parameter list is what holds already.
    obtain ⟨name, site, implements, depth, mentionsConstructor, signatures, members, hasBody, _⟩ := b
    subst outside
    simp [Line.signed?, Line.implemented?, Line.showsBody, Line.opensParameters, unsigned, bodiless,
      unwrapped, fieldless]

/-- What an open container holds, by the lines that it has taken note of, those that declare its members and
those directly in its body. -/
structure Holds (head : Line) (heading : Shape.Head) (noted declaring body : List Line) (depth : Int)
    (b : Container) : Prop where
  name : b.name = heading.name
  site : b.site = head.site 0 heading.name (head.blockStop heading.braceAt)
  implements : b.implements = heading.implements
  depth : b.depth = depth
  mentionsConstructor : b.mentionsConstructor = noted.any mentions
  signatures : b.signatures.toList = declaring.filterMap Line.signed?
  members : b.members.toList = declaring.filterMap Line.implemented?
  hasBody : b.hasBody = declaring.any Line.showsBody
  inParameters : b.inParameters = Block.inParameters body

/-- An open container holds what the lines below its head say, once it has taken note of some lines. -/
def Describes (isOpen : Bool) (head : Line) (heading : Shape.Head) (noted inner : List Line)
    (b : Container) : Prop :=
  b.Holds head heading noted (Block.declaring isOpen head inner) (Block.body isOpen (head :: inner))
    (Block.depth isOpen (head :: inner))

section Describes

variable {isOpen : Bool} {head : Line} {heading : Shape.Head} {noted inner : List Line}

section Holds

variable {declaring body : List Line} {depth : Int}

theorem Holds.noting (holds : b.Holds head heading noted declaring body depth) (l : Line) :
    (b.noting l).Holds head heading (noted ++ [l]) declaring body depth :=
  { holds with
    mentionsConstructor := by
      rw [Container.noting, holds.mentionsConstructor, List.any_append, List.any_cons, List.any_nil,
        Bool.or_false] }

/-- A line that goes on with a parameter list declares nothing. -/
theorem Holds.continue (holds : b.Holds head heading noted declaring body depth)
    (inside : Block.inParameters body = true) :
    (b.collect l).Holds head heading noted declaring (body ++ [l]) depth := by
  rw [collect, if_pos (holds.inParameters.trans inside)]
  refine { holds with inParameters := ?_ }
  rw [Block.inParameters_concat, if_pos inside]

/-- Any other line directly in the body declares what it does by itself. -/
theorem Holds.declare (holds : b.Holds head heading noted declaring body depth)
    (outside : Block.inParameters body = false) :
    (b.collect l).Holds head heading noted (declaring ++ [l]) (body ++ [l]) depth := by
  have alone {α : Type} (read : Line → Option α) : [l].filterMap read = (read l).toList := by
    cases reads : read l <;> simp [reads]
  rw [collect_line (holds.inParameters.trans outside)]
  constructor
  · exact holds.name
  · exact holds.site
  · exact holds.implements
  · exact holds.depth
  · exact holds.mentionsConstructor
  · simp [holds.signatures, alone]
  · simp [holds.members, alone]
  · simp [holds.hasBody]
  · simp [Block.inParameters_concat, outside]

end Holds

theorem describes_ofHead (code : head.IsCode isOpen) :
    (ofHead head heading).Describes isOpen head heading [head] [] where
  name := rfl
  site := rfl
  implements := rfl
  depth := by
    rw [Block.depth_head code]
    rfl
  mentionsConstructor := by simp [ofHead]
  signatures := rfl
  members := rfl
  hasBody := rfl
  inParameters := by
    rw [Block.body_head]
    rfl

/-- A line that is no code says nothing about the block. -/
theorem Describes.skip (describes : b.Describes isOpen head heading noted inner)
    (skipped : ¬ l.IsCode (Block.inComment isOpen (head :: inner))) :
    b.Describes isOpen head heading noted (inner ++ [l]) := by
  have indirect : ¬ Block.Direct isOpen (head :: inner) l := fun direct => skipped direct.1
  rw [Describes, ← List.cons_append, Block.declaring_of_indirect indirect,
    Block.body_of_indirect indirect, Block.depth_of_skipped skipped]
  exact describes

/-- A line of code changes the depth, and directly in the body it also changes what is declared there. -/
theorem Describes.grown (describes : b.Describes isOpen head heading noted inner)
    (code : l.IsCode (Block.inComment isOpen (head :: inner))) :
    (b.grown l).Describes isOpen head heading (noted ++ [l]) (inner ++ [l]) := by
  have holds := Holds.noting describes l
  rw [Describes, ← List.cons_append, Block.depth_of_code code, ← describes.depth]
  unfold Container.grown
  dsimp only
  split
  · next level =>
    have direct : Block.Direct isOpen (head :: inner) l := ⟨code, describes.depth ▸ level⟩
    rw [Block.body_of_direct direct]
    cases inside : Block.inParameters (Block.body isOpen (head :: inner)) with
    | true =>
      have silent : ¬ Block.Declaring isOpen (head :: inner) l :=
        fun declares => Bool.noConfusion (inside.symm.trans declares.2)
      rw [Block.declaring_of_silent silent]
      exact { holds.continue inside with depth := rfl }
    | false =>
      rw [Block.declaring_of_declaring ⟨direct, inside⟩]
      exact { holds.declare inside with depth := rfl }
  · next level =>
    have indirect : ¬ Block.Direct isOpen (head :: inner) l :=
      fun direct => level (describes.depth.trans direct.2)
    rw [Block.declaring_of_indirect indirect, Block.body_of_indirect indirect]
    exact { holds with depth := rfl }

end Describes

end Container

namespace Reading

theorem after_inComment (r : Reading) (lines : List Line) :
    (r.after lines).inComment = Block.inComment r.inComment lines := by
  induction lines generalizing r with
  | nil => rfl
  | cons l later ih =>
    rw [after_cons, ih, step_inComment]
    rfl

/-- A reading inside a block: what is open has been described by all lines from the head on. -/
structure Within (isOpen : Bool) (head : Line) (heading : Shape.Head) (inner : List Line) (b : Container)
    (r : Reading) : Prop where
  inside : r.container = some b
  inComment : r.inComment = Block.inComment isOpen (head :: inner)
  positive : 0 < Block.depth isOpen (head :: inner)
  describes : b.Describes isOpen head heading (head :: inner) inner

section Within

variable {r : Reading} {isOpen : Bool} {head l : Line} {heading : Shape.Head} {inner : List Line}
  {b : Container}

/-- A head opens a block, or its own braces close it again. -/
theorem head_outcome (free : r.container = none) (top : r.depth = 0) (isCode : head.IsCode r.inComment)
    (heads : Shape.containerHead? head.trimmed = some heading) :
    (r.step head).1.Within r.inComment head heading [] (Container.ofHead head heading) ∨
      Block.depth r.inComment [head] ≤ 0 ∧
        (r.step head).2 = some (Container.ofHead head heading).close := by
  have inComment := r.step_inComment head
  have describes : (Container.ofHead head heading).Describes r.inComment head heading [head] [] :=
    Container.describes_ofHead isCode
  have depth := Block.depth_head isCode
  generalize next : r.step head = result at inComment
  cases next ▸ step_outcome r head with
  | blank empty => exact absurd empty isCode.1
  | comment is => exact Bool.noConfusion (is.symm.trans isCode.2)
  | nested _ _ deep => exact absurd top deep
  | declared _ _ _ headless => cases headless.symm.trans heads
  | opened _ _ _ heading' heads' positive =>
    obtain rfl : heading = heading' := Option.some.inj (heads.symm.trans heads')
    exact .inl ⟨rfl, inComment, depth ▸ positive, describes⟩
  | whole _ _ _ heading' heads' closes =>
    obtain rfl : heading = heading' := Option.some.inj (heads.symm.trans heads')
    exact .inr ⟨depth ▸ closes, rfl⟩
  | grown _ b inside | closed _ b inside => cases free.symm.trans inside

/-- A line belongs to the block that is open, or it closes the block. -/
theorem Within.step (within : r.Within isOpen head heading inner b) (l : Line) :
    (∃ b', (r.step l).1.Within isOpen head heading (inner ++ [l]) b') ∨
      Block.depth isOpen (head :: (inner ++ [l])) ≤ 0 ∧
        ∃ b' : Container, b'.Describes isOpen head heading (head :: (inner ++ [l])) inner ∧
          (r.step l).2 = some b'.close := by
  obtain ⟨inside, known, positive, describes⟩ := within
  have noted : (b.noting l).Describes isOpen head heading (head :: (inner ++ [l])) inner :=
    Container.Holds.noting describes l
  have stays : (r.note l).container = some (b.noting l) := by
    rw [Reading.note, inside]
    rfl
  have inComment : (r.step l).1.inComment = Block.inComment isOpen (head :: (inner ++ [l])) := by
    rw [step_inComment, known, ← List.cons_append, Block.inComment_concat]
  -- A line that is no code is noted all the same, and it cannot close the block.
  have skipped (comment : ¬ l.IsCode (Block.inComment isOpen (head :: inner))) :
      0 < Block.depth isOpen (head :: (inner ++ [l])) ∧
        (b.noting l).Describes isOpen head heading (head :: (inner ++ [l])) (inner ++ [l]) := by
    refine ⟨?_, noted.skip comment⟩
    rw [← List.cons_append, Block.depth_of_skipped comment]
    exact positive
  have deepens (code : l.IsCode (Block.inComment isOpen (head :: inner))) :
      Block.depth isOpen (head :: (inner ++ [l])) = b.depth + braceBalance l.trimmed := by
    rw [← List.cons_append, Block.depth_of_code code, describes.depth]
  rw [← known] at skipped deepens
  generalize next : r.step l = result at inComment
  cases next ▸ step_outcome r l with
  | blank empty =>
    obtain ⟨deep, describes'⟩ := skipped fun code => code.1 empty
    exact .inl ⟨_, stays, inComment, deep, describes'⟩
  | comment is =>
    obtain ⟨deep, describes'⟩ := skipped fun code => Bool.noConfusion (is.symm.trans code.2)
    exact .inl ⟨_, stays, inComment, deep, describes'⟩
  | nested _ free | declared _ free | opened _ free | whole _ free => cases free.symm.trans inside
  | grown code b' inside' deep =>
    obtain rfl : b = b' := Option.some.inj (inside.symm.trans inside')
    exact .inl ⟨_, rfl, inComment, deepens code ▸ deep, describes.grown (known ▸ code)⟩
  | closed code b' inside' closes =>
    obtain rfl : b = b' := Option.some.inj (inside.symm.trans inside')
    exact .inr ⟨deepens code ▸ closes, _, noted, rfl⟩

end Within

end Reading

/-- A line below some others is read at the top level and is the head of a container. -/
structure Opening (above : List Line) (head : Line) (heading : Shape.Head) : Prop where
  heads : Shape.containerHead? head.trimmed = some heading
  isCode : head.IsCode (Block.inComment false above)
  free : (Reading.start.after above).container = none
  top : (Reading.start.after above).depth = 0

/-- A block of a document: from a head at the top level to the first line that brings the depth back to zero,
which may be that of the head. -/
structure Document.Block (d : Document) where
  above : List Line
  head : Line
  heading : Shape.Head
  below : List Line
  rest : List Line
  lines : d.lines = above ++ head :: (below ++ rest)
  opening : Opening above head heading
  unclosed : ∀ upTo, upTo <+: below → upTo ≠ below →
    0 < Block.depth (Block.inComment false above) (head :: upTo)
  closed : Block.depth (Block.inComment false above) (head :: below) ≤ 0

namespace Document.Block

variable {d : Document} (block : d.Block)

/-- The lines between head and closing line that declare members. -/
def declaring : List Line :=
  SymbolIndex.Block.declaring (SymbolIndex.Block.inComment false block.above) block.head block.below.dropLast

/-- What the lines of a block make of it. It is an interface if and only if it lists no interfaces, none of
its lines mentions a constructor and none that declares a member shows a body; as an interface it has the
methods that are declared without a body, and as a class all that is declared otherwise. -/
structure Yields (s : Symbol) : Prop where
  name : s.name = block.heading.name
  site : s.site = block.head.site 0 block.heading.name (block.head.blockStop block.heading.braceAt)
  isContainer : s.kind.isContainer = true
  isInterface : s.kind = .interfaceType ↔
    block.heading.implements = none ∧ (∀ l ∈ block.head :: block.below, Container.mentions l = false) ∧
      ∀ l ∈ block.declaring, l.showsBody = false
  asInterface : s.kind = .interfaceType → s.members = block.declaring.filterMap Line.signed?
  asClass : s.kind = .classType →
    s.implements = block.heading.implements.getD [] ∧
      s.members = block.declaring.filterMap Line.implemented?

variable {block}

theorem Yields.unique {s s' : Symbol} (yields : block.Yields s) (yields' : block.Yields s') : s = s' := by
  have alike : s.kind = .interfaceType ↔ s'.kind = .interfaceType :=
    yields.isInterface.trans yields'.isInterface.symm
  obtain ⟨name, site, form⟩ := s
  obtain ⟨name', site', form'⟩ := s'
  obtain rfl : name = name' := yields.name.trans yields'.name.symm
  obtain rfl : site = site' := yields.site.trans yields'.site.symm
  congr 1
  cases form with
  | function | constant => cases yields.isContainer
  | interfaceType methods =>
    cases form' with
    | function | constant => cases yields'.isContainer
    | classType => cases alike.mp rfl
    | interfaceType methods' =>
      exact congrArg _ ((yields.asInterface rfl).trans (yields'.asInterface rfl).symm)
  | classType names members =>
    cases form' with
    | function | constant => cases yields'.isContainer
    | interfaceType => cases alike.mpr rfl
    | classType names' members' =>
      obtain ⟨lists, declares⟩ := yields.asClass rfl
      obtain ⟨lists', declares'⟩ := yields'.asClass rfl
      exact congrArg₂ _ (lists.trans lists'.symm) (declares.trans declares'.symm)

/-- A container that holds what the lines of a block say closes with what they make of it. -/
theorem yields_close {b : Container}
    (describes : b.Describes (SymbolIndex.Block.inComment false block.above) block.head block.heading
      (block.head :: block.below) block.below.dropLast) : block.Yields b.close := by
  have isInterface : b.isInterface = true ↔
      block.heading.implements = none ∧ (∀ l ∈ block.head :: block.below, Container.mentions l = false) ∧
        ∀ l ∈ block.declaring, l.showsBody = false := by
    rw [Container.isInterface, describes.implements, describes.mentionsConstructor, describes.hasBody,
      Bool.and_eq_true, Bool.and_eq_true, Option.isNone_iff_eq_none, Bool.not_eq_true', Bool.not_eq_true',
      List.any_eq_false, List.any_eq_false, and_assoc]
    simp only [Bool.not_eq_true, declaring]
  have kind : b.close.kind = .interfaceType ↔ b.isInterface = true := by
    unfold Container.close Symbol.kind
    cases b.isInterface <;> simp
  constructor
  · exact describes.name
  · exact describes.site
  · exact b.isContainer_close
  · exact kind.trans isInterface
  · intro interface
    rw [declaring, ← describes.signatures, Container.close, if_pos (kind.mp interface)]
    rfl
  · intro isClass
    have notInterface : ¬ b.isInterface = true := by
      intro interface
      cases isClass.symm.trans (kind.mpr interface)
    rw [declaring, ← describes.members, ← describes.implements, Container.close, if_neg notInterface]
    exact ⟨rfl, rfl⟩

end Document.Block

namespace Reading

/-- Reading is either inside a block behind its head, or the head closes the block. -/
theorem step_opening {above : List Line} {head : Line} {heading : Shape.Head}
    (opening : Opening above head heading) :
    (start.after (above ++ [head])).Within (Block.inComment false above) head heading []
        (Container.ofHead head heading) ∨
      Block.depth (Block.inComment false above) [head] ≤ 0 ∧
        ((start.after above).step head).2 = some (Container.ofHead head heading).close := by
  have known : Block.inComment false above = (start.after above).inComment :=
    (after_inComment start above).symm
  have isCode := opening.isCode
  rw [known] at isCode
  rw [after_concat, known]
  exact head_outcome opening.free opening.top isCode opening.heads

/-- While no container is open, a line opens or completes one only if it is the head of one. -/
theorem opening_of_free {above : List Line} {l : Line} (free : (start.after above).container = none)
    (contains : (∃ b, ((start.after above).step l).1.container = some b) ∨
      ∃ s, ((start.after above).step l).2 = some s ∧ s.kind.isContainer = true) :
    ∃ heading, Opening above l heading := by
  have known := after_inComment start above
  generalize next : (start.after above).step l = result at contains
  cases next ▸ step_outcome (start.after above) l with
  | blank | comment =>
    rw [note_of_free free] at contains
    rcases contains with ⟨b, isOpen⟩ | ⟨s, ⟨⟩, -⟩
    cases free.symm.trans isOpen
  | nested =>
    rcases contains with ⟨b, isOpen⟩ | ⟨s, ⟨⟩, -⟩
    cases free.symm.trans isOpen
  | declared =>
    rcases contains with ⟨b, isOpen⟩ | ⟨s, declares, contains⟩
    · cases free.symm.trans isOpen
    · rcases topLevel?_some declares with ⟨c, -, -, rfl⟩ | ⟨-, c, -, rfl⟩
      · cases contains
      · cases contains
  | opened isCode _ top heading heads | whole isCode _ top heading heads =>
    exact ⟨heading, heads, known ▸ isCode, free, top⟩
  | grown _ _ inside | closed _ _ inside => cases free.symm.trans inside

/-- An open container is that of a block which no line has closed. -/
theorem exists_opening {lines : List Line} {b : Container}
    (isOpen : (start.after lines).container = some b) :
    ∃ above head heading inner, lines = above ++ head :: inner ∧ Opening above head heading ∧
      (∀ upTo, upTo <+: inner → 0 < Block.depth (Block.inComment false above) (head :: upTo)) ∧
      (start.after lines).Within (Block.inComment false above) head heading inner b := by
  -- On the lines from the end: the last one goes on with the block that was open, or it is a head.
  induction lines using List.reverseRecOn generalizing b with
  | nil => cases isOpen
  | append_singleton lines l ih =>
    cases before : (start.after lines).container with
    | some b' =>
      obtain ⟨above, head, heading, inner, rfl, opening, unclosed, within⟩ := ih before
      rw [after_concat] at isOpen ⊢
      rcases within.step l with ⟨b'', stays⟩ | ⟨-, _, -, completes⟩
      · obtain rfl : b = b'' := Option.some.inj (isOpen.symm.trans stays.inside)
        refine ⟨above, head, heading, inner ++ [l], by simp, opening, ?_, stays⟩
        intro upTo earlier
        rcases List.prefix_concat_iff.mp earlier with rfl | earlier
        · exact stays.positive
        · exact unclosed upTo earlier
      · cases (step_symbol completes).1.symm.trans isOpen
    | none =>
      obtain ⟨heading, opening⟩ := opening_of_free before (.inl ⟨b, after_concat .. ▸ isOpen⟩)
      rcases step_opening opening with within | ⟨-, completes⟩
      · obtain rfl := Option.some.inj (isOpen.symm.trans within.inside)
        refine ⟨lines, l, heading, [], rfl, opening, ?_, within⟩
        intro upTo earlier
        exact List.prefix_nil.mp earlier ▸ within.positive
      · rw [after_concat] at isOpen
        cases (step_symbol completes).1.symm.trans isOpen

end Reading

namespace Document.Block

variable {d : Document} (block : d.Block)

/-- Reading is within a block as long as lines of it are still to come. -/
theorem within_of_prefix {upTo : List Line} (earlier : upTo <+: block.below) (unread : upTo ≠ block.below) :
    ∃ b, (Reading.start.after (block.above ++ block.head :: upTo)).Within
      (SymbolIndex.Block.inComment false block.above) block.head block.heading upTo b := by
  have positive := block.unclosed upTo earlier unread
  induction upTo using List.reverseRecOn with
  | nil =>
    rcases Reading.step_opening block.opening with opens | ⟨closes, -⟩
    · exact ⟨_, opens⟩
    · exact absurd positive (Int.not_lt.mpr closes)
  | append_singleton upTo l ih =>
    have before : upTo <+: block.below := (List.prefix_append upTo [l]).trans earlier
    have more : upTo ≠ block.below := by
      rintro rfl
      have longer := earlier.length_le
      rw [List.length_append, List.length_singleton] at longer
      omega
    obtain ⟨b, within⟩ := ih before more (block.unclosed upTo before more)
    rw [← List.cons_append, ← List.append_assoc, Reading.after_concat]
    rcases within.step l with stays | ⟨closes, -⟩
    · exact stays
    · exact absurd positive (Int.not_lt.mpr closes)

/-- The last line of a block completes what its lines make of it. -/
theorem exists_yields : ∃ s ∈ (Model.ofDocument d).symbols, block.Yields s := by
  have closed := block.closed
  rcases List.eq_nil_or_concat block.below with whole | ⟨inner, last, split⟩
  · rw [whole] at closed
    rcases Reading.step_opening block.opening with opens | ⟨-, completes⟩
    · exact absurd opens.positive (Int.not_lt.mpr closed)
    · refine ⟨_, Reading.mem_symbols_iff.mpr ⟨_, _, _, block.lines, completes⟩, ?_⟩
      apply yields_close
      rw [whole]
      exact Container.describes_ofHead block.opening.isCode
  · rw [List.concat_eq_append] at split
    rw [split] at closed
    have earlier : inner <+: block.below := split ▸ List.prefix_append inner [last]
    have unread : inner ≠ block.below := by simp [split]
    obtain ⟨b, within⟩ := block.within_of_prefix earlier unread
    rcases within.step last with ⟨b', stays⟩ | ⟨-, b', describes, completes⟩
    · exact absurd stays.positive (Int.not_lt.mpr closed)
    · have lines : d.lines = (block.above ++ block.head :: inner) ++ last :: block.rest := by
        rw [block.lines, split]
        simp
      refine ⟨_, Reading.mem_symbols_iff.mpr ⟨_, _, _, lines, completes⟩, ?_⟩
      apply yields_close
      rw [split, List.dropLast_concat]
      exact describes

end Document.Block

/-- A head that closes its block again is all of the block. -/
theorem exists_block_of_head {d : Document} {above rest : List Line} {head : Line} {heading : Shape.Head}
    (lines : d.lines = above ++ head :: rest) (opening : Opening above head heading)
    (closed : Block.depth (Block.inComment false above) [head] ≤ 0) :
    ∃ block : d.Block, block.Yields (Container.ofHead head heading).close := by
  have unclosed : ∀ upTo, upTo <+: [] → upTo ≠ [] →
      0 < Block.depth (Block.inComment false above) (head :: upTo) :=
    fun upTo earlier unread => absurd (List.prefix_nil.mp earlier) unread
  let block : d.Block := ⟨above, head, heading, [], rest, lines, opening, unclosed, closed⟩
  exact ⟨block, Document.Block.yields_close (Container.describes_ofHead opening.isCode)⟩

/-- Every container comes from a block. -/
theorem exists_block {d : Document} {s : Symbol} (member : s ∈ (Model.ofDocument d).symbols)
    (contains : s.kind.isContainer = true) : ∃ block : d.Block, block.Yields s := by
  obtain ⟨lines, l, rest, whole, completes⟩ := Reading.mem_symbols_iff.mp member
  have ended := (Reading.step_symbol completes).1
  cases before : (Reading.start.after lines).container with
  | none =>
    obtain ⟨heading, opening⟩ := Reading.opening_of_free before (.inr ⟨s, completes, contains⟩)
    rcases Reading.step_opening opening with opens | ⟨closed, closes⟩
    · rw [Reading.after_concat] at opens
      cases ended.symm.trans opens.inside
    · obtain rfl := Option.some.inj (completes.symm.trans closes)
      exact exists_block_of_head whole opening closed
  | some b =>
    -- What is open has a head further up, and the line is the first to close its block.
    obtain ⟨above, head, heading, inner, rfl, opening, unclosed, within⟩ := Reading.exists_opening before
    rcases within.step l with ⟨b', stays⟩ | ⟨closed, b', describes, closes⟩
    · cases ended.symm.trans stays.inside
    · obtain rfl := Option.some.inj (completes.symm.trans closes)
      have split : d.lines = above ++ head :: ((inner ++ [l]) ++ rest) := by
        rw [whole]
        simp
      have deep : ∀ upTo, upTo <+: inner ++ [l] → upTo ≠ inner ++ [l] →
          0 < Block.depth (Block.inComment false above) (head :: upTo) :=
        fun upTo earlier unread => unclosed upTo ((List.prefix_concat_iff.mp earlier).resolve_left unread)
      let block : d.Block := ⟨above, head, heading, inner ++ [l], rest, split, opening, deep, closed⟩
      have inside : block.below.dropLast = inner := List.dropLast_concat
      exact ⟨block, Document.Block.yields_close (inside.symm ▸ describes)⟩

/-- The containers of a document are what its blocks yield. Each is read off the lines of a block, from its
head to the line that closes it, and there is no block that yields none. -/
theorem containers_classified (d : Document) (s : Symbol) :
    (s ∈ (Model.ofDocument d).symbols ∧ s.kind.isContainer = true) ↔
      ∃ block : d.Block, block.Yields s := by
  constructor
  · rintro ⟨member, contains⟩
    exact exists_block member contains
  · rintro ⟨block, yields⟩
    obtain ⟨s', member, yields'⟩ := block.exists_yields
    rw [yields.unique yields']
    exact ⟨member, yields'.isContainer⟩

/-- A constructor that only a comment mentions makes a class of a block, which loses its methods. -/
example : (Model.ofString "Shape \x7b\n  // no constructor\n  area(): number\n\x7d").symbols.map
    (fun s => (s.kind, s.members)) = [(.classType, [])] := by
  decide +kernel

end SymbolIndex
