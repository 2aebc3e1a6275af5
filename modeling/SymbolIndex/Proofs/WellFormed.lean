import SymbolIndex.Proofs.MemberLists
import SymbolIndex.Proofs.Shapes

/-! What a consumer of a model can rely on. A declaration is written down as a record with the same parts for
every kind, and which of them are filled, and with what, depends on its kind alone. Kinds are settled late,
some only when a container closes; but each member is of a kind by the reader that found it, whose line says
what its name can be, and so whatever a container closes as holds only what belongs there. -/
namespace SymbolIndex

/-- Whether a declaration of the kind can have the name. Constructors are all called alike, and nothing else
that can be called is called like them or like control flow. -/
structure Kind.Allows (kind : Kind) (name : String) : Prop where
  ordinary : kind = .function ∨ kind = .method →
    name ≠ Shape.constructorName ∧ Shape.opensControlFlow name = false
  constructing : kind = .constructor → name = Shape.constructorName

namespace Record

/-- A declaration has the name, the type, the value and the parameters that its kind asks for. -/
structure Consistent (r : Record) : Prop where
  named : r.kind.Allows r.name
  typed : r.kind = .field → r.type.isSome = true
  untyped : r.kind = .constant → r.type = none
  valued : r.kind = .constant → ∃ value, r.value = some value ∧ value ≠ ""
  valueless : r.kind ≠ .constant → r.value = none
  unparametrized : r.kind.isCallable = false → r.parameters = ""

/-- A symbol is of a kind that stands at the top level and holds what belongs into one of that kind. -/
structure WellFormed (r : Record) : Prop where
  topLevel : r.kind ∈ [Kind.function, .classType, .interfaceType, .constant]
  simple : r.kind.isContainer = false → r.members = [] ∧ r.implements = []
  implementing : r.implements ≠ [] → r.kind = .classType
  interfaces : r.kind = .interfaceType → r.implements = [] ∧ ∀ m ∈ r.members, m.kind = .method
  classes : r.kind = .classType → ∀ m ∈ r.members, m.kind ∈ [Kind.field, .method, .constructor]
  leaves : ∀ m ∈ r.members, m.members = [] ∧ m.implements = []
  consistent : r.Consistent ∧ ∀ m ∈ r.members, m.Consistent

end Record

namespace Shape

variable {line : List Char}

theorem callable?_uncontrolled {c : Callable} (reads : callable? line = some c) :
    opensControlFlow c.name = false := by
  unfold callable? at reads
  split at reads
  · split at reads
    · cases reads
    · next ordinary =>
      obtain ⟨_, -, rfl⟩ := Option.map_eq_some_iff.mp reads
      exact Bool.eq_false_iff.mpr ordinary
  · cases reads

theorem signature?_ordinary {name : String} {signature : Signature}
    (reads : signature? line = some (name, signature)) :
    name ≠ constructorName ∧ opensControlFlow name = false := by
  unfold signature? at reads
  split at reads
  · cases reads
  · split at reads
    · dsimp only at reads
      split at reads
      · cases reads
      · next ordinary =>
        obtain ⟨_, -, same⟩ := Option.map_eq_some_iff.mp reads
        obtain ⟨rfl, -⟩ := Prod.mk.inj same
        simpa using ordinary
    · cases reads

theorem wrapped?_uncontrolled {name parameters : String}
    (reads : wrapped? line = some (name, parameters)) : opensControlFlow name = false := by
  unfold wrapped? at reads
  split at reads
  · cases reads
  · split at reads
    · dsimp only at reads
      split at reads
      · cases reads
      · next ordinary =>
        obtain ⟨rfl, -⟩ := Prod.mk.inj (Option.some.inj reads)
        rw [Bool.or_eq_true, not_or] at ordinary
        exact Bool.eq_false_iff.mpr ordinary.2
    · cases reads

/-- The value of a constant is what the rest of its line trims to. -/
theorem constantValue?_some {s value : List Char} (reads : constantValue? s = some value) :
    value = Text.trim s := by
  unfold constantValue? at reads
  split at reads
  · next blank =>
    have nothing : Text.trim s = [] := by
      rw [Text.trim, blank]
      rfl
    split at reads
    · cases reads
    · split at reads
      · cases reads
      · rw [nothing, ← Option.some.inj reads]
  · split at reads
    · cases reads
    · exact (Option.some.inj reads).symm

/-- On a line that ends with no blank a constant has a value. -/
theorem constant?_valued {c : Constant} (ends : Text.EndsBare line) (reads : constant? line = some c) :
    c.value ≠ "" := by
  unfold constant? at reads
  split at reads
  · next word gap name gap' mark rest taken =>
    obtain ⟨value, follows, rfl⟩ := Option.map_eq_some_iff.mp reads
    obtain ⟨whole, -⟩ := Pattern.take?_eq_some_iff.mp taken
    have nonempty : rest ≠ [] := by
      rintro rfl
      cases follows
    have valued : value ≠ [] := by
      rw [constantValue?_some follows]
      rw [whole] at ends
      exact (ends.of_append nonempty).trim_ne_nil
    simpa using valued
  · cases reads

end Shape

namespace Member

theorem kind_mem (m : Member) : m.kind ∈ [Kind.field, .method, .constructor] := by
  unfold kind
  cases m.form <;> simp

/-- All parts of a member but its name are settled by what it declares. -/
theorem consistent_of_named {m : Member} (named : m.kind.Allows m.name) : m.record.Consistent := by
  obtain ⟨name, site, form⟩ := m
  cases form with
  | field type => exact ⟨named, fun _ => rfl, nofun, nofun, fun _ => rfl, fun _ => rfl⟩
  | method signature => exact ⟨named, nofun, nofun, nofun, fun _ => rfl, nofun⟩
  | constructor signature => exact ⟨named, nofun, nofun, nofun, fun _ => rfl, nofun⟩

end Member

namespace Symbol

variable {name : String} {site : Site} {members : List Member}

theorem kind_mem (s : Symbol) :
    s.record.kind ∈ [Kind.function, .classType, .interfaceType, .constant] := by
  unfold record kind
  cases s.form <;> simp

theorem consistent_of_members (named : ∀ m ∈ members, m.kind.Allows m.name) :
    ∀ r ∈ members.map Member.record, r.Consistent := by
  intro r listed
  obtain ⟨m, member, rfl⟩ := List.mem_map.mp listed
  exact Member.consistent_of_named (named m member)

theorem leaves_of_members :
    ∀ r ∈ members.map Member.record, r.members = [] ∧ r.implements = [] := by
  intro r listed
  obtain ⟨m, -, rfl⟩ := List.mem_map.mp listed
  exact ⟨rfl, rfl⟩

theorem wellFormed_function {signature : Signature} (named : Kind.function.Allows name) :
    (Symbol.mk name site (.function signature)).record.WellFormed where
  topLevel := kind_mem _
  simple _ := ⟨rfl, rfl⟩
  implementing listed := absurd rfl listed
  interfaces := nofun
  classes := nofun
  leaves := nofun
  consistent := ⟨⟨named, nofun, nofun, nofun, fun _ => rfl, nofun⟩, nofun⟩

theorem wellFormed_constant {value : String} (valued : value ≠ "") :
    (Symbol.mk name site (.constant value)).record.WellFormed where
  topLevel := kind_mem _
  simple _ := ⟨rfl, rfl⟩
  implementing listed := absurd rfl listed
  interfaces := nofun
  classes := nofun
  leaves := nofun
  consistent := ⟨⟨⟨nofun, nofun⟩, nofun, fun _ => rfl, fun _ => ⟨value, rfl, valued⟩,
    fun other => absurd rfl other, fun _ => rfl⟩, nofun⟩

theorem wellFormed_interfaceType (named : ∀ m ∈ members, m.kind.Allows m.name)
    (methods : ∀ m ∈ members, m.kind = .method) :
    (Symbol.mk name site (.interfaceType members)).record.WellFormed where
  topLevel := kind_mem _
  simple := nofun
  implementing listed := absurd rfl listed
  interfaces _ := by
    refine ⟨rfl, ?_⟩
    intro r listed
    obtain ⟨m, member, rfl⟩ := List.mem_map.mp listed
    exact methods m member
  classes := nofun
  leaves := leaves_of_members
  consistent := ⟨⟨⟨nofun, nofun⟩, nofun, nofun, nofun, fun _ => rfl, fun _ => rfl⟩,
    consistent_of_members named⟩

theorem wellFormed_classType {implements : List String} (named : ∀ m ∈ members, m.kind.Allows m.name) :
    (Symbol.mk name site (.classType implements members)).record.WellFormed where
  topLevel := kind_mem _
  simple := nofun
  implementing _ := rfl
  interfaces := nofun
  classes _ := by
    intro r listed
    obtain ⟨m, -, rfl⟩ := List.mem_map.mp listed
    exact m.kind_mem
  leaves := leaves_of_members
  consistent := ⟨⟨⟨nofun, nofun⟩, nofun, nofun, nofun, fun _ => rfl, fun _ => rfl⟩,
    consistent_of_members named⟩

end Symbol

namespace Container

/-- Members have the names that their kinds ask for, and those that count only for an interface are
methods. -/
structure WellNamed (b : Container) : Prop where
  named : ∀ m ∈ b.collected, m.kind.Allows m.name
  methods : ∀ m ∈ b.signatures.toList, m.kind = .method

variable {b : Container} {l : Line}

/-- A callable that is not called like control flow is a constructor if it has that name, or else a
method. -/
theorem allows_callableForm {name : String} (uncontrolled : Shape.opensControlFlow name = false)
    (site : Site) (signature : Signature) :
    (Member.mk name site (callableForm name signature)).kind.Allows name := by
  unfold callableForm
  split
  · next constructs => exact ⟨nofun, fun _ => constructs⟩
  · next ordinary => exact ⟨fun _ => ⟨ordinary, uncontrolled⟩, nofun⟩

theorem allows_of_declared? {entry : Entry} (declares : declared? l = some entry) :
    entry.member.kind.Allows entry.member.name := by
  generalize found : some entry = finding at declares
  cases declares ▸ declared?_finds l with
  | signature reads =>
    obtain rfl := Option.some.inj found
    exact ⟨fun _ => Shape.signature?_ordinary reads, nofun⟩
  | callable _ reads =>
    obtain rfl := Option.some.inj found
    exact allows_callableForm (Shape.callable?_uncontrolled reads) ..
  | wrapped _ _ reads =>
    obtain rfl := Option.some.inj found
    exact allows_callableForm (Shape.wrapped?_uncontrolled reads) ..
  | field =>
    obtain rfl := Option.some.inj found
    exact ⟨nofun, nofun⟩
  | nothing => cases found

theorem method_of_declared? {m : Member} (declares : declared? l = some (.signature m)) :
    m.kind = .method := by
  generalize found : some (Entry.signature m) = finding at declares
  cases declares ▸ declared?_finds l with
  | signature =>
    obtain rfl := Entry.signature.inj (Option.some.inj found)
    rfl
  | callable | wrapped | field | nothing => cases found

theorem WellNamed.noting (named : b.WellNamed) (l : Line) : (b.noting l).WellNamed :=
  ⟨named.named, named.methods⟩

theorem WellNamed.grown (named : b.WellNamed) (l : Line) : (b.grown l).WellNamed := by
  constructor
  · intro m member
    rcases mem_collected_grown member with before | ⟨entry, declares, rfl⟩
    · exact named.named m before
    · exact allows_of_declared? declares
  · intro m member
    unfold Container.grown at member
    dsimp only at member
    split at member
    · rcases mem_signatures_collect member with before | declares
      · exact named.methods m before
      · exact method_of_declared? declares
    · exact named.methods m member

/-- Whichever kind a container closes as, it is well formed. -/
theorem WellNamed.close (named : b.WellNamed) : b.close.record.WellFormed := by
  unfold Container.close
  cases b.isInterface with
  | true =>
    apply Symbol.wellFormed_interfaceType
    · intro m member
      exact named.named m (List.mem_append_left _ member)
    · exact named.methods
  | false =>
    apply Symbol.wellFormed_classType
    intro m member
    exact named.named m (List.mem_append_right _ member)

end Container

/-- What a line declares at the top level is well formed. -/
theorem Reading.wellFormed_of_topLevel? {l : Line} {s : Symbol} (declares : topLevel? l = some s) :
    s.record.WellFormed := by
  rcases topLevel?_some declares with ⟨c, reads, ordinary, rfl⟩ | ⟨-, c, reads, rfl⟩
  · exact Symbol.wellFormed_function ⟨fun _ => ⟨ordinary, Shape.callable?_uncontrolled reads⟩, nofun⟩
  · have ends : Text.EndsBare l.trimmed := by
      apply Text.endsBare_of_trim (Text.trim_trim l.content)
      intro empty
      rw [show l.trimmed = [] from empty] at reads
      cases reads
    exact Symbol.wellFormed_constant (Shape.constant?_valued ends reads)

theorem Model.records_well_formed (d : Document) :
    ∀ s ∈ (Model.ofDocument d).symbols, s.record.WellFormed := by
  intro s member
  have origin := Reading.symbols_origin (Q := Container.WellNamed) (r := .start)
    (fun b isOpen => nomatch isOpen) (fun l _ head _ => ⟨nofun, nofun⟩)
    (fun l _ b named => named.noting l) (fun l _ b named => named.grown l) s member
  rcases origin with ⟨l, -, declares⟩ | ⟨b, named, rfl⟩
  · exact Reading.wellFormed_of_topLevel? declares
  · exact named.close

/-- Every declaration of a text is well formed: it is of a kind that stands at the top level, it has the
name, type, value and parameters that its kind asks for and no other, it has members and a clause only if it
is a container, an interface has methods only and no clause, and each member is of a kind that stands in
its container, has the parts that its own kind asks for and no members of its own. -/
theorem symbols_well_formed (text : List Char) :
    ∃ symbols, Bytewise.extract text = .ok symbols ∧ ∀ s ∈ symbols, s.WellFormed := by
  refine ⟨_, Bytewise.extract_eq text, ?_⟩
  intro r listed
  obtain ⟨s, member, rfl⟩ := List.mem_map.mp listed
  exact Model.records_well_formed ⟨text⟩ s member

/-- A text with declarations of every kind. -/
def workshop : List Char :=
  "const UNIT = 1\nTool \x7b\n  weigh(): float\n\x7d\nHammer : Tool \x7b\n  grip: string\n  constructor(\n    grip: string) \x7b\n  \x7d\n  weigh(): float => 1.5\n\x7d\nmain() => 2".toList

/-- The class of `workshop` is well formed, its wrapped constructor sorted in between a field and a
method. -/
theorem symbols_well_formed_workshop :
    ∃ symbols, Bytewise.extract workshop = .ok symbols ∧
      ∃ s ∈ symbols, s.WellFormed ∧ s.name = "Hammer" ∧
        s.members.map Record.kind = [.field, .constructor, .method] := by
  obtain ⟨symbols, reads, wellFormed⟩ := symbols_well_formed workshop
  have hammer : ∃ s ∈ (Model.ofDocument ⟨workshop⟩).symbols, s.name = "Hammer" ∧
      s.members.map Member.kind = [.field, .constructor, .method] := by decide +kernel
  obtain ⟨s, member, name, kinds⟩ := hammer
  have same : symbols = (Model.ofDocument ⟨workshop⟩).symbols.map Symbol.record :=
    Except.ok.inj (reads.symm.trans (Bytewise.extract_eq workshop))
  have listed : s.record ∈ symbols := by
    rw [same]
    exact List.mem_map_of_mem member
  refine ⟨symbols, reads, s.record, listed, wellFormed _ listed, name, ?_⟩
  rw [Symbol.record, List.map_map]
  exact kinds

end SymbolIndex
