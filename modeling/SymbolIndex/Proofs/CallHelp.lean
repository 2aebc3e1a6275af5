import SymbolIndex.Call

/-! What a call calls, and what is shown of it. The name of a call is looked for three times, and each search
takes the first declaration in document order that will do: whatever a later search would find is hidden by
what an earlier one has found. The last search is unlike the others, because the class is settled on before
its constructor is looked for; a second class of the name does not help out a first one without any. -/
namespace SymbolIndex

/-- An item of a list has a property, and none before it has. -/
def IsFirst {α : Type} (P : α → Prop) (items : List α) (x : α) : Prop :=
  ∃ before after, items = before ++ x :: after ∧ P x ∧ ∀ y ∈ before, ¬ P y

section IsFirst

variable {α β : Type} {P Q : α → Prop} {items later : List α} {x y : α}

theorem IsFirst.mem (first : IsFirst P items x) : x ∈ items := by
  obtain ⟨before, after, rfl, -, -⟩ := first
  exact List.mem_append_right before List.mem_cons_self

theorem IsFirst.holds (first : IsFirst P items x) : P x := by
  obtain ⟨-, -, -, holds, -⟩ := first
  exact holds

theorem not_isFirst_nil : ¬ IsFirst P [] x := fun first => List.not_mem_nil first.mem

/-- The first item is at the head of a list or it is that of the rest. -/
theorem isFirst_cons : IsFirst P (y :: later) x ↔ P y ∧ x = y ∨ ¬ P y ∧ IsFirst P later x := by
  constructor
  · rintro ⟨before, after, split, holds, earlier⟩
    cases before with
    | nil =>
      obtain ⟨rfl, -⟩ := List.cons.inj split
      exact .inl ⟨holds, rfl⟩
    | cons z before =>
      obtain ⟨rfl, below⟩ := List.cons.inj split
      obtain ⟨fails, others⟩ := List.forall_mem_cons.mp earlier
      exact .inr ⟨fails, before, after, below, holds, others⟩
  · rintro (⟨holds, rfl⟩ | ⟨fails, before, after, rfl, holds, earlier⟩)
    · exact ⟨[], later, rfl, holds, nofun⟩
    · exact ⟨y :: before, after, rfl, holds, List.forall_mem_cons.mpr ⟨fails, earlier⟩⟩

theorem exists_isFirst : (∃ x, IsFirst P items x) ↔ ∃ x ∈ items, P x := by
  constructor
  · rintro ⟨x, first⟩
    exact ⟨x, first.mem, first.holds⟩
  · induction items with
    | nil => rintro ⟨x, ⟨⟩, -⟩
    | cons y later ih =>
      rintro ⟨x, member, holds⟩
      by_cases head : P y
      · exact ⟨y, isFirst_cons.mpr (.inl ⟨head, rfl⟩)⟩
      · rcases List.mem_cons.mp member with rfl | below
        · exact absurd holds head
        · obtain ⟨z, first⟩ := ih ⟨x, below, holds⟩
          exact ⟨z, isFirst_cons.mpr (.inr ⟨head, first⟩)⟩

/-- The first item that passes a filter is the first that passes and has a property besides. -/
theorem isFirst_filter {passes : α → Bool} (holds : ∀ x, Q x ↔ passes x = true ∧ P x) :
    IsFirst P (items.filter passes) x ↔ IsFirst Q items x := by
  induction items with
  | nil => exact iff_of_false not_isFirst_nil not_isFirst_nil
  | cons y later ih =>
    rw [isFirst_cons, holds y]
    cases pass : passes y with
    | false =>
      rw [List.filter_cons_of_neg (by simp [pass]), ih]
      simp
    | true =>
      rw [List.filter_cons_of_pos pass, isFirst_cons, ih]
      simp

theorem find?_eq_some_iff_isFirst {test : α → Bool} (holds : ∀ x, P x ↔ test x = true) :
    items.find? test = some x ↔ IsFirst P items x := by
  simp only [List.find?_eq_some_iff_append, IsFirst, holds, Bool.not_eq_true', Bool.not_eq_true]
  constructor
  · rintro ⟨passes, before, after, split, earlier⟩
    exact ⟨before, after, split, passes, earlier⟩
  · rintro ⟨before, after, split, passes, earlier⟩
    exact ⟨passes, before, after, split, earlier⟩

theorem findSome?_eq_some_iff_isFirst {read : α → Option β} {found : β}
    (holds : ∀ x, P x ↔ (read x).isSome = true) :
    items.findSome? read = some found ↔ ∃ x, IsFirst P items x ∧ read x = some found := by
  simp only [List.findSome?_eq_some_iff, IsFirst, holds, Bool.not_eq_true, Option.isSome_eq_false_iff,
    Option.isNone_iff_eq_none]
  constructor
  · rintro ⟨before, x, after, split, reads, earlier⟩
    exact ⟨x, ⟨before, after, split, by rw [reads]; rfl, earlier⟩, reads⟩
  · rintro ⟨x, ⟨before, after, split, -, earlier⟩, reads⟩
    exact ⟨before, x, after, split, reads, earlier⟩

end IsFirst

/-- A symbol is declared in a kind and by a name. -/
def Symbol.Is (kind : Kind) (name : String) (s : Symbol) : Prop := s.name = name ∧ s.kind = kind

/-- A member is declared in a kind and by a name. -/
def Member.Is (kind : Kind) (name : String) (x : Member) : Prop := x.name = name ∧ x.kind = kind

theorem Symbol.isContainer_of_mem_members (s : Symbol) {x : Member} (inside : x ∈ s.members) :
    s.kind.isContainer = true := by
  obtain ⟨name, site, form⟩ := s
  cases form with
  | function | constant => cases inside
  | interfaceType | classType => rfl

namespace Callee

variable {s : Symbol} {x : Member} {callee : Callee}

theorem ofFunction?_eq_some : ofFunction? s = some callee ↔
    ∃ signature, s.signature? = some signature ∧ callee = .function s signature := by
  unfold ofFunction? Symbol.signature?
  cases s.form <;> simp [eq_comm]

theorem ofMethod?_eq_some : ofMethod? x = some callee ↔
    x.kind = .method ∧ ∃ signature, x.signature? = some signature ∧ callee = .method x signature := by
  unfold ofMethod? Member.kind Member.signature?
  cases x.form <;> simp [eq_comm]

theorem ofConstructor?_eq_some : ofConstructor? x = some callee ↔
    x.kind = .constructor ∧
      ∃ signature, x.signature? = some signature ∧ callee = .constructor x signature := by
  unfold ofConstructor? Member.kind Member.signature?
  cases x.form <;> simp [eq_comm]

theorem isSome_ofFunction? (s : Symbol) : s.kind = .function ↔ (ofFunction? s).isSome = true := by
  unfold ofFunction? Symbol.kind
  cases s.form <;> simp

theorem isSome_ofMethod? (x : Member) : x.kind = .method ↔ (ofMethod? x).isSome = true := by
  unfold ofMethod? Member.kind
  cases x.form <;> simp

theorem isSome_ofConstructor? (x : Member) : x.kind = .constructor ↔ (ofConstructor? x).isSome = true := by
  unfold ofConstructor? Member.kind
  cases x.form <;> simp

end Callee

namespace Model

variable {m : Model} {name : String} {callee : Callee}

/-- There is a function of a name. -/
def HasFunction (m : Model) (name : String) : Prop := ∃ s ∈ m.symbols, s.Is .function name

/-- There is a method of a name in some container. -/
def HasMethod (m : Model) (name : String) : Prop :=
  ∃ s ∈ m.symbols, s.kind.isContainer = true ∧ ∃ x ∈ s.members, x.Is .method name

/-- The first class of a name has a constructor. -/
def HasConstructor (m : Model) (name : String) : Prop :=
  ∃ s, IsFirst (Symbol.Is .classType name) m.symbols s ∧ ∃ x ∈ s.members, x.kind = .constructor

/-- What a call of a name calls in a model: the first function of the name, or the first method if there is
no such function, or the first constructor of the first class of the name if there is no such method either. -/
inductive Calls (m : Model) (name : String) : Callee → Prop where
  | function {s : Symbol} {signature : Signature} (first : IsFirst (Symbol.Is .function name) m.symbols s)
      (declares : s.signature? = some signature) : Calls m name (.function s signature)
  | method {x : Member} {signature : Signature} (noFunction : ¬ m.HasFunction name)
      (first : IsFirst (Member.Is .method name) (m.symbols.flatMap Symbol.members) x)
      (declares : x.signature? = some signature) : Calls m name (.method x signature)
  | constructor {s : Symbol} {x : Member} {signature : Signature} (noFunction : ¬ m.HasFunction name)
      (noMethod : ¬ m.HasMethod name) (called : IsFirst (Symbol.Is .classType name) m.symbols s)
      (first : IsFirst (·.kind = .constructor) s.members x)
      (declares : x.signature? = some signature) : Calls m name (.constructor x signature)

theorem function?_eq_some : m.function? name = some callee ↔
    ∃ s, IsFirst (Symbol.Is .function name) m.symbols s ∧ Callee.ofFunction? s = some callee := by
  have passes (s : Symbol) : s.Is .function name ↔ (s.name == name) = true ∧ s.kind = .function := by
    rw [Symbol.Is, beq_iff_eq]
  simp only [function?, findSome?_eq_some_iff_isFirst Callee.isSome_ofFunction?, isFirst_filter passes]

theorem isSome_function? : (m.function? name).isSome = true ↔ m.HasFunction name := by
  simp only [function?, List.findSome?_isSome_iff, List.mem_filter, beq_iff_eq, ← Callee.isSome_ofFunction?,
    HasFunction, Symbol.Is, and_assoc]

theorem method?_eq_some : m.method? name = some callee ↔
    ∃ x, IsFirst (Member.Is .method name) (m.symbols.flatMap Symbol.members) x ∧
      Callee.ofMethod? x = some callee := by
  have passes (x : Member) : x.Is .method name ↔ (x.name == name) = true ∧ x.kind = .method := by
    rw [Member.Is, beq_iff_eq]
  simp only [method?, findSome?_eq_some_iff_isFirst Callee.isSome_ofMethod?, isFirst_filter passes]

theorem isSome_method? : (m.method? name).isSome = true ↔ m.HasMethod name := by
  simp only [method?, List.findSome?_isSome_iff, List.mem_filter, List.mem_flatMap, beq_iff_eq,
    ← Callee.isSome_ofMethod?]
  constructor
  · rintro ⟨x, ⟨⟨s, member, inside⟩, named⟩, isMethod⟩
    exact ⟨s, member, s.isContainer_of_mem_members inside, x, inside, named, isMethod⟩
  · rintro ⟨s, member, -, x, inside, named, isMethod⟩
    exact ⟨x, ⟨⟨s, member, inside⟩, named⟩, isMethod⟩

theorem constructorOf?_eq_some : m.constructorOf? name = some callee ↔
    ∃ s, IsFirst (Symbol.Is .classType name) m.symbols s ∧
      ∃ x, IsFirst (·.kind = .constructor) s.members x ∧ Callee.ofConstructor? x = some callee := by
  have passes (s : Symbol) : s.Is .classType name ↔ (s.kind == .classType) = true ∧ s.name = name := by
    rw [Symbol.Is, beq_iff_eq, and_comm]
  have tests (s : Symbol) : s.name = name ↔ (s.name == name) = true := beq_iff_eq.symm
  simp only [constructorOf?, ofKind, Option.bind_eq_some_iff, find?_eq_some_iff_isFirst tests,
    isFirst_filter passes, findSome?_eq_some_iff_isFirst Callee.isSome_ofConstructor?]

theorem isSome_constructorOf? : (m.constructorOf? name).isSome = true ↔ m.HasConstructor name := by
  rw [Option.isSome_iff_exists]
  constructor
  · rintro ⟨callee, found⟩
    obtain ⟨s, called, x, first, -⟩ := constructorOf?_eq_some.mp found
    exact ⟨s, called, x, first.mem, first.holds⟩
  · rintro ⟨s, called, declares⟩
    obtain ⟨x, first⟩ := exists_isFirst.mpr declares
    obtain ⟨callee, reads⟩ := Option.isSome_iff_exists.mp ((Callee.isSome_ofConstructor? x).mp first.holds)
    exact ⟨callee, constructorOf?_eq_some.mpr ⟨s, called, x, first, reads⟩⟩

/-- The searches, tried one after another, find what a call of the name calls. -/
theorem callee?_eq_some : m.callee? name = some callee ↔ m.Calls name callee := by
  rw [callee?, Option.or_eq_some_iff, Option.or_eq_some_iff, Option.or_eq_none_iff,
    ← Option.not_isSome_iff_eq_none, ← Option.not_isSome_iff_eq_none, isSome_function?, isSome_method?,
    function?_eq_some, method?_eq_some, constructorOf?_eq_some]
  constructor
  · rintro ((⟨s, first, reads⟩ | ⟨noFunction, x, first, reads⟩) |
      ⟨⟨noFunction, noMethod⟩, s, called, x, first, reads⟩)
    · obtain ⟨signature, declares, rfl⟩ := Callee.ofFunction?_eq_some.mp reads
      exact .function first declares
    · obtain ⟨-, signature, declares, rfl⟩ := Callee.ofMethod?_eq_some.mp reads
      exact .method noFunction first declares
    · obtain ⟨-, signature, declares, rfl⟩ := Callee.ofConstructor?_eq_some.mp reads
      exact .constructor noFunction noMethod called first declares
  · intro calls
    cases calls with
    | function first declares =>
      exact .inl (.inl ⟨_, first, Callee.ofFunction?_eq_some.mpr ⟨_, declares, rfl⟩⟩)
    | method noFunction first declares =>
      have reads := Callee.ofMethod?_eq_some.mpr ⟨first.holds.2, _, declares, rfl⟩
      exact .inl (.inr ⟨noFunction, _, first, reads⟩)
    | constructor noFunction noMethod called first declares =>
      have reads := Callee.ofConstructor?_eq_some.mpr ⟨first.holds, _, declares, rfl⟩
      exact .inr ⟨⟨noFunction, noMethod⟩, _, called, _, first, reads⟩

/-- Something is called by a name if and only if one of the searches has something to find. -/
theorem isSome_callee? : (m.callee? name).isSome = true ↔
    m.HasFunction name ∨ m.HasMethod name ∨ m.HasConstructor name := by
  rw [callee?, Option.isSome_or, Option.isSome_or, Bool.or_eq_true, Bool.or_eq_true, or_assoc,
    isSome_function?, isSome_method?, isSome_constructorOf?]

end Model

/-- The result that is shown of what is called: for a constructor none. -/
def Callee.shownResult : Callee → Option String
  | function _ signature | method _ signature => signature.result
  | constructor _ _ => none

theorem Callee.label_eq (callee : Callee) (name : String) :
    callee.label name = name ++ "(" ++ callee.signature.parameters ++ ")" ++
      callee.shownResult.elim "" (": " ++ ·) := by
  have shown (signature : Signature) : signature.label name =
      name ++ "(" ++ signature.parameters ++ ")" ++ signature.result.elim "" (": " ++ ·) := by
    obtain ⟨parameters, result⟩ := signature
    cases result with
    | none => exact (String.append_empty).symm
    | some type => exact String.append_assoc
  cases callee with
  | function _ signature | method _ signature => exact shown signature
  | constructor _ signature => exact shown { signature with result := none }

/-- What is shown of a call: the name with the parameters of what is called, its result unless it is a
constructor, and the parameter that the cursor is in, which is one of the list unless the list is empty. -/
structure CallHelp.Shows (help : CallHelp) (call : Call) (callee : Callee) : Prop where
  label : help.label = String.ofList call.name ++ "(" ++ callee.signature.parameters ++ ")" ++
    callee.shownResult.elim "" (": " ++ ·)
  parameters : help.parameters = callee.signature.parameterList
  nowhere : help.parameters = [] → help.active = 0
  valid : help.parameters ≠ [] → help.active < help.parameters.length
  inside : call.argument < help.parameters.length → help.active = call.argument
  beyond : help.parameters ≠ [] → help.parameters.length ≤ call.argument →
    help.active + 1 = help.parameters.length

/-- All that is shown of a call is settled by what is called and the argument that the cursor is in. -/
theorem CallHelp.shows_iff {help : CallHelp} {call : Call} {callee : Callee} :
    help.Shows call callee ↔ help =
      { label := callee.label (String.ofList call.name)
        parameters := callee.signature.parameterList
        active := min call.argument (callee.signature.parameterList.length - 1) } := by
  have empty (parameters : List String) : parameters = [] ↔ parameters.length = 0 :=
    List.length_eq_zero_iff.symm
  constructor
  · rintro ⟨label, parameters, nowhere, valid, inside, beyond⟩
    obtain ⟨_, _, active⟩ := help
    simp only [empty, ne_eq] at label parameters nowhere valid inside beyond
    subst parameters
    rw [label, Callee.label_eq]
    congr 1
    omega
  · rintro rfl
    constructor
    · exact Callee.label_eq ..
    · rfl
    all_goals
      simp only [empty, ne_eq]
      omega

section Document

variable {d : Document} {p : Position}

/-- The call that a position is in: the one which the text of its line before it leaves open. -/
def Document.CallAt (d : Document) (p : Position) (call : Call) : Prop :=
  ∃ l, d.line? p.line = some l ∧ Call.before? (l.content.take (min p.column l.content.length)) = some call

theorem Document.callHelp?_eq_some {help : CallHelp} : d.callHelp? p = some help ↔
    ∃ call callee, d.CallAt p call ∧ (Model.ofDocument d).Calls (String.ofList call.name) callee ∧
      help.Shows call callee := by
  simp only [CallAt, ← List.take_eq_take_min, ← Model.callee?_eq_some, CallHelp.shows_iff, callHelp?,
    textBefore?, Option.bind_eq_bind, Option.bind_eq_some_iff, Option.map_eq_some_iff]
  constructor
  · rintro ⟨_, ⟨l, line, rfl⟩, call, opens, callee, calls, ⟨⟩⟩
    exact ⟨call, callee, ⟨l, line, opens⟩, calls, rfl⟩
  · rintro ⟨call, callee, ⟨l, line, opens⟩, calls, rfl⟩
    exact ⟨_, ⟨l, line, rfl⟩, call, opens, callee, calls, rfl⟩

end Document

/-- Help with the call that a position is in. There is some if and only if the line exists, the text before
the position, which ends with the line, leaves a call open, and its name is that of a function or of a method
or of a class whose first declaration has a constructor. What is shown is what the name calls. -/
theorem call_help_resolved (d : Document) (p : Position) :
    ((d.callHelp? p).isSome = true ↔ ∃ call, d.CallAt p call ∧
      ((Model.ofDocument d).HasFunction (String.ofList call.name) ∨
        (Model.ofDocument d).HasMethod (String.ofList call.name) ∨
        (Model.ofDocument d).HasConstructor (String.ofList call.name))) ∧
    ∀ help, d.callHelp? p = some help ↔
      ∃ call callee, d.CallAt p call ∧ (Model.ofDocument d).Calls (String.ofList call.name) callee ∧
        help.Shows call callee := by
  refine ⟨?_, fun help => Document.callHelp?_eq_some⟩
  rw [Option.isSome_iff_exists]
  constructor
  · rintro ⟨help, shown⟩
    obtain ⟨call, callee, inside, calls, -⟩ := Document.callHelp?_eq_some.mp shown
    have found := Model.callee?_eq_some.mpr calls
    exact ⟨call, inside, Model.isSome_callee?.mp (Option.isSome_of_mem found)⟩
  · rintro ⟨call, inside, declared⟩
    obtain ⟨callee, found⟩ := Option.isSome_iff_exists.mp (Model.isSome_callee?.mpr declared)
    exact ⟨_, Document.callHelp?_eq_some.mpr
      ⟨call, callee, inside, Model.callee?_eq_some.mp found, CallHelp.shows_iff.mpr rfl⟩⟩

end SymbolIndex
