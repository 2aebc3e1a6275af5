import Mathlib.Data.List.Nodup
import SymbolIndex.Diagnostic
import SymbolIndex.Proofs.SourceOrder

/-! Conformance is sound, complete and in order. The target goes over the symbols of a model
directly, class by class and name by name; no table takes part in it. Classes of a document stand on
lines of their own, so a diagnostic's span tells the class that it is about. -/
namespace SymbolIndex

namespace Table

variable {α : Type}

/-- Of several values under one name the table has the last. -/
theorem find?_ofList (entries : List (String × α)) (name : String) :
    (ofList entries).find? name = ((entries.filter (·.1 == name)).getLast?).map Prod.snd := by
  have folded (t : Table α) :
      (entries.foldl (fun t entry => t.insert entry.1 entry.2) t).find? name =
        (((entries.filter (·.1 == name)).getLast?).map Prod.snd).or (t.find? name) := by
    induction entries generalizing t with
    | nil => simp
    | cons entry later ih =>
      obtain ⟨other, value⟩ := entry
      rw [List.foldl_cons, ih, find?_insert]
      by_cases same : other = name
      · subst same
        rw [List.filter_cons_of_pos (by simp), List.getLast?_cons]
        cases (later.filter (·.1 == other)).getLast? <;> simp
      · rw [List.filter_cons_of_neg (by simpa using same), if_neg (Ne.symm same)]
  exact (folded empty).trans (by simp [find?, empty])

end Table

namespace Model

/-- The interface that a name stands for: the last one in the document that has it. -/
def lastInterface? (m : Model) (name : String) : Option Symbol :=
  ((m.ofKind .interfaceType).filter (·.name == name)).getLast?

/-- What a class owes for one name that it lists: the interface itself, if no interface has the
name, or else each of its methods that no method of the class is named after. -/
def owed (m : Model) (c : Symbol) (name : String) : List Violation :=
  match m.lastInterface? name with
  | none => [⟨c.name, name, .unknownInterface, c.site.header⟩]
  | some i =>
    (i.methods.filter fun required => !c.methods.any (·.name == required.name)).map fun required =>
      ⟨c.name, name, .missingMethod required.name (required.signature?.getD .empty), c.site.header⟩

/-- Whether a class has, by name, every method of every interface that it lists and that is
known. -/
def Implements (m : Model) (c : Symbol) : Prop :=
  ∀ name ∈ c.implements, ∀ i, m.lastInterface? name = some i →
    ∀ required ∈ i.methods, ∃ method ∈ c.methods, method.name = required.name

end Model

private theorem filterMap_of_selected {α β : Type} {f : α → Option β} {p : α → Bool} {g : α → β}
    (selects : ∀ a, f a = if p a then some (g a) else none) (entries : List α) :
    entries.filterMap f = (entries.filter p).map g := by
  induction entries with
  | nil => rfl
  | cons a later ih =>
    by_cases selected : p a = true
    · rw [List.filterMap_cons_some (b := g a) (by simp [selects, selected]), ih,
        List.filter_cons_of_pos selected, List.map_cons]
    · rw [List.filterMap_cons_none (by simp [selects, selected]), ih,
        List.filter_cons_of_neg selected]

namespace Interface

/-- An interface symbol as far as conformance is concerned. -/
def ofSymbol (s : Symbol) : Interface := ⟨s.name, s.site, s.members⟩

theorem filterMap_ofSymbol? (symbols : List Symbol) :
    symbols.filterMap ofSymbol? = (symbols.filter (·.kind == .interfaceType)).map ofSymbol := by
  refine filterMap_of_selected (fun s => ?_) symbols
  obtain ⟨name, site, form⟩ := s
  cases form <;> rfl

/-- The methods that an interface requires are its method members. -/
theorem required_ofSymbol (s : Symbol) :
    (ofSymbol s).required = s.methods.map fun m => (m.name, m.signature?.getD .empty) := by
  refine filterMap_of_selected (fun member => ?_) s.members
  obtain ⟨name, site, form⟩ := member
  cases form <;> rfl

end Interface

namespace Implementer

/-- A class symbol as far as conformance is concerned. -/
def ofSymbol (s : Symbol) : Implementer :=
  ⟨s.name, s.implements, s.methods.map Member.name, s.site.header⟩

theorem filterMap_ofSymbol? (symbols : List Symbol) :
    symbols.filterMap ofSymbol? = (symbols.filter (·.kind == .classType)).map ofSymbol := by
  refine filterMap_of_selected (fun s => ?_) symbols
  obtain ⟨name, site, form⟩ := s
  cases form <;> rfl

end Implementer

namespace Model

theorem find?_interfaces (m : Model) (name : String) :
    m.interfaces.find? name = (m.lastInterface? name).map Interface.ofSymbol := by
  have named : (((m.ofKind .interfaceType).map Interface.ofSymbol).map fun i => (i.name, i)).filter
      (·.1 == name) = ((m.ofKind .interfaceType).filter (·.name == name)).map
        fun s => (s.name, Interface.ofSymbol s) := by
    rw [List.map_map, List.filter_map]
    rfl
  rw [interfaces, Interface.filterMap_ofSymbol?, Table.find?_ofList, ← ofKind, named,
    List.getLast?_map, Option.map_map]
  rfl

/-- The table look-up and the set of method names come to what is owed. -/
theorem violations_ofSymbol (m : Model) (c : Symbol) :
    (Implementer.ofSymbol c).violations m.interfaces = c.implements.flatMap (m.owed c) := by
  refine List.flatMap_congr fun name listed => ?_
  rw [Implementer.faults, find?_interfaces, owed]
  cases m.lastInterface? name with
  | none => rfl
  | some i =>
    simp only [Option.map_some, Interface.required_ofSymbol, List.filter_map, List.map_map]
    refine congrArg₂ List.map rfl (List.filter_congr fun required member => ?_)
    simp [Implementer.ofSymbol, List.any_eq, List.contains_eq_mem]

theorem violations_eq_owed (m : Model) :
    m.violations = (m.ofKind .classType).flatMap fun c => c.implements.flatMap (m.owed c) := by
  rw [violations, SymbolIndex.violations, classes, Implementer.filterMap_ofSymbol?,
    List.flatMap_map, ← ofKind]
  exact List.flatMap_congr fun c _ => violations_ofSymbol m c

theorem mem_violations {m : Model} {v : Violation} :
    v ∈ m.violations ↔ ∃ c ∈ m.ofKind .classType, ∃ name ∈ c.implements, v ∈ m.owed c name := by
  simp only [violations_eq_owed, List.mem_flatMap]

theorem span_of_mem_owed {m : Model} {c : Symbol} {name : String} {v : Violation}
    (owes : v ∈ m.owed c name) : v.span = c.site.header := by
  unfold owed at owes
  split at owes
  · rw [List.mem_singleton] at owes
    rw [owes]
  · obtain ⟨required, -, rfl⟩ := List.mem_map.mp owes
    rfl

/-- A class owes no method exactly if it implements what it lists. -/
theorem implements_iff (m : Model) (c : Symbol) :
    m.Implements c ↔ ∀ name ∈ c.implements, ∀ v ∈ m.owed c name, v.fault.isError = false := by
  refine forall_congr' fun name => forall_congr' fun listed => ?_
  unfold owed
  cases known : m.lastInterface? name with
  | none => simp [Fault.isError]
  | some i =>
    constructor
    · intro has v owes
      obtain ⟨required, lacking, rfl⟩ := List.mem_map.mp owes
      obtain ⟨member, absent⟩ := List.mem_filter.mp lacking
      obtain ⟨method, inside, same⟩ := has i rfl required member
      have found : c.methods.any (·.name == required.name) = true :=
        List.any_eq_true.mpr ⟨method, inside, by simp [same]⟩
      simp [found] at absent
    · intro quiet i' same required member
      obtain rfl := Option.some.inj same
      by_cases found : c.methods.any (·.name == required.name) = true
      · obtain ⟨method, inside, named⟩ := List.any_eq_true.mp found
        exact ⟨method, inside, by simpa using named⟩
      · have owes := quiet _ (List.mem_map_of_mem
          (List.mem_filter.mpr ⟨member, by simpa using found⟩))
        cases owes

end Model

namespace Document

/-- No two symbols of a document have their head on one line. -/
theorem eq_of_header_eq {d : Document} {s t : Symbol} (first : s ∈ (Model.ofDocument d).symbols)
    (second : t ∈ (Model.ofDocument d).symbols) (same : s.site.header = t.site.header) : s = t := by
  have headed : ∀ s ∈ (Model.ofDocument d).symbols, s.site.header.start.line = s.site.line := by
    refine Reading.symbols_sites (P := fun site => site.header.start.line = site.line) ?_ ?_
    · intro b isOpen
      cases isOpen
    · rintro l - site ⟨nameAt, name, stop, rfl⟩
      rfl
  have distinct : ((Model.ofDocument d).symbols.map fun s => s.site.line).Nodup :=
    List.pairwise_map.mpr ((Model.heads_ascend d).imp fun less => Nat.ne_of_lt less)
  refine List.inj_on_of_nodup_map distinct first second ?_
  rw [← headed s first, ← headed t second, same]

theorem diagnostics_eq (d : Document) :
    d.diagnostics = (Model.ofDocument d).violations.map Diagnostic.ofViolation := rfl

/-- Errors at a class's head are about that class alone, so there is none exactly if the class
implements what it lists. -/
theorem no_error_iff_implements {d : Document} {c : Symbol}
    (isClass : c ∈ (Model.ofDocument d).ofKind .classType) :
    (∀ g ∈ d.diagnostics, g.span = c.site.header → g.severity ≠ .error) ↔
      (Model.ofDocument d).Implements c := by
  rw [Model.implements_iff, diagnostics_eq]
  constructor
  · intro quiet name listed v owes
    have reported : Diagnostic.ofViolation v ∈
        (Model.ofDocument d).violations.map Diagnostic.ofViolation :=
      List.mem_map_of_mem (Model.mem_violations.mpr ⟨c, isClass, name, listed, owes⟩)
    have warns := quiet _ reported (Model.span_of_mem_owed owes)
    cases severe : v.fault.isError with
    | false => rfl
    | true => exact absurd (by simp [Diagnostic.ofViolation, severe]) warns
  · intro quiet g reported here
    obtain ⟨v, violated, rfl⟩ := List.mem_map.mp reported
    obtain ⟨c', isClass', name, listed, owes⟩ := Model.mem_violations.mp violated
    have same : c' = c := by
      refine eq_of_header_eq (List.mem_of_mem_filter isClass') (List.mem_of_mem_filter isClass) ?_
      exact (Model.span_of_mem_owed owes).symm.trans here
    subst same
    simp [Diagnostic.ofViolation, quiet name listed v owes]

end Document

/-- What a class owes is reported class by class, in the order of its implements list and then of
the interface's methods, and nothing else is. In a document, a class is without errors exactly if
every known interface that it lists is implemented by name; missing methods are errors and unknown
interfaces are warnings, from whichever side the diagnostics are asked for. -/
theorem conformance_exact :
    (∀ m : Model,
      m.violations = (m.ofKind .classType).flatMap fun c => c.implements.flatMap (m.owed c)) ∧
    ∀ d : Document,
      (∀ c ∈ (Model.ofDocument d).ofKind .classType,
        (∀ g ∈ d.diagnostics, g.span = c.site.header → g.severity ≠ .error) ↔
          (Model.ofDocument d).Implements c) ∧
      d.analysis.diagnostics = d.diagnostics ∧
      d.diagnostics.map (fun g => (g.span, g.severity, g.message)) =
        (Model.ofDocument d).violations.map fun v =>
          (v.span, (match v.fault with
            | .missingMethod _ _ => .error
            | .unknownInterface => .warning), v.message) := by
  refine ⟨Model.violations_eq_owed, fun d => ⟨fun c isClass => ?_, rfl, ?_⟩⟩
  · exact Document.no_error_iff_implements isClass
  · rw [Document.diagnostics_eq, List.map_map]
    refine List.map_congr_left fun v _ => ?_
    cases severe : v.fault <;> simp [Diagnostic.ofViolation, Fault.isError, severe]

/-- A document that declares an interface twice, and a class that has only the method of the first
declaration. -/
def redeclaring : Document :=
  .ofString "Named \x7b\nname()\n\x7d\nNamed \x7b\nlabel()\n\x7d\nTag : Named \x7b\nname() => 1\n\x7d"

/-- The later declaration counts, so the class of `redeclaring` does not implement its interface. -/
theorem conformance_exact_redeclaring :
    ∃ c ∈ (Model.ofDocument redeclaring).ofKind .classType,
      c.implements = ["Named"] ∧ ¬ (Model.ofDocument redeclaring).Implements c := by
  have isClass : (⟨"Tag", ⟨⟨⟨6, 0⟩, ⟨8, 1⟩⟩, ⟨⟨6, 0⟩, ⟨6, 3⟩⟩, ⟨⟨6, 0⟩, ⟨6, 13⟩⟩⟩,
      .classType ["Named"] [⟨"name", ⟨⟨⟨7, 0⟩, ⟨7, 11⟩⟩, ⟨⟨7, 0⟩, ⟨7, 4⟩⟩, ⟨⟨7, 0⟩, ⟨7, 11⟩⟩⟩,
        .method ⟨"", none⟩⟩]⟩ : Symbol) ∈ (Model.ofDocument redeclaring).ofKind .classType := by
    decide +kernel
  refine ⟨_, isClass, rfl, fun implements => ?_⟩
  have quiet := ((conformance_exact.2 redeclaring).1 _ isClass).mpr implements
  revert quiet
  decide +kernel

end SymbolIndex
