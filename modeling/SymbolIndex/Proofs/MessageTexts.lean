import SymbolIndex.Proofs.Declarations
import SymbolIndex.Proofs.Headings
import SymbolIndex.Proofs.Scalars
import SymbolIndex.Proofs.Violations

/-! What messages are made of. A violation names a class, an interface and a method with its signature,
and each of these texts was read from one line: the name and the clause of a class from a head, a method
that is required from a line of the interface. What is known of such lines is so known of the messages. -/
namespace SymbolIndex

namespace Container

/-- The name and the clause of a container are those of a head, and each of its methods without a body
is what some line declares. -/
structure ReadFrom (lines : List Line) (b : Container) : Prop where
  headed : ∃ l ∈ lines, ∃ head, Shape.containerHead? l.trimmed = some head ∧ b.name = head.name ∧
    b.implements = head.implements
  signed : ∀ m ∈ b.signatures.toList, ∃ l ∈ lines, declared? l = some (.signature m)

theorem collect_implements (b : Container) (l : Line) : (b.collect l).implements = b.implements := by
  unfold collect
  split
  · rfl
  · split <;> rfl

variable {lines : List Line} {b : Container} {l : Line}

theorem ReadFrom.noting (read : b.ReadFrom lines) : (b.noting l).ReadFrom lines :=
  ⟨read.headed, read.signed⟩

theorem ReadFrom.collect (read : b.ReadFrom lines) (inside : l ∈ lines) :
    (b.collect l).ReadFrom lines := by
  constructor
  · obtain ⟨l', above, head, reads, name, implements⟩ := read.headed
    refine ⟨l', above, head, reads, ?_, ?_⟩
    · rw [(b.collect_site l).1, name]
    · rw [b.collect_implements l, implements]
  · intro m member
    rcases mem_signatures_collect member with before | declares
    · exact read.signed m before
    · exact ⟨l, inside, declares⟩

theorem ReadFrom.grown (read : b.ReadFrom lines) (inside : l ∈ lines) : (b.grown l).ReadFrom lines := by
  have noted := read.noting (l := l)
  have collected := noted.collect inside
  unfold Container.grown
  dsimp only
  split
  · exact ⟨collected.headed, collected.signed⟩
  · exact ⟨noted.headed, noted.signed⟩

/-- A container closes as an interface with its methods without a body or as a class with its clause. -/
theorem close_cases (b : Container) :
    (b.close.kind = .interfaceType ∧ b.close.members = b.signatures.toList) ∨
      (b.close.kind = .classType ∧ b.close.implements = b.implements.getD []) := by
  unfold close Symbol.kind Symbol.members Symbol.implements
  cases b.isInterface with
  | true => exact .inl ⟨rfl, rfl⟩
  | false => exact .inr ⟨rfl, rfl⟩

end Container

namespace Document

variable {d : Document} {s : Symbol}

/-- A container of a document is one that was read from its lines. -/
theorem readFrom_of_isContainer (member : s ∈ (Model.ofDocument d).symbols)
    (contains : s.kind.isContainer = true) : ∃ b : Container, b.ReadFrom d.lines ∧ s = b.close := by
  have origin := Reading.symbols_origin (Q := Container.ReadFrom d.lines) (r := .start)
    (fun b isOpen => nomatch isOpen)
    (fun l inside head reads => ⟨⟨l, inside, head, reads, rfl, rfl⟩, fun m member => nomatch member⟩)
    (fun l _ b read => read.noting) (fun l inside b read => read.grown inside) s member
  refine origin.resolve_left ?_
  rintro ⟨l, -, declares⟩
  rcases Reading.topLevel?_some declares with ⟨c, -, -, rfl⟩ | ⟨-, c, -, rfl⟩
  · exact nomatch contains
  · exact nomatch contains

/-- A class has its name and its clause from a head. -/
theorem head_of_class (member : s ∈ (Model.ofDocument d).ofKind .classType) :
    ∃ l ∈ d.lines, ∃ head, Shape.containerHead? l.trimmed = some head ∧ s.name = head.name ∧
      s.implements = head.implements.getD [] := by
  obtain ⟨inside, isClass⟩ := List.mem_filter.mp member
  have kind : s.kind = .classType := beq_iff_eq.mp isClass
  obtain ⟨b, read, rfl⟩ := readFrom_of_isContainer inside (kind ▸ rfl)
  obtain ⟨l, below, head, reads, name, implements⟩ := read.headed
  rcases b.close_cases with ⟨other, -⟩ | ⟨-, listed⟩
  · exact nomatch other.symm.trans kind
  · exact ⟨l, below, head, reads, name, by rw [listed, implements]⟩

/-- A method that an interface requires stands on a line of its own. -/
theorem signature_of_required (member : s ∈ (Model.ofDocument d).ofKind .interfaceType) {m : Member}
    (required : m ∈ s.methods) :
    ∃ l ∈ d.lines, ∃ signature, Shape.signature? l.trimmed = some (m.name, signature) ∧
      m.signature? = some signature := by
  obtain ⟨inside, isInterface⟩ := List.mem_filter.mp member
  have kind : s.kind = .interfaceType := beq_iff_eq.mp isInterface
  obtain ⟨b, read, rfl⟩ := readFrom_of_isContainer inside (kind ▸ rfl)
  have signed : m ∈ b.signatures.toList := by
    rcases b.close_cases with ⟨-, members⟩ | ⟨other, -⟩
    · exact members ▸ List.mem_of_mem_filter required
    · exact nomatch other.symm.trans kind
  obtain ⟨l, below, declares⟩ := read.signed m signed
  refine ⟨l, below, ?_⟩
  generalize found : some (Container.Entry.signature m) = finding at declares
  cases declares ▸ Container.declared?_finds l with
  | signature reads =>
    obtain rfl := Container.Entry.signature.inj (Option.some.inj found)
    exact ⟨_, reads, rfl⟩
  | callable | wrapped | field | nothing => cases found

end Document

namespace Shape

/-- The texts of a head stand on its line, and those of its clause have only the characters of one. -/
theorem containerHead?_texts {line : List Char} {head : Head} (reads : containerHead? line = some head) :
    (∀ c ∈ head.name.toList, c ∈ line) ∧
      ∀ name ∈ head.implements.getD [], ∀ c ∈ name.toList, c ∈ line ∧ isClauseChar c = true := by
  constructor
  · intro c member
    rcases containerHead?_heads reads with ⟨gap, rest, rfl, -⟩ | ⟨gap, rest, rfl, -⟩
    · exact List.mem_append_left _ member
    · exact List.mem_append_left _ member
  · obtain ⟨listed, within, implements⟩ := containerHead?_implements reads
    rw [implements]
    intro name named c member
    obtain ⟨entry, isEntry, rfl⟩ := List.mem_map.mp named
    rw [String.toList_ofList] at member
    exact within c (Text.mem_of_mem_entries isEntry member)

theorem mem_of_lastResult? {s type : List Char} (reads : lastResult? s = some (some type)) :
    ∀ c ∈ type, c ∈ s := by
  intro c member
  unfold lastResult? at reads
  split at reads
  · exact nomatch reads
  · next rest starts =>
    dsimp only at reads
    split at reads
    · exact nomatch reads
    · obtain rfl := Option.some.inj (Option.some.inj reads)
      have behind : c ∈ ':' :: rest :=
        List.mem_cons_of_mem ':' ((List.dropWhile_suffix Text.isBlank).subset member)
      rw [← starts] at behind
      exact (List.dropWhile_suffix Text.isBlank).subset behind
  · exact nomatch reads

/-- The texts of a signature stand on its line. -/
theorem signature?_texts {line : List Char} {name : String} {signature : Signature}
    (reads : signature? line = some (name, signature)) :
    ∀ text ∈ name :: signature.parameters :: signature.result.toList, ∀ c ∈ text.toList, c ∈ line := by
  unfold signature? at reads
  split at reads
  · exact nomatch reads
  · split at reads
    · next name gap opening rest taken =>
      dsimp only at reads
      split at reads
      · exact nomatch reads
      · obtain ⟨⟨parameters, result⟩, follows, same⟩ := Option.map_eq_some_iff.mp reads
        obtain ⟨rfl, rfl⟩ := Prod.mk.inj same
        obtain ⟨whole, -⟩ := Pattern.take?_eq_some_iff.mp taken
        obtain ⟨behind, rfl, last⟩ := parametersAndResult?_some follows
        have inside : ∀ c ∈ name ++ (parameters ++ behind), c ∈ line := by
          intro c member
          rw [whole]
          simp only [List.mem_append, List.flatten_cons, List.mem_cons] at member ⊢
          tauto
        rw [List.forall_mem_append, List.forall_mem_append] at inside
        obtain ⟨named, listed, further⟩ := inside
        refine List.forall_mem_cons.mpr ⟨by simpa using named, List.forall_mem_cons.mpr ⟨?_, ?_⟩⟩
        · intro c member
          rw [String.toList_ofList] at member
          exact listed c (Text.mem_of_mem_trim member)
        · intro text typed c member
          obtain ⟨type, rfl, rfl⟩ := Option.map_eq_some_iff.mp (Option.mem_toList.mp typed)
          rw [String.toList_ofList] at member
          exact further c (mem_of_lastResult? last c member)
    · exact nomatch reads

end Shape

namespace Violation

/-- The texts of a document that a message has in it. -/
def texts (v : Violation) : List String :=
  match v.fault with
  | .unknownInterface => [v.interfaceName]
  | .missingMethod name signature =>
    v.className :: v.interfaceName :: name :: signature.parameters :: signature.result.toList

end Violation

/-- A violation is about a class and a name that it lists; a method that is missing is one of an
interface. -/
theorem Model.exists_of_violated {m : Model} {v : Violation} (violated : v ∈ m.violations) :
    ∃ c ∈ m.ofKind .classType, v.className = c.name ∧ v.interfaceName ∈ c.implements ∧
      (v.fault = .unknownInterface ∨ ∃ i ∈ m.ofKind .interfaceType, ∃ required ∈ i.methods,
        v.fault = .missingMethod required.name (required.signature?.getD .empty)) := by
  obtain ⟨c, isClass, name, listed, owes⟩ := mem_violations.mp violated
  refine ⟨c, isClass, ?_⟩
  unfold owed at owes
  split at owes
  · obtain rfl := List.mem_singleton.mp owes
    exact ⟨rfl, listed, .inl rfl⟩
  · next i known =>
    obtain ⟨required, lacking, rfl⟩ := List.mem_map.mp owes
    have isInterface : i ∈ m.ofKind .interfaceType :=
      List.mem_of_mem_filter (List.mem_of_getLast? known)
    exact ⟨rfl, listed, .inr ⟨i, isInterface, required, List.mem_of_mem_filter lacking, rfl⟩⟩

namespace Document

variable {d : Document} {v : Violation} (violated : v ∈ (Model.ofDocument d).violations)
include violated

/-- The interface of a violation is an entry of a clause. -/
theorem clause_of_violated : ∃ l ∈ d.lines,
    ∀ c ∈ v.interfaceName.toList, c ∈ l.trimmed ∧ Shape.isClauseChar c = true := by
  obtain ⟨c, isClass, -, listed, -⟩ := Model.exists_of_violated violated
  obtain ⟨l, inside, head, reads, -, implements⟩ := head_of_class isClass
  refine ⟨l, inside, (Shape.containerHead?_texts reads).2 _ ?_⟩
  rwa [← implements]

/-- The texts of a message are those of lines of the document. -/
theorem line_of_text {text : String} (named : text ∈ v.texts) :
    ∃ l ∈ d.lines, ∀ c ∈ text.toList, c ∈ l.trimmed := by
  obtain ⟨entryLine, entryInside, entry⟩ := clause_of_violated violated
  have listed : ∃ l ∈ d.lines, ∀ c ∈ v.interfaceName.toList, c ∈ l.trimmed :=
    ⟨entryLine, entryInside, fun c member => (entry c member).1⟩
  obtain ⟨c, isClass, className, -, unknown | ⟨i, isInterface, required, inside, missing⟩⟩ :=
    Model.exists_of_violated violated
  · unfold Violation.texts at named
    rw [unknown] at named
    obtain rfl := List.mem_singleton.mp named
    exact listed
  · obtain ⟨l, below, head, reads, name, -⟩ := head_of_class isClass
    obtain ⟨l', below', signature, declares, same⟩ := signature_of_required isInterface inside
    unfold Violation.texts at named
    rw [missing, same] at named
    rcases List.mem_cons.mp named with rfl | named
    · exact ⟨l, below, by rw [className, name]; exact (Shape.containerHead?_texts reads).1⟩
    · rcases List.mem_cons.mp named with rfl | named
      · exact listed
      · exact ⟨l', below', Shape.signature?_texts declares text named⟩

omit violated in
theorem mem_of_mem_trimmed {l : Line} (member : l ∈ d.lines) {c : Char} (inside : c ∈ l.trimmed) :
    c ∈ d.chars ∧ c ≠ '\n' := by
  obtain ⟨tail, onward, oneLine⟩ := content_append member
  have content : c ∈ l.content := Text.mem_of_mem_trim inside
  constructor
  · rw [above_append member, onward]
    exact List.mem_append_right _ (List.mem_append_left tail content)
  · rintro rfl
    exact oneLine content

/-- What a message embeds has no character that the document has not, and no line break. -/
theorem chars_of_text {text : String} (named : text ∈ v.texts) :
    ∀ c ∈ text.toList, c ∈ d.chars ∧ c ≠ '\n' := by
  obtain ⟨l, inside, within⟩ := line_of_text violated named
  exact fun c member => mem_of_mem_trimmed inside (within c member)

/-- Messages have carriage returns only where the document has some. -/
theorem return_not_mem_message (free : '\r' ∉ d.chars) : '\r' ∉ v.message.toList := by
  have absent : ∀ text ∈ v.texts, '\r' ∉ text.toList := fun text named member =>
    free (chars_of_text violated named '\r' member).1
  unfold Violation.texts at absent
  unfold Violation.message
  cases fault : v.fault with
  | unknownInterface =>
    rw [fault] at absent
    have interfaceFree := List.forall_mem_singleton.mp absent
    simp +decide [interfaceFree]
  | missingMethod name signature =>
    rw [fault] at absent
    simp only [List.forall_mem_cons] at absent
    obtain ⟨classFree, interfaceFree, nameFree, parametersFree, resultFree⟩ := absent
    obtain ⟨parameters, _ | type⟩ := signature
    · simp +decide [classFree, interfaceFree, nameFree, parametersFree, Signature.label]
    · have typeFree := List.forall_mem_singleton.mp resultFree
      simp +decide [classFree, interfaceFree, nameFree, parametersFree, typeFree, Signature.label]

end Document

end SymbolIndex
