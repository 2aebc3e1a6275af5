import SymbolIndex.Proofs.ItemReading
import SymbolIndex.Proofs.JsonRoundTrip
import SymbolIndex.Proofs.MessageTexts

/-! What a consumer gets as the message of a diagnostic. From JSON it is the message. From YAML it is the
message if that is a single line; a message of several lines is a literal block, whose last line is ended
by a break that counts, so the consumer gets one break more. Characters that YAML cannot hold stop its
reader before that. -/
namespace SymbolIndex

namespace Diagnostic

/-- The message that a reader of YAML finds under its key. -/
def yamlMessage? (g : Diagnostic) : Option YamlScalar :=
  (YamlItem.read? 2 (String.join (g.yamlLines.map (· ++ "\n"))).toList).bind (List.lookup "message")

/-- The message that a reader of JSON finds under its key. -/
def jsonMessage? (g : Diagnostic) : Option String :=
  (JsonValue.ofText? g.toJson.render.toList).bind (JsonValue.required? JsonValue.text? "message")

theorem jsonMessage?_eq (g : Diagnostic) : g.jsonMessage? = some g.message := by
  have reads : JsonValue.ofText? g.toJson.render.toList = some g.toJson.value :=
    JsonValue.ofText?_of_denotes (Json.denotes_render g.toJson).bare
  rw [jsonMessage?, reads, Option.bind_some, toJson, required?_value]
  simp [Span.fields, List.lookup_cons]

section Leading

variable (g : Diagnostic)

/-- A number under a key. -/
def numberEntry (key : String) (isKey : Yaml.isKey key = true)
    (word : YamlScalar.typed? key.toList = none) (n : Nat) : YamlItem.Entry :=
  ⟨key, toString n, .integer n, isKey, word, YamlScalar.read?_number n⟩

/-- What is written before the message of a diagnostic. -/
def leading : List YamlItem.Entry :=
  [⟨"severity", g.severity.word, .text g.severity.word.toList, rfl, by decide, by
      cases g.severity <;> decide⟩,
    numberEntry "line" rfl (by decide) (shown g.span.start.line),
    numberEntry "column" rfl (by decide) (shown g.span.start.column),
    numberEntry "endLine" rfl (by decide) (shown g.span.stop.line),
    numberEntry "endColumn" rfl (by decide) (shown g.span.stop.column),
    ⟨"source", Yaml.inlined conformanceSource, .text conformanceSource.toList, rfl, by decide, by decide⟩]

theorem undashed?_yamlLines (conforms : g.source = conformanceSource) :
    YamlItem.undashed? 2 (g.yamlLines.map String.toList) =
      some (g.leading.map (fun e => (e.line 4).toList) ++
        (Yaml.text 4 "message" g.message).map String.toList) := by
  have first : Yaml.indented 4 ("severity: " ++ g.severity.word) =
      Yaml.plain 4 "severity" g.severity.word := by
    rw [Yaml.plain]
    rfl
  have second : Yaml.indented 4 g.span.firstLine = Yaml.number 4 "line" (shown g.span.start.line) :=
    Yaml.indented_indented 4 0 _
  rw [yamlLines_eq, YamlItem.undashed?_item, first, second, conforms]
  rfl

/-- The message of a diagnostic is read on its own. -/
theorem yamlMessage?_eq (conforms : g.source = conformanceSource) (blockable : Blockable g.message)
    {v : Option YamlScalar}
    (begins : (YamlItem.nested 4 ((Yaml.text 4 "message" g.message).map String.toList)).1 = [])
    (reads : YamlItem.fields? 4 ((Yaml.text 4 "message" g.message).map String.toList) =
      v.map fun v => [("message", v)]) : g.yamlMessage? = v := by
  have fields := YamlItem.Entry.fields?_lines g.leading begins
  unfold yamlMessage? YamlItem.read?
  rw [YamlItem.lines?_join (oneLine blockable)]
  simp only [Option.bind_eq_bind, Option.bind_some, undashed?_yamlLines g conforms, fields, reads]
  cases v with
  | none => rfl
  | some v =>
    have distinct : ((g.leading.map YamlItem.Entry.field ++ [("message", v)]).map Prod.fst).Nodup := by
      change ["severity", "line", "column", "endLine", "endColumn", "source", "message"].Nodup
      decide
    simp only [Option.map_some, Option.bind_some, if_pos distinct]
    rfl

end Leading

/-- A message of one line is read as a scalar. -/
theorem yamlMessage?_inline {g : Diagnostic} (conforms : g.source = conformanceSource)
    (oneLine : '\n' ∉ g.message.toList)
    (bare : YamlItem.header? (Scalar.inlined g.message.toList) = none) :
    g.yamlMessage? = YamlScalar.read? (Scalar.inlined g.message.toList) := by
  have isKey : Yaml.isKey "message" = true := rfl
  have written : (Yaml.inlined g.message).toList = Scalar.inlined g.message.toList :=
    String.toList_ofList
  have lines : (Yaml.text 4 "message" g.message).map String.toList =
      [(Yaml.plain 4 "message" (Yaml.inlined g.message)).toList] := by
    rw [Yaml.text, if_neg (by simpa using oneLine)]
    rfl
  refine yamlMessage?_eq g conforms (fun several => absurd several oneLine) ?_ ?_
  · rw [lines, YamlItem.nested_cons (YamlItem.isBelow_plain isKey _)]
  · rw [lines, YamlItem.fields?_plain isKey (by decide) (written ▸ bare) rfl, written]
    exact (Option.map_eq_bind ..).symm

/-- A message of several lines is read from its block, with a line break behind it. -/
theorem yamlMessage?_block {g : Diagnostic} (conforms : g.source = conformanceSource)
    (several : '\n' ∈ g.message.toList)
    (begins : ∃ c later, g.message.toList = c :: later ∧ c ≠ ' ' ∧ c ≠ '\n')
    (free : '\r' ∉ g.message.toList) (ends : g.message.toList.getLast? ≠ some '\n') :
    g.yamlMessage? =
      if g.message.toList.all fun c => c == '\n' || YamlScalar.isPrintable c then
        some (.text (g.message.toList ++ ['\n']))
      else none := by
  have isKey : Yaml.isKey "message" = true := rfl
  have lines : (Yaml.text 4 "message" g.message).map String.toList =
      (Yaml.plain 4 "message" "|").toList ::
        (Scalar.blockLines g.message.toList).map (YamlItem.shifted 6) := by
    rw [Yaml.text, if_pos (by simpa using several), YamlItem.toList_block]
  have deeper : ∀ line ∈ (Scalar.blockLines g.message.toList).map (YamlItem.shifted 6),
      YamlItem.isBelow 4 line = true :=
    List.forall_mem_map.mpr fun line _ => YamlItem.isBelow_shifted (by omega) line
  refine yamlMessage?_eq g conforms (fun _ => ⟨free, ends⟩) ?_ ?_
  · rw [lines, YamlItem.nested_cons (YamlItem.isBelow_plain isKey _)]
  · rw [lines, YamlItem.fields?_block isKey (by decide) deeper, YamlItem.literal?_blockLines begins free ends]
    split <;> rfl

end Diagnostic

namespace Violation

variable {v : Violation}

theorem toList_message_of_unknown (fault : v.fault = .unknownInterface) : v.message.toList =
    "Interface '".toList ++ (v.interfaceName.toList ++ "' not found".toList) := by
  rw [message, fault, String.toList_append, String.toList_append, List.append_assoc]

/-- What a message about a missing method ends with. -/
def advice : String :=
  "\n\nAdd this method to the class or remove the interface from the implements clause"

/-- A message about a missing method has several lines, the first and the last of which are filled. -/
theorem lines_of_missing {name : String} {signature : Signature}
    (fault : v.fault = .missingMethod name signature) :
    (∃ later, v.message.toList = 'C' :: later) ∧ '\n' ∈ v.message.toList ∧
      v.message.toList.getLast? = some 'e' := by
  obtain ⟨middle, whole⟩ : ∃ middle, v.message = "Class '" ++ (middle ++ advice) := by
    refine ⟨v.className ++ "' does not implement method '" ++ name ++ "' from interface '"
      ++ v.interfaceName ++ "'\n\nRequired: " ++ signature.label name, ?_⟩
    simp only [message, fault, advice, String.append_assoc]
  have text : v.message.toList = "Class '".toList ++ (middle.toList ++ advice.toList) := by
    rw [whole, String.toList_append, String.toList_append]
  have several : '\n' ∈ advice.toList := by decide
  have last : advice.toList.getLast? = some 'e' := by decide
  refine ⟨⟨_, text⟩, ?_, ?_⟩
  · rw [text]
    exact List.mem_append_right _ (List.mem_append_right _ several)
  · rw [text, List.getLast?_append, List.getLast?_append, last]
    rfl

section Unknown

variable (fault : v.fault = .unknownInterface)
  (clause : ∀ c ∈ v.interfaceName.toList, Shape.isClauseChar c = true ∧ c ≠ '\n' ∧ c ≠ '\r')
include fault

theorem exists_message_of_unknown : ∃ later, v.message.toList = 'I' :: later :=
  ⟨_, toList_message_of_unknown fault⟩

theorem getLast?_message_of_unknown : v.message.toList.getLast? = some 'd' := by
  have last : "' not found".toList.getLast? = some 'd' := by decide
  rw [toList_message_of_unknown fault, List.getLast?_append, List.getLast?_append, last]
  rfl

include clause

theorem unbroken_of_unknown : ∀ c ∈ v.message.toList, c ∉ Scalar.breakers := by
  have before : ∀ c ∈ "Interface '".toList, c ∉ Scalar.breakers := List.all_iff_forall_prop.mp (by decide)
  have behind : ∀ c ∈ "' not found".toList, c ∉ Scalar.breakers :=
    List.all_iff_forall_prop.mp (by decide)
  rw [toList_message_of_unknown fault]
  refine List.forall_mem_append.mpr ⟨before, List.forall_mem_append.mpr ⟨?_, behind⟩⟩
  intro c member breaks
  obtain ⟨listed, noNewline, noReturn⟩ := clause c member
  have apart : ∀ d ∈ Scalar.breakers, Shape.isClauseChar d = true → d = '\n' ∨ d = '\r' :=
    List.all_iff_forall_prop.mp (by decide)
  exact (apart c breaks listed).elim noNewline noReturn

/-- A message about an unknown interface needs no quotes. -/
theorem plain_of_unknown : Scalar.mustQuote v.message.toList = false := by
  obtain ⟨later, text⟩ := exists_message_of_unknown fault
  have last := getLast?_message_of_unknown fault
  have unbroken := unbroken_of_unknown fault clause
  rw [text] at last unbroken ⊢
  refine Scalar.mustQuote_cons_eq_false_iff.mpr ⟨by decide, ?_, ?_, ?_, unbroken⟩
  · have words : ∀ word ∈ Scalar.reservedWords, word.toList.head? ≠ some 'I' := by decide
    intro reserved
    exact words _ reserved (by rw [String.toList_ofList]; rfl)
  · refine Bool.eq_false_iff.mpr fun number => ?_
    obtain ⟨-, digits, -⟩ := (YamlScalar.resemblesNumber_iff _).mp number
    rw [YamlScalar.unsigned_of_initial (by decide)] at digits
    exact nomatch digits 'I' List.mem_cons_self
  · rw [last]
    decide

/-- A message about an unknown interface is read as it is. -/
theorem read?_of_unknown : YamlScalar.read? v.message.toList =
    if v.message.toList.all YamlScalar.isPrintable then some (.text v.message.toList) else none := by
  have plain := plain_of_unknown fault clause
  obtain ⟨later, text⟩ := exists_message_of_unknown fault
  have unpadded : v.message.toList.head?.any Text.isGap = false := by
    rw [text]
    rfl
  have whole : Text.dropEndWhile Text.isGap v.message.toList = v.message.toList := by
    refine Text.dropEndWhile_eq_self_iff.mpr fun c last => ?_
    rw [getLast?_message_of_unknown fault] at last
    obtain rfl := Option.some.inj last
    rfl
  have untyped : YamlScalar.typed? v.message.toList = none := by
    have known : ¬ YamlScalar.Overlooked v.message.toList := by
      rw [text]
      exact YamlScalar.not_overlooked_of_initial rfl (by decide) later
    rwa [← YamlScalar.isSome_typed?_iff plain, Option.not_isSome_iff_eq_none] at known
  have itself := YamlScalar.resolve_eq_text_iff.mpr ⟨untyped, rfl⟩
  rw [YamlScalar.read?_of_unpadded plain unpadded, whole, itself]

end Unknown

end Violation

namespace Document

variable {d : Document} (free : '\r' ∉ d.chars)
include free

section Violated

variable {v : Violation} (violated : v ∈ (Model.ofDocument d).violations)
include violated

theorem yamlMessage?_of_unknown (fault : v.fault = .unknownInterface) :
    '\n' ∉ v.message.toList ∧ (Diagnostic.ofViolation v).yamlMessage? =
      if v.message.toList.all YamlScalar.isPrintable then some (.text v.message.toList) else none := by
  obtain ⟨l, inside, entry⟩ := clause_of_violated violated
  have clause : ∀ c ∈ v.interfaceName.toList, Shape.isClauseChar c = true ∧ c ≠ '\n' ∧ c ≠ '\r' := by
    intro c member
    obtain ⟨onLine, listed⟩ := entry c member
    obtain ⟨within, noNewline⟩ := mem_of_mem_trimmed inside onLine
    exact ⟨listed, noNewline, fun same => free (same ▸ within)⟩
  have unbroken := Violation.unbroken_of_unknown fault clause
  have oneLine : '\n' ∉ v.message.toList := fun member => unbroken '\n' member (by decide)
  have written := Scalar.inlined_of_plain (Violation.plain_of_unknown fault clause)
  have bare : YamlItem.header? (Scalar.inlined v.message.toList) = none := by
    obtain ⟨later, text⟩ := Violation.exists_message_of_unknown fault
    rw [written, text]
    exact YamlItem.header?_cons rfl (by decide) later
  have reads := Diagnostic.yamlMessage?_inline (g := .ofViolation v) rfl oneLine bare
  refine ⟨oneLine, reads.trans ?_⟩
  change YamlScalar.read? (Scalar.inlined v.message.toList) = _
  rw [written, Violation.read?_of_unknown fault clause]

theorem yamlMessage?_of_missing {name : String} {signature : Signature}
    (fault : v.fault = .missingMethod name signature) :
    '\n' ∈ v.message.toList ∧ (Diagnostic.ofViolation v).yamlMessage? =
      if v.message.toList.all fun c => c == '\n' || YamlScalar.isPrintable c then
        some (.text (v.message.toList ++ ['\n']))
      else none := by
  obtain ⟨⟨later, text⟩, several, last⟩ := Violation.lines_of_missing fault
  have begins : ∃ c later, v.message.toList = c :: later ∧ c ≠ ' ' ∧ c ≠ '\n' :=
    ⟨'C', later, text, by decide, by decide⟩
  have ends : v.message.toList.getLast? ≠ some '\n' := by
    rw [last]
    decide
  have returnFree := return_not_mem_message violated free
  exact ⟨several, Diagnostic.yamlMessage?_block (g := .ofViolation v) rfl several begins returnFree ends⟩

end Violated

/-- Every message comes back from JSON, and from YAML with a line break behind it if it has several
lines, unless it has characters that YAML cannot hold. -/
theorem messages_read {g : Diagnostic} (reported : g ∈ d.diagnostics) :
    g.jsonMessage? = some g.message ∧
      g.yamlMessage? =
        if g.message.toList.all fun c => c == '\n' || YamlScalar.isPrintable c then
          some (.text (g.message.toList ++ if '\n' ∈ g.message.toList then ['\n'] else []))
        else none := by
  refine ⟨g.jsonMessage?_eq, ?_⟩
  obtain ⟨v, violated, rfl⟩ := List.mem_map.mp reported
  have message : (Diagnostic.ofViolation v).message = v.message := rfl
  cases fault : v.fault with
  | unknownInterface =>
    obtain ⟨oneLine, reads⟩ := yamlMessage?_of_unknown free violated fault
    rw [reads, message, if_neg oneLine, List.append_nil, YamlItem.all_of_not_mem oneLine]
  | missingMethod name signature =>
    obtain ⟨several, reads⟩ := yamlMessage?_of_missing free violated fault
    rw [reads, message, if_pos several]

end Document

/-- A class that lacks the one method of its interface. -/
def unfulfilled : Document :=
  .ofString "Shape \x7b\n    area(): float\n\x7d\nSquare : Shape \x7b\n    side: float\n\x7d\n"

def unfulfilledArea : Violation :=
  ⟨"Square", "Shape", .missingMethod "area" ⟨"", some "float"⟩, ⟨⟨3, 0⟩, ⟨3, 16⟩⟩⟩

theorem unfulfilledArea_violated : unfulfilledArea ∈ (Model.ofDocument unfulfilled).violations := by
  decide +kernel

theorem messages_read_of_unfulfilled : '\r' ∉ unfulfilled.chars ∧ ∃ g ∈ unfulfilled.diagnostics,
    g.jsonMessage? = some g.message ∧ g.yamlMessage? = some (.text (g.message.toList ++ ['\n'])) := by
  have free : '\r' ∉ unfulfilled.chars := by decide
  have reported : Diagnostic.ofViolation unfulfilledArea ∈ unfulfilled.diagnostics :=
    List.mem_map_of_mem unfulfilledArea_violated
  obtain ⟨json, yaml⟩ := Document.messages_read free reported
  refine ⟨free, _, reported, json, ?_⟩
  have printable : (unfulfilledArea.message.toList.all fun c => c == '\n' || YamlScalar.isPrintable c) =
      true := by
    simp only [unfulfilledArea, Violation.message, Signature.label, String.toList_append,
      List.all_append]
    decide
  have several : '\n' ∈ unfulfilledArea.message.toList := (Violation.lines_of_missing rfl).2.1
  have message : (Diagnostic.ofViolation unfulfilledArea).message = unfulfilledArea.message := rfl
  rw [yaml, message, if_pos printable, if_pos several]

/-- A class that lists a name with a vertical tab in it. -/
def garbled : Document := .ofString "Square : A\x0bB \x7b\n\x7d\n"

/-- What is read from a block is not the message but has a line break more, and a vertical tab in a
message stops the reader. -/
theorem message_gains_break :
    ('\r' ∉ unfulfilled.chars ∧ ∃ g ∈ unfulfilled.diagnostics, g.jsonMessage? = some g.message ∧
      g.yamlMessage? ≠ some (.text g.message.toList)) ∧
    ('\r' ∉ garbled.chars ∧ ∃ g ∈ garbled.diagnostics, g.jsonMessage? = some g.message ∧
      g.yamlMessage? = none) := by
  constructor
  · have free : '\r' ∉ unfulfilled.chars := by decide
    obtain ⟨-, reads⟩ := Document.yamlMessage?_of_missing free unfulfilledArea_violated rfl
    refine ⟨free, _, List.mem_map_of_mem unfulfilledArea_violated, Diagnostic.jsonMessage?_eq _, ?_⟩
    rw [reads]
    split
    · simp [Diagnostic.ofViolation]
    · exact (Option.some_ne_none _).symm
  · have free : '\r' ∉ garbled.chars := by decide
    have violated : (⟨"Square", "A\x0bB", .unknownInterface, ⟨⟨0, 0⟩, ⟨0, 14⟩⟩⟩ : Violation) ∈
        (Model.ofDocument garbled).violations := by decide +kernel
    obtain ⟨-, reads⟩ := Document.yamlMessage?_of_unknown free violated rfl
    refine ⟨free, _, List.mem_map_of_mem violated, Diagnostic.jsonMessage?_eq _, ?_⟩
    rw [reads, Violation.toList_message_of_unknown rfl]
    decide

end SymbolIndex
