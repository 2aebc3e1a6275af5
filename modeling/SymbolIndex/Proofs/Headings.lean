import SymbolIndex.Conformance
import SymbolIndex.Proofs.Shapes
import SymbolIndex.Proofs.Writing

/-! Headings of callables, read with a body and without. Two readers take the same name and the same
parameters but types of different alphabets, so a method that a class can implement is one that an
interface can declare just for some result types, which are told apart here. -/
namespace SymbolIndex

namespace Shape

section Characters

theorem isBlank_of_isTypeChar {c : Char} (typed : isTypeChar c = true) : Text.isBlank c = false := by
  simp only [isTypeChar, isPlainTypeChar, Bool.or_eq_true, beq_iff_eq] at typed
  obtain ((((named | rfl) | rfl) | rfl) | rfl) | rfl := typed
  · exact Text.isBlank_of_isNameChar named
  all_goals rfl

theorem isTypeChar_of_isPlainTypeChar {c : Char} (plain : isPlainTypeChar c = true) :
    isTypeChar c = true := by
  simp [isTypeChar, plain]

theorem isBlank_of_isPlainTypeChar {c : Char} (plain : isPlainTypeChar c = true) :
    Text.isBlank c = false := isBlank_of_isTypeChar (isTypeChar_of_isPlainTypeChar plain)

/-- The marks that a type may have with a body and not without one. -/
theorem isPlainTypeChar_iff {c : Char} :
    isPlainTypeChar c = true ↔ isTypeChar c = true ∧ c ≠ '<' ∧ c ≠ '>' ∧ c ≠ '?' := by
  constructor
  · intro plain
    have differs (d : Char) (no : isPlainTypeChar d = false) : c ≠ d := Lexical.ne_of_class plain no
    exact ⟨isTypeChar_of_isPlainTypeChar plain, differs _ rfl, differs _ rfl, differs _ rfl⟩
  · rintro ⟨typed, left, right, mark⟩
    simpa [isTypeChar, left, right, mark] using typed

end Characters

/-- A result type, where one is given. -/
def typeText : Option (List Char) → List Char
  | none => []
  | some type => ':' :: ' ' :: type

/-- A name with its parameters and its result type. -/
def headingText (name parameters : List Char) (result : Option (List Char)) : List Char :=
  name ++ '(' :: (parameters ++ ')' :: typeText result)

/-- The signature that parameters and a result type give. -/
def headingSignature (parameters : List Char) (result : Option (List Char)) : Signature :=
  ⟨String.ofList (Text.trim parameters), result.map String.ofList⟩

section Readers

variable {name parameters : List Char} (fits : Piece.name.Fits name)

include fits in
/-- A name opens a call. -/
theorem openCall_take? (rest : List Char) :
    openCall.take? (name ++ '(' :: rest) = some ([name, [], ['(']], rest) := by
  have takes : Pattern.Takes openCall [name, [], ['(']] rest := by
    refine .cons fits ?_ (.cons ?_ ?_ (.cons rfl trivial .nil))
    · exact Piece.word_stops rfl
    · exact Text.blanks_nil
    · exact Piece.run_stops rfl
  simpa using Pattern.take?_of_takes takes

include fits in
/-- A name with its parameters is the heading of a callable. -/
theorem heading_take? (closing : ')' ∉ parameters) {gap rest : List Char} (blank : Text.Blanks gap)
    (stop : ∀ c, rest.head? = some c → Text.isBlank c = false) :
    heading.take? (name ++ '(' :: (parameters ++ ')' :: (gap ++ rest))) =
      some ([name, [], ['('], parameters, [')'], gap], rest) := by
  have inside := Piece.run_ne_fits_iff.mpr closing
  have takes : Pattern.Takes heading [name, [], ['('], parameters, [')'], gap] rest := by
    refine .cons fits ?_ (.cons ?_ ?_ (.cons rfl trivial (.cons inside ?_ (.cons rfl trivial
      (.cons blank stop .nil)))))
    · exact Piece.word_stops rfl
    · exact Text.blanks_nil
    · exact Piece.run_stops rfl
    · simp [Piece.Stops]
  simpa using Pattern.take?_of_takes takes

/-- A type is read up to the blanks behind it. -/
theorem resultType_take? {type gap rest : List Char} (typed : (Piece.some1 isTypeChar).Fits type)
    (blank : Text.Blanks gap) (stop : ∀ c, rest.head? = some c → Text.isBlank c = false)
    (ends : (Piece.some1 isTypeChar).Stops (gap ++ rest)) :
    resultType.take? (':' :: ' ' :: (type ++ (gap ++ rest))) =
      some ([[':'], [' '], type, gap], rest) := by
  have takes : Pattern.Takes resultType [[':'], [' '], type, gap] rest := by
    obtain ⟨c, later, rfl, first, -⟩ := id typed
    refine .cons rfl trivial (.cons Text.blanks_space ?_ (.cons typed ?_ (.cons blank stop .nil)))
    · exact Piece.run_stops (isBlank_of_isTypeChar first)
    · simpa using ends
  simpa using Pattern.take?_of_takes takes

include fits in
/-- A heading is read with the body that follows it, whatever type the result has. -/
theorem callable?_headingText (noControl : opensControlFlow (String.ofList name) = false)
    (closing : ')' ∉ parameters) {result : Option (List Char)}
    (typed : ∀ type ∈ result, (Piece.some1 isTypeChar).Fits type) {c : Char}
    (unblank : Text.isBlank c = false) (noColon : c ≠ ':') (tail : List Char) :
    ∃ column, callable? (headingText name parameters result ++ ' ' :: c :: tail) =
      (body? column (c :: tail)).map
        (⟨String.ofList name, headingSignature parameters result, ·⟩) := by
  have stop : ∀ d, (c :: tail).head? = some d → Text.isBlank d = false := by simp [unblank]
  cases result with
  | none =>
    have heads := heading_take? fits closing Text.blanks_space stop
    have noType : resultType.take? (c :: tail) = none := by
      simp [resultType, Pattern.take?, Piece.take?, Text.startsWith, Text.afterPrefix?, Ne.symm noColon]
    have line : headingText name parameters none ++ ' ' :: c :: tail =
        name ++ '(' :: (parameters ++ ')' :: ([' '] ++ c :: tail)) := by
      simp [headingText, typeText]
    refine ⟨Pattern.width [name, [], ['('], parameters, [')'], [' ']], ?_⟩
    rw [line, callable?, heads]
    simp only [noControl, Bool.false_eq_true, ↓reduceIte, resultAndBody?, noType, Option.map_map]
    rfl
  | some type =>
    have colon : ∀ d, (':' :: ' ' :: (type ++ ([' '] ++ c :: tail))).head? = some d →
        Text.isBlank d = false := by simp [Text.isBlank]
    have heads := heading_take? fits closing Text.blanks_nil colon
    have types := resultType_take? (typed type rfl) Text.blanks_space stop (Piece.word_stops rfl)
    have line : headingText name parameters (some type) ++ ' ' :: c :: tail =
        name ++ '(' :: (parameters ++ ')' ::
          ([] ++ ':' :: ' ' :: (type ++ ([' '] ++ c :: tail)))) := by
      simp [headingText, typeText]
    refine ⟨Pattern.width [name, [], ['('], parameters, [')'], []] +
      Pattern.width [[':'], [' '], type, [' ']], ?_⟩
    rw [line, callable?, heads]
    simp only [noControl, Bool.false_eq_true, ↓reduceIte, resultAndBody?, types, Option.map_map]
    rfl

end Readers

section Types

variable {result : Option (List Char)}

/-- A type of plain characters, where one is given. -/
def Plain (result : Option (List Char)) : Prop :=
  ∀ type ∈ result, (Piece.some1 isPlainTypeChar).Fits type

/-- A type as a callable with a body can have one, where one is given. -/
def Typed (result : Option (List Char)) : Prop :=
  ∀ type ∈ result, (Piece.some1 isTypeChar).Fits type

/-- None of the marks that a type can only have with a body. -/
def Unmarked (result : Option (List Char)) : Prop :=
  ∀ type ∈ result, ∀ c ∈ type, c ≠ '<' ∧ c ≠ '>' ∧ c ≠ '?'

theorem plain_iff : Plain result ↔ Typed result ∧ Unmarked result := by
  cases result with
  | none => simp [Plain, Typed, Unmarked]
  | some type =>
    simp only [Plain, Typed, Unmarked, Option.mem_some_iff, forall_eq', Piece.some1_fits_iff,
      isPlainTypeChar_iff]
    constructor
    · rintro ⟨nonempty, plain⟩
      exact ⟨⟨nonempty, fun c member => (plain c member).1⟩, fun c member => (plain c member).2⟩
    · rintro ⟨⟨nonempty, typed⟩, unmarked⟩
      exact ⟨nonempty, fun c member => ⟨typed c member, unmarked c member⟩⟩

/-- A type is the result of a signature line just if it is plain. -/
theorem lastResult?_typeText (typed : Typed result) :
    (Plain result → lastResult? (typeText result) = some result) ∧
      (¬ Plain result → lastResult? (typeText result) = none) := by
  cases result with
  | none => exact ⟨fun _ => rfl, fun marked => absurd nofun marked⟩
  | some type =>
    obtain ⟨nonempty, chars⟩ := Piece.some1_fits_iff.mp (typed type rfl)
    have bare : Text.trimStart type = type := by
      obtain ⟨c, later, rfl⟩ := List.exists_cons_of_ne_nil nonempty
      exact Text.trimStart_of_unblank (isBlank_of_isTypeChar (chars c List.mem_cons_self)) later
    have start : Text.trimStart (' ' :: type) = type :=
      (Text.trimStart_blanks_append Text.blanks_space type).trans bare
    have colon : Text.trimStart (':' :: ' ' :: type) = ':' :: ' ' :: type :=
      Text.trimStart_of_unblank rfl _
    have whole : Plain (some type) ↔ type.all isPlainTypeChar = true := by
      simp [Plain, Piece.some1_fits_iff, nonempty]
    rw [whole, typeText, lastResult?, colon]
    constructor
    · intro plain
      simp [start, nonempty, plain]
    · intro marked
      simp [start, marked]

theorem plain_of_lastResult? {s : List Char} (reads : lastResult? s = some result) : Plain result := by
  unfold lastResult? at reads
  split at reads
  · obtain rfl := Option.some.inj reads
    exact nofun
  · dsimp only at reads
    split at reads
    · cases reads
    · rename_i typed
      obtain rfl := Option.some.inj reads
      rintro _ ⟨⟩
      rw [Piece.some1_fits_iff]
      simpa using typed
  · cases reads

/-- Parameters end at a parenthesis behind which only a result type stands. -/
theorem parametersAndResult?_some {s parameters : List Char}
    (reads : parametersAndResult? s = some (parameters, result)) :
    ∃ rest, s = parameters ++ ')' :: rest ∧ lastResult? rest = some result := by
  induction s generalizing parameters with
  | nil => cases reads
  | cons c s ih =>
    have further {reads' : Option (List Char × Option (List Char))} (later : reads' = parametersAndResult? s)
        (same : reads'.map (fun found => (c :: found.1, found.2)) = some (parameters, result)) :
        ∃ rest, c :: s = parameters ++ ')' :: rest ∧ lastResult? rest = some result := by
      obtain ⟨⟨parameters', _⟩, reads', same⟩ := Option.map_eq_some_iff.mp same
      obtain ⟨rfl, rfl⟩ := Prod.mk.inj same
      obtain ⟨rest, rfl, last⟩ := ih (later.symm.trans reads')
      exact ⟨rest, rfl, last⟩
    rw [parametersAndResult?.eq_def] at reads
    split at reads
    · cases reads
    · rename_i same
      obtain ⟨rfl, rfl⟩ := List.cons.inj same
      split at reads
      · rename_i last
        obtain ⟨rfl, rfl⟩ := Prod.mk.inj (Option.some.inj reads)
        exact ⟨s, rfl, last⟩
      · exact further rfl reads
    · cases reads
    · rename_i same
      obtain ⟨rfl, rfl⟩ := List.cons.inj same
      exact further rfl reads

theorem plain_of_parametersAndResult? {s parameters : List Char}
    (reads : parametersAndResult? s = some (parameters, result)) : Plain result := by
  obtain ⟨rest, -, last⟩ := parametersAndResult?_some reads
  exact plain_of_lastResult? last

theorem parametersAndResult?_of_not_mem {s : List Char} (closing : ')' ∉ s) :
    parametersAndResult? s = none := by
  induction s with
  | nil => rfl
  | cons c s ih =>
    obtain ⟨other, later⟩ := List.ne_and_not_mem_of_not_mem_cons closing
    by_cases newline : c = '\n'
    · subst newline
      rfl
    · rw [parametersAndResult?, ih later]
      · rfl
      · exact Ne.symm other
      · exact newline

/-- Parameters without a closing parenthesis end at the first one. -/
theorem parametersAndResult?_append {parameters s : List Char} (oneLine : '\n' ∉ parameters)
    (closing : ')' ∉ parameters) (last : ')' ∉ s) :
    parametersAndResult? (parameters ++ ')' :: s) = (lastResult? s).map (parameters, ·) := by
  induction parameters with
  | nil =>
    rw [List.nil_append, parametersAndResult?, parametersAndResult?_of_not_mem last]
    cases lastResult? s <;> rfl
  | cons c parameters ih =>
    obtain ⟨noNewline, later⟩ := List.ne_and_not_mem_of_not_mem_cons oneLine
    obtain ⟨noClosing, later'⟩ := List.ne_and_not_mem_of_not_mem_cons closing
    rw [List.cons_append, parametersAndResult?, ih later later', Option.map_map]
    · rfl
    · exact Ne.symm noClosing
    · exact Ne.symm noNewline

end Types

section Results

variable {result : Option (List Char)}

theorem not_mem_typeText (typed : Typed result) {c : Char} (outside : isTypeChar c = false)
    (colon : c ≠ ':') (blank : c ≠ ' ') : c ∉ typeText result := by
  cases result with
  | none => exact List.not_mem_nil
  | some type =>
    have inside : c ∉ type := not_mem_of_class (Piece.some1_fits_iff.mp (typed type rfl)).2 outside
    simp [typeText, colon, blank, inside]

/-- A heading is read without a body if its type can be. -/
theorem signature?_headingText (name : Writing.CallableName) {parameters : List Char}
    (oneLine : '\n' ∉ parameters) (closing : ')' ∉ parameters) (braceless : '\x7b' ∉ parameters)
    (noArrow : Text.occursIn ['=', '>'] parameters = false) (typed : Typed result) :
    signature? (headingText name.text parameters result) =
      (lastResult? (typeText result)).map
        fun type => (String.ofList name.text, headingSignature parameters type) := by
  have fits := name.fits
  have named {c : Char} (outside : Text.isNameChar c = false) : c ∉ name.text :=
    not_mem_of_class (nameChars_of_name fits) outside
  have arrows : Text.occursIn ['=', '>'] (headingText name.text parameters result) = false := by
    have typeless := not_mem_typeText typed (c := '=') rfl (by decide) (by decide)
    refine Text.occursIn_pair_append (Text.occursIn_pair_of_not_mem (named rfl)) ?_ (by decide)
      (by decide)
    exact Text.occursIn_pair_append noArrow (Text.occursIn_pair_of_not_mem typeless) (by decide)
      (by decide)
  have braces : (headingText name.text parameters result).contains '\x7b' = false := by
    rw [← Bool.not_eq_true, List.contains_iff_mem]
    have nameless : '\x7b' ∉ name.text := named rfl
    have typeless := not_mem_typeText typed (c := '\x7b') rfl (by decide) (by decide)
    simp [headingText, nameless, braceless, typeless]
  have last := not_mem_typeText typed (c := ')') rfl (by decide) (by decide)
  rw [signature?, arrows, braces, headingText, openCall_take? fits]
  simp only [Bool.or_false, Bool.false_eq_true, ↓reduceIte, name.noControl, name.noConstructor,
    parametersAndResult?_append oneLine closing last, Option.map_map]
  rfl

theorem typed_of_callable? {line : List Char} {c : Callable} (reads : callable? line = some c) :
    ∃ result, c.signature.result = result.map String.ofList ∧ Typed result := by
  obtain ⟨name, gap, parameters, gap', result, rest, -, -, -, -, -, -, same, follows⟩ := callable?_some reads
  refine ⟨result, same, ?_⟩
  cases follows with
  | body => exact nofun
  | result blank typed =>
    rintro _ ⟨⟩
    exact typed

theorem plain_of_signature? {line : List Char} {name : String} {signature : Signature}
    (reads : signature? line = some (name, signature)) :
    ∃ result, signature.result = result.map String.ofList ∧ Plain result := by
  unfold signature? at reads
  split at reads
  · cases reads
  · split at reads
    · dsimp only at reads
      split at reads
      · cases reads
      · obtain ⟨⟨parameters, result⟩, follows, same⟩ := Option.map_eq_some_iff.mp reads
        obtain ⟨-, rfl⟩ := Prod.mk.inj same
        exact ⟨result, rfl, plain_of_parametersAndResult? follows⟩
    · cases reads

theorem map_ofList_inj {a b : Option (List Char)} (same : a.map String.ofList = b.map String.ofList) :
    a = b := Option.map_injective (fun _ _ => String.ofList_inj.mp) same

/-- A heading alone is neither a callable with a body nor anything else that has none. -/
theorem heading_refused {name parameters : List Char} (fits : Piece.name.Fits name)
    (closing : ')' ∉ parameters) (typed : Typed result) :
    callable? (headingText name parameters result) = none ∧
      wrapped? (headingText name parameters result) = none ∧
      field? (headingText name parameters result) = none := by
  refine ⟨?_, ?_, ?_⟩
  · have stop : ∀ c, (typeText result).head? = some c → Text.isBlank c = false := by
      cases result <;> simp [typeText, Text.isBlank]
    have nothing : ∀ c, ([] : List Char).head? = some c → Text.isBlank c = false := by simp
    have line : headingText name parameters result =
        name ++ '(' :: (parameters ++ ')' :: ([] ++ typeText result)) := rfl
    have bodiless (column : Nat) : resultAndBody? column (typeText result) = none := by
      cases result with
      | none => rfl
      | some type =>
        have ends : (Piece.some1 isTypeChar).Stops ([] ++ []) := by simp [Piece.some1, Piece.Stops]
        have types := resultType_take? (typed type rfl) Text.blanks_nil nothing ends
        rw [List.append_nil, List.append_nil] at types
        rw [typeText, resultAndBody?, types]
        rfl
    rw [line, callable?, heading_take? fits closing Text.blanks_nil stop]
    simp only [bodiless, Option.map_none, ite_self]
  · have closed : (headingText name parameters result).contains ')' = true :=
      List.contains_iff_mem.mpr (by simp [headingText])
    rw [wrapped?, if_pos closed]
  · have called : (headingText name parameters result).contains '(' = true :=
      List.contains_iff_mem.mpr (by simp [headingText])
    rw [field?, if_pos called]

end Results

end Shape

open Shape

section Methods

variable (name : Writing.CallableName) {parameters : List Char} (oneLine : '\n' ∉ parameters)
  (closing : ')' ∉ parameters) (braceless : '\x7b' ∉ parameters)
  (noArrow : Text.occursIn ['=', '>'] parameters = false) {result : Option (List Char)}
include oneLine closing braceless noArrow

/-- A heading on a line of its own declares a method if its type is not marked, and else nothing. -/
theorem Container.declared?_headingText (typed : Typed result) {l : Line}
    (text : l.trimmed = headingText name.text parameters result) :
    (Unmarked result → declared? l = some (.signature
      ⟨String.ofList name.text, l.site 0 (String.ofList name.text) l.stop,
        .method (headingSignature parameters result)⟩)) ∧
      (¬ Unmarked result → declared? l = none) := by
  have reads := signature?_headingText name oneLine closing braceless noArrow typed
  obtain ⟨plainly, markedly⟩ := lastResult?_typeText typed
  constructor
  · intro unmarked
    rw [declared?, Shape.memberLine?, text, reads, plainly (plain_iff.mpr ⟨typed, unmarked⟩)]
    rfl
  · intro marked
    have unplain : ¬ Plain result := fun plain => marked (plain_iff.mp plain).2
    obtain ⟨bodiless, unwrapped, fieldless⟩ := heading_refused name.fits closing typed
    rw [declared?, Shape.memberLine?, text, reads, markedly unplain, bodiless, unwrapped, fieldless]
    rfl

end Methods

/-- What a class can implement an interface can declare just if its result type has none of three marks.
A heading that is read with a body is read as the same method without one unless its type is marked,
and then its line in an interface declares nothing. -/
theorem signature_iff_callable (name : Writing.CallableName) {parameters : List Char}
    (oneLine : '\n' ∉ parameters) (closing : ')' ∉ parameters) (braceless : '\x7b' ∉ parameters)
    (noArrow : Text.occursIn ['=', '>'] parameters = false) (result : Option (List Char)) :
    (signature? (headingText name.text parameters result) =
        some (String.ofList name.text, headingSignature parameters result) ↔
      (∃ column, callable? (headingText name.text parameters result ++ [' ', '\x7b']) =
        some ⟨String.ofList name.text, headingSignature parameters result, .block column⟩) ∧
      Unmarked result) ∧
    ∀ (l : Line) (column : Nat), l.trimmed = headingText name.text parameters result →
      callable? (l.trimmed ++ [' ', '\x7b']) =
        some ⟨String.ofList name.text, headingSignature parameters result, .block column⟩ →
      (Unmarked result → Container.declared? l = some (.signature
        ⟨String.ofList name.text, l.site 0 (String.ofList name.text) l.stop,
          .method (headingSignature parameters result)⟩)) ∧
      (¬ Unmarked result → Container.declared? l = none) := by
  have typed {line : List Char} {body : Shape.Body} (reads : callable? line =
      some ⟨String.ofList name.text, headingSignature parameters result, body⟩) : Typed result := by
    obtain ⟨result', same, typed⟩ := typed_of_callable? reads
    exact map_ofList_inj same ▸ typed
  refine ⟨⟨?_, ?_⟩, ?_⟩
  · intro reads
    obtain ⟨result', same, plain⟩ := plain_of_signature? reads
    obtain rfl := map_ofList_inj same
    obtain ⟨typed, unmarked⟩ := plain_iff.mp plain
    obtain ⟨column, bodied⟩ := callable?_headingText name.fits name.noControl closing typed
      (c := '\x7b') rfl (by decide) []
    exact ⟨⟨column, bodied⟩, unmarked⟩
  · rintro ⟨⟨column, reads⟩, unmarked⟩
    have plainly := (lastResult?_typeText (typed reads)).1 (plain_iff.mpr ⟨typed reads, unmarked⟩)
    rw [signature?_headingText name oneLine closing braceless noArrow (typed reads), plainly]
    rfl
  · intro l column text reads
    exact Container.declared?_headingText name oneLine closing braceless noArrow (typed reads) text

/-- The name of a method. -/
def perimeter : Writing.CallableName where
  text := ['p', 'e', 'r', 'i', 'm', 'e', 't', 'e', 'r']
  fits := ⟨'p', ['e', 'r', 'i', 'm', 'e', 't', 'e', 'r'], rfl, rfl, List.all_eq_true.mp rfl⟩
  noControl := by decide +kernel
  noConstructor := by decide +kernel

/-- A method with a plain result type is read without a body as well, and one with an optional result
declares nothing. -/
theorem signature_of_perimeter :
    signature? (headingText perimeter.text "scale: int".toList (some "float".toList)) =
        some ("perimeter", ⟨"scale: int", some "float"⟩) ∧
      Container.declared? (Document.lineOf 1 "  perimeter(scale: int): float?".toList []) = none := by
  have oneLine : '\n' ∉ "scale: int".toList := by decide +kernel
  have reads (result : Option (List Char)) := signature_iff_callable perimeter oneLine (by decide +kernel)
    (by decide +kernel) (by decide +kernel) result
  constructor
  · refine (reads (some "float".toList)).1.mpr ⟨⟨29, by decide +kernel⟩, ?_⟩
    rintro _ ⟨⟩
    simp
  · refine ((reads (some "float?".toList)).2 _ 30 (by decide +kernel) (by decide +kernel)).2 ?_
    intro unmarked
    exact (unmarked _ rfl '?' (by decide +kernel)).2.2 rfl

/-- An optional result is a type of a callable with a body and not of one without. A class that lacks
the method violates nothing. -/
theorem signature_drops_optional :
    callable? "area(): float? \x7b".toList = some ⟨"area", ⟨"", some "float?"⟩, .block 15⟩ ∧
      signature? "area(): float?".toList = none ∧
      (Model.ofString "Shape \x7b\n  area(): float?\n\x7d\nCircle : Shape \x7b\n\x7d\n").violations.length =
        0 := by
  decide +kernel

end SymbolIndex
