import SymbolIndex.Proofs.Clauses

/-! Single lines of written declarations, read back. Each line is read as what it was written from and
by no reader that is tried before the right one, and its braces are those of its body alone. -/
namespace SymbolIndex.Writing

open Shape

section Characters

/-- No name begins with a blank or a mark of punctuation. -/
theorem ne_of_name {name : List Char} (fits : Piece.name.Fits name) :
    ∃ c later, name = c :: later ∧ c ≠ '/' ∧ c ≠ '\x7d' ∧ c ≠ ' ' := by
  obtain ⟨c, later, rfl, starts, -⟩ := fits
  have differs (d : Char) (no : Text.isNameStart d = false) : c ≠ d :=
    Lexical.ne_of_class starts no
  exact ⟨c, later, rfl, differs _ rfl, differs _ rfl, differs _ rfl⟩

theorem typeChars (type : TypeName) : ∀ c ∈ type.text, isPlainTypeChar c = true := by
  obtain ⟨text, c, later, rfl, first, others⟩ := type
  exact List.forall_mem_cons.mpr ⟨first, others⟩

theorem inert_typeName (type : TypeName) : Lexical.Inert type.text :=
  Lexical.inert_of_class (typeChars type) rfl rfl rfl rfl rfl

theorem inert_resultText (result : Option TypeName) : Lexical.Inert (resultText result) := by
  cases result with
  | none => simp [resultText, Lexical.Inert]
  | some type =>
    have punctuation : Lexical.Inert [':', ' '] := by simp [Lexical.Inert, Lexical.isQuoteMark]
    exact Lexical.inert_append.mpr ⟨punctuation, inert_typeName type⟩

theorem inert_callText {name : List Char} (fits : Piece.name.Fits name) (parameters : Parameters)
    (result : Option TypeName) : Lexical.Inert (callText name parameters result) := by
  have opening : Lexical.Inert ['('] := by simp [Lexical.Inert, Lexical.isQuoteMark]
  have closing : Lexical.Inert [')'] := by simp [Lexical.Inert, Lexical.isQuoteMark]
  have inside : Lexical.Inert parameters.text :=
    Lexical.inert_of_class parameters.chars rfl rfl rfl rfl rfl
  refine Lexical.inert_append.mpr ⟨inert_nameChars (nameChars_of_name fits), ?_⟩
  refine Lexical.inert_append (a := ['(']) |>.mpr ⟨opening, Lexical.inert_append.mpr ⟨inside, ?_⟩⟩
  exact Lexical.inert_append (a := [')']) |>.mpr ⟨closing, inert_resultText result⟩

end Characters

section Balances

theorem braceBalance_inert {s : List Char} (inert : Lexical.Inert s) : braceBalance s = 0 :=
  (Lexical.after_inert Lexical.plain_ne_slash inert).2

/-- After a blank, what follows inert characters counts as if it stood alone. -/
theorem braceBalance_inert_blank {s : List Char} (inert : Lexical.Inert s) (rest : List Char) :
    braceBalance (s ++ ' ' :: rest) = braceBalance rest := by
  obtain ⟨⟨tail, noSlash, inCode⟩, zero⟩ := Lexical.after_inert Lexical.plain_ne_slash inert
  have stays : (Lexical.code tail).next ' ' = Lexical.start := by
    simp [Lexical.next, noSlash, Lexical.isQuoteMark, Lexical.tailOf, Lexical.start]
  have weighs : (Lexical.code tail).weight ' ' = 0 := rfl
  rw [braceBalance, Lexical.scan_append, Lexical.start, zero, inCode, Lexical.scan_cons, weighs,
    stays, Int.zero_add, Int.zero_add]
  rfl

theorem braceBalance_head {s : List Char} (inert : Lexical.Inert s) :
    braceBalance (s ++ [' ', '\x7b']) = 1 := braceBalance_inert_blank inert ['\x7b']

theorem braceBalance_short {name : List Char} (fits : Piece.name.Fits name) (parameters : Parameters)
    (result : Option TypeName) (body : Expression) :
    braceBalance (callText name parameters result ++ shortText body) = braceBalance body.text := by
  have arrow : Lexical.Inert [' ', '=', '>'] := by simp [Lexical.Inert, Lexical.isQuoteMark]
  have inert := Lexical.inert_append.mpr ⟨inert_callText fits parameters result, arrow⟩
  rw [← braceBalance_inert_blank inert body.text]
  simp [shortText]

end Balances

section Callables

/-- What is written of a callable before its body is a heading. -/
theorem callText_eq (name : List Char) (parameters : Parameters) (result : Option TypeName) :
    callText name parameters result =
      headingText name parameters.text (result.map TypeName.text) := by
  cases result <;> rfl

theorem signature_eq (parameters : Parameters) (result : Option TypeName) :
    signature parameters result =
      headingSignature parameters.text (result.map TypeName.text) := by
  cases result <;> rfl

theorem plain_written (result : Option TypeName) : Plain (result.map TypeName.text) := by
  intro text member
  obtain ⟨type, -, rfl⟩ := Option.map_eq_some_iff.mp member
  exact type.fits

theorem not_mem_parameters (parameters : Parameters) {c : Char} (no : isParameterChar c = false) :
    c ∉ parameters.text := not_mem_of_class parameters.chars no

/-- A callable with a body is read as what it was written from, with the body that follows. -/
theorem callable?_call {name : List Char} (fits : Piece.name.Fits name)
    (noControl : opensControlFlow (String.ofList name) = false) (parameters : Parameters)
    (result : Option TypeName) {c : Char} (unblank : Text.isBlank c = false) (noColon : c ≠ ':')
    (tail : List Char) :
    ∃ column, callable? (callText name parameters result ++ ' ' :: c :: tail) =
      (body? column (c :: tail)).map
        (⟨String.ofList name, signature parameters result, ·⟩) := by
  rw [callText_eq, signature_eq]
  exact callable?_headingText fits noControl (not_mem_parameters parameters rfl)
    (plain_iff.mp (plain_written result)).1 unblank noColon tail

theorem callable?_short {name : List Char} (fits : Piece.name.Fits name)
    (noControl : opensControlFlow (String.ofList name) = false) (parameters : Parameters)
    (result : Option TypeName) (body : Expression) :
    callable? (callText name parameters result ++ shortText body) =
      some ⟨String.ofList name, signature parameters result, .expression⟩ := by
  obtain ⟨column, reads⟩ := callable?_call fits noControl parameters result (c := '=') rfl
    (by decide) ('>' :: ' ' :: body.text)
  exact reads

theorem callable?_long {name : List Char} (fits : Piece.name.Fits name)
    (noControl : opensControlFlow (String.ofList name) = false) (parameters : Parameters)
    (result : Option TypeName) :
    ∃ column, callable? (callText name parameters result ++ [' ', '\x7b']) =
      some ⟨String.ofList name, signature parameters result, .block column⟩ := by
  obtain ⟨column, reads⟩ := callable?_call fits noControl parameters result (c := '\x7b') rfl
    (by decide) []
  exact ⟨column, reads⟩

theorem signature?_of_arrow {line : List Char} (arrow : Text.occursIn ['=', '>'] line = true) :
    signature? line = none := by
  rw [signature?, arrow]
  rfl

/-- A heading that stands alone is read as a method without a body. -/
theorem signature?_heading (heading : Heading) (oneLine : '\n' ∉ heading.text) :
    signature? heading.text = some (String.ofList heading.name.text, heading.signature) := by
  have parameters {c : Char} := not_mem_parameters heading.parameters (c := c)
  have noNewline : '\n' ∉ heading.parameters.text := fun member =>
    oneLine (by simp [Heading.text, callText, member])
  have plain := plain_written heading.result
  have typed := (plain_iff.mp plain).1
  rw [Heading.text, callText_eq, signature?_headingText heading.name noNewline (parameters rfl)
    (parameters rfl) heading.parameters.noArrow typed, (lastResult?_typeText typed).1 plain,
    Heading.signature, signature_eq]
  rfl

end Callables

section Refusals

theorem containerHead?_of_take? {line : List Char} (plain : plainHead.take? line = none)
    (implementing : implementingHead.take? line = none) : containerHead? line = none := by
  rw [containerHead?, plainHead?, plain, implementingHead?, implementing]
  rfl

theorem containerHead?_of_not_capital {c : Char} (lower : c.isUpper = false) (s : List Char) :
    containerHead? (c :: s) = none := by
  refine containerHead?_of_take? ?_ ?_ <;>
    simp [plainHead, implementingHead, Pattern.take?, Piece.take?, containerName, lower]

/-- A call is no head of a container, whatever it is a call of. -/
theorem containerHead?_call {name : List Char} (fits : Piece.name.Fits name) (rest : List Char) :
    containerHead? (name ++ '(' :: rest) = none := by
  obtain ⟨c, later, rfl, starts, goes⟩ := fits
  cases capital : c.isUpper with
  | false => exact containerHead?_of_not_capital capital _
  | true =>
    have named : containerName.Fits (c :: later) := ⟨c, later, rfl, capital, goes⟩
    have stops : containerName.Stops ([] ++ '(' :: rest) := Piece.word_stops rfl
    exact containerHead?_of_take? (Pattern.take?_of_other named stops Text.blanks_nil rfl (by decide) _)
      (Pattern.take?_of_other named stops Text.blanks_nil rfl (by decide) _)

end Refusals

section Values

theorem take?_field (name : Identifier) (type : TypeName) :
    fieldHead.take? (name.text ++ resultText (some type)) =
      some ([name.text, [], [':'], [' '], type.text], []) := by
  have typed := (plain_iff.mp (plain_written (some type))).1 type.text rfl
  have takes : Pattern.Takes fieldHead [name.text, [], [':'], [' '], type.text] [] := by
    obtain ⟨c, later, text, first, -⟩ := type.fits
    have unblank := isBlank_of_isPlainTypeChar first
    refine .cons name.fits ?_ (.cons ?_ ?_ (.cons rfl trivial (.cons Text.blanks_space ?_
      (.cons typed ?_ .nil))))
    · exact Piece.word_stops rfl
    · exact Text.blanks_nil
    · exact Piece.run_stops rfl
    · rw [text]
      exact Piece.run_stops unblank
    · simp [Piece.some1, Piece.Stops]
  simpa [resultText] using Pattern.take?_of_takes takes

/-- No parenthesis and no brace is in a field. -/
theorem not_mem_field (name : Identifier) (type : TypeName) {c : Char}
    (named : Text.isNameChar c = false) (typed : isPlainTypeChar c = false) (colon : c ≠ ':')
    (blank : c ≠ ' ') : c ∉ name.text ++ resultText (some type) := by
  have inName : c ∉ name.text := not_mem_of_class (nameChars_of_name name.fits) named
  have inType : c ∉ type.text := not_mem_of_class (typeChars type) typed
  simp [resultText, inName, inType, colon, blank]

theorem field?_written (name : Identifier) (type : TypeName) :
    field? (name.text ++ resultText (some type)) =
      some ⟨String.ofList name.text, String.ofList type.text⟩ := by
  have noCall : (name.text ++ resultText (some type)).contains '(' = false := by
    rw [← Bool.not_eq_true, List.contains_iff_mem]
    exact not_mem_field name type rfl rfl (by decide) (by decide)
  rw [field?, noCall, take?_field]
  rfl

/-- A field opens no call, so none of the readers that are tried before takes it. -/
theorem call_field (name : Identifier) (type : TypeName) (later : Pattern) :
    Pattern.take? (.name :: .blanks :: .literal ['('] :: later)
      (name.text ++ resultText (some type)) = none := by
  have stops : Piece.name.Stops ([] ++ ':' :: ' ' :: type.text) := Piece.word_stops rfl
  exact Pattern.take?_of_other name.fits stops Text.blanks_nil rfl (by decide) later

theorem callable?_of_take? {line : List Char} (heads : heading.take? line = none) :
    callable? line = none := by
  rw [callable?, heads]

theorem field_refused (name : Identifier) (type : TypeName) :
    signature? (name.text ++ resultText (some type)) = none ∧
    callable? (name.text ++ resultText (some type)) = none ∧
    wrapped? (name.text ++ resultText (some type)) = none := by
  have opens : openCall.take? (name.text ++ resultText (some type)) = none := call_field name type []
  refine ⟨?_, callable?_of_take? (call_field name type _), ?_⟩
  · rw [signature?, opens]
    split <;> rfl
  · rw [wrapped?, opens]
    split <;> rfl

theorem constantChars (name : ConstantName) : ∀ c ∈ name.text, Text.isNameChar c = true :=
  (constantName_fits name.fits).2

theorem exists_of_constantName (name : ConstantName) :
    ∃ c later, name.text = c :: later ∧ Text.isNameChar c = true := by
  obtain ⟨c, later, text, -⟩ := name.fits
  exact ⟨c, later, text, constantChars name c (by simp [text])⟩

/-- The text of a value begins with what is not blank and is not trimmed any further. -/
theorem constantValue?_written (value : Expression) (oneLine : '\n' ∉ value.text) :
    constantValue? (' ' :: value.text) = some value.text := by
  obtain ⟨start, ends⟩ := Text.trimStart_of_trim value.trimmed
  have start' : Text.trimStart (' ' :: value.text) = value.text :=
    (Text.trimStart_blanks_append Text.blanks_space value.text).trans start
  have single : value.text.contains '\n' = false := by
    rw [← Bool.not_eq_true, List.contains_iff_mem]
    exact oneLine
  rw [constantValue?, start']
  cases empty : value.text with
  | nil => exact absurd empty value.nonempty
  | cons c rest =>
    rw [empty] at single ends
    simp only [single, ends, Bool.false_eq_true, ↓reduceIte]

theorem take?_constant (name : ConstantName) (rest : List Char) :
    constantHead.take? (['c', 'o', 'n', 's', 't', ' '] ++ name.text ++ ' ' :: '=' :: rest) =
      some ([['c', 'o', 'n', 's', 't'], [' '], name.text, [' '], ['=']], rest) := by
  have takes : Pattern.Takes constantHead
      [['c', 'o', 'n', 's', 't'], [' '], name.text, [' '], ['=']] rest := by
    obtain ⟨c, later, text, named⟩ := exists_of_constantName name
    have unblank := Text.isBlank_of_isNameChar named
    refine .cons rfl trivial (.cons ⟨' ', [], rfl, rfl, by simp⟩ ?_ (.cons name.fits ?_
      (.cons Text.blanks_space ?_ (.cons rfl trivial .nil))))
    · rw [text]
      exact Piece.word_stops unblank
    · exact Piece.word_stops rfl
    · exact Piece.run_stops rfl
  simpa using Pattern.take?_of_takes takes

theorem constant?_written (name : ConstantName) (value : Expression)
    (oneLine : '\n' ∉ value.text) :
    ∃ column, constant?
      (['c', 'o', 'n', 's', 't', ' '] ++ name.text ++ ' ' :: '=' :: ' ' :: value.text) =
        some ⟨String.ofList name.text, column, String.ofList value.text⟩ := by
  refine ⟨Pattern.width [['c', 'o', 'n', 's', 't'], [' ']], ?_⟩
  rw [constant?, take?_constant]
  simp only [constantValue?_written value oneLine, Option.map_some]

/-- A constant is no call and no head. -/
theorem constant_refused (name : ConstantName) (rest : List Char) :
    callable? (['c', 'o', 'n', 's', 't', ' '] ++ name.text ++ rest) = none ∧
    containerHead? (['c', 'o', 'n', 's', 't', ' '] ++ name.text ++ rest) = none := by
  refine ⟨callable?_of_take? ?_, containerHead?_of_not_capital (by decide) _⟩
  obtain ⟨c, later, text, named⟩ := exists_of_constantName name
  have word : Piece.name.Fits ['c', 'o', 'n', 's', 't'] :=
    ⟨'c', ['o', 'n', 's', 't'], rfl, rfl, List.all_eq_true.mp rfl⟩
  have stops : Piece.name.Stops ([' '] ++ c :: (later ++ rest)) := Piece.word_stops rfl
  have refused := Pattern.take?_of_other word stops Text.blanks_space (Text.isBlank_of_isNameChar named)
    (Lexical.ne_of_class named rfl : c ≠ '(') [.run (· != ')'), .literal [')'], .blanks]
  have line : ['c', 'o', 'n', 's', 't', ' '] ++ name.text ++ rest =
      ['c', 'o', 'n', 's', 't'] ++ ([' '] ++ c :: (later ++ rest)) := by simp [text]
  rw [line]
  exact refused

theorem braceBalance_constant (name : ConstantName) (value : Expression) :
    braceBalance (['c', 'o', 'n', 's', 't', ' '] ++ name.text ++ ' ' :: '=' :: ' ' :: value.text) =
      braceBalance value.text := by
  have word : Lexical.Inert ['c', 'o', 'n', 's', 't', ' '] := by
    simp [Lexical.Inert, Lexical.isQuoteMark]
  have mark : Lexical.Inert [' ', '='] := by simp [Lexical.Inert, Lexical.isQuoteMark]
  have capitals : Lexical.Inert name.text := inert_nameChars (constantChars name)
  have inert := Lexical.inert_append.mpr ⟨Lexical.inert_append.mpr ⟨word, capitals⟩, mark⟩
  rw [← braceBalance_inert_blank inert value.text]
  simp

theorem braceBalance_field (name : Identifier) (type : TypeName) :
    braceBalance (name.text ++ resultText (some type)) = 0 :=
  braceBalance_inert (Lexical.inert_append.mpr
    ⟨inert_nameChars (nameChars_of_name name.fits), inert_resultText (some type)⟩)

end Values

section Clauses

/-- The names of a written clause, with the blanks that it puts around them. -/
def listedNames : (first : ContainerName) → List ContainerName → List ListedName
  | last, [] => [⟨[' '], last, [' '], Text.blanks_space, Text.blanks_space⟩]
  | first, second :: names =>
    ⟨[' '], first, [], Text.blanks_space, Text.blanks_nil⟩ :: listedNames second names

theorem listedText_listedNames (first : ContainerName) (names : List ContainerName) :
    listedText (listedNames first names) =
      ' ' :: [',', ' '].intercalate ((first :: names).map ContainerName.text) ++ [' '] := by
  induction names generalizing first with
  | nil => simp [listedNames, listedText, ListedName.text]
  | cons second names ih =>
    obtain ⟨listed, later, shape⟩ : ∃ listed later, listedNames second names = listed :: later := by
      cases names <;> exact ⟨_, _, rfl⟩
    have rest := ih second
    rw [shape] at rest
    rw [listedNames, shape, listedText_cons, rest]
    simp [ListedName.text]

theorem map_listedNames (first : ContainerName) (names : List ContainerName) :
    (listedNames first names).map (fun listed => String.ofList listed.name.text) =
      (first :: names).map fun name => String.ofList name.text := by
  induction names generalizing first with
  | nil => rfl
  | cons second names ih => exact congrArg (_ :: ·) (ih second)

/-- A written clause is not cramped: a blank stands before the brace. -/
theorem exists_listedNames (first : ContainerName) (names : List ContainerName) :
    ∃ listed later, listedNames first names = listed :: later ∧ ¬ Cramped (listed :: later) := by
  match names with
  | [] => exact ⟨_, _, rfl, nofun⟩
  | [second] => exact ⟨_, _, rfl, nofun⟩
  | second :: third :: names => exact ⟨_, _, rfl, nofun⟩

theorem clauseChars (first : ContainerName) (names : List ContainerName) :
    ∀ c ∈ [',', ' '].intercalate ((first :: names).map ContainerName.text), isClauseChar c = true := by
  intro c member
  apply listedText_chars (listedNames first names)
  rw [listedText_listedNames]
  exact List.mem_cons_of_mem _ (List.mem_append_left _ member)

theorem plainHead_take? (name : ContainerName) :
    plainHead.take? (name.text ++ [' ', '\x7b']) = some ([name.text, [' '], ['\x7b']], []) := by
  have takes : Pattern.Takes plainHead [name.text, [' '], ['\x7b']] [] := by
    refine .cons name.fits ?_ (.cons Text.blanks_space ?_ (.cons rfl trivial .nil))
    · exact Piece.word_stops rfl
    · exact Piece.run_stops rfl
  simpa using Pattern.take?_of_takes takes

/-- The head of a container is read as what it was written from. -/
theorem containerHead?_written (name : ContainerName) (implements : List ContainerName) :
    ∃ column, containerHead? (name.text ++ clauseText implements ++ [' ', '\x7b']) =
      some ⟨String.ofList name.text,
        match implements with
        | [] => none
        | names => some (names.map fun i => String.ofList i.text), column⟩ := by
  cases implements with
  | nil =>
    refine ⟨Pattern.width [name.text, [' ']], ?_⟩
    rw [clauseText, List.append_nil, containerHead?, plainHead?, plainHead_take?]
    rfl
  | cons first names =>
    obtain ⟨listed, later, shape, roomy⟩ := exists_listedNames first names
    have text := listedText_listedNames first names
    have listedAll := map_listedNames first names
    rw [shape] at text listedAll
    have line : name.text ++ clauseText (first :: names) ++ [' ', '\x7b'] =
        implementingText name [' '] (listed :: later) ++ ['\x7b'] := by
      rw [implementingText, text]
      simp [clauseText]
    refine ⟨(implementingText name [' '] (listed :: later)).length, ?_⟩
    rw [line, containerHead?, plainHead?_implementingText name Text.blanks_space,
      implementingHead?_of_roomy name Text.blanks_space listed later [] roomy, listedAll]
    rfl

theorem inert_clauseText (implements : List ContainerName) :
    Lexical.Inert (clauseText implements) := by
  cases implements with
  | nil => simp [clauseText, Lexical.Inert]
  | cons first names =>
    have punctuation : Lexical.Inert [' ', ':', ' '] := by
      simp [Lexical.Inert, Lexical.isQuoteMark]
    exact Lexical.inert_append.mpr
      ⟨punctuation, Lexical.inert_of_class (clauseChars first names) rfl rfl rfl rfl rfl⟩

theorem braceBalance_container (name : ContainerName) (implements : List ContainerName) :
    braceBalance (name.text ++ clauseText implements ++ [' ', '\x7b']) = 1 :=
  braceBalance_head
    (Lexical.inert_append.mpr ⟨inert_nameChars (containerChars name), inert_clauseText implements⟩)

end Clauses

end SymbolIndex.Writing
