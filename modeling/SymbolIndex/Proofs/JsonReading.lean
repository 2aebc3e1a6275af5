import SymbolIndex.Proofs.JsonGrammar

/-! A reader of JSON, and the proof that it reads every text of the grammar to the value that the text
stands for, so that no text stands for two values. It descends into arrays and objects and leaves the
text behind what it has read; a number or a word is the longest run of characters that it could be. -/
namespace SymbolIndex.JsonValue

/-- A text without the blanks that it begins with. -/
def skipSpaces (s : List Char) : List Char := s.dropWhile isSpace

/-- The text up to the closing quote, and what follows the quote. -/
def unquote? : List Char → Option (List Char × List Char)
  | [] => none
  | '\x22' :: rest => some ([], rest)
  | '\\' :: 'u' :: a :: b :: c :: d :: s =>
    match codeUnit? a b c d with
    | none => none
    | some n =>
      if isHighHalf n then
        match s with
        | '\\' :: 'u' :: a :: b :: c :: d :: s =>
          match codeUnit? a b c d with
          | none => none
          | some low =>
            if isLowHalf low then (unquote? s).map fun (t, rest) => (joined n low :: t, rest)
            else none
        | _ => none
      else if isLowHalf n then none
      else (unquote? s).map fun (t, rest) => (Char.ofNat n :: t, rest)
  | '\\' :: c :: s =>
    match shortEscape? c with
    | none => none
    | some d => (unquote? s).map fun (t, rest) => (d :: t, rest)
  | c :: s =>
    if 0x20 ≤ c.toNat ∧ c ≠ '\\' then (unquote? s).map fun (t, rest) => (c :: t, rest) else none

/-- The characters of numbers and words. -/
def isTokenChar (c : Char) : Bool := c.isAlphanum || c == '+' || c == '-' || c == '.'

/-- The value of a number or a word. -/
def token? (s : List Char) : Option JsonValue :=
  if s = ['n', 'u', 'l', 'l'] then some .null
  else if s = ['t', 'r', 'u', 'e'] then some (.bool true)
  else if s = ['f', 'a', 'l', 's', 'e'] then some (.bool false)
  else if isNumber s then some (.number s)
  else none

mutual

/-- The value that a text begins with, and what follows it. The first argument bounds the number of
values that are entered. -/
def value? : Nat → List Char → Option (JsonValue × List Char)
  | 0, _ => none
  | _ + 1, '\x22' :: s => do
    let (t, rest) ← unquote? s
    return (.string (String.ofList t), rest)
  | fuel + 1, '[' :: s =>
    match skipSpaces s with
    | ']' :: rest => some (.array [], rest)
    | _ => do
      let (vs, rest) ← items? fuel s
      return (.array vs, rest)
  | fuel + 1, '\x7b' :: s =>
    match skipSpaces s with
    | '\x7d' :: rest => some (.object [], rest)
    | _ => do
      let (fs, rest) ← fields? fuel s
      return (.object fs, rest)
  | _ + 1, s => do
    let v ← token? (s.takeWhile isTokenChar)
    return (v, s.dropWhile isTokenChar)

/-- The items of an array up to its bracket, and what follows the bracket. -/
def items? : Nat → List Char → Option (List JsonValue × List Char)
  | 0, _ => none
  | fuel + 1, s => do
    let (v, rest) ← value? fuel (skipSpaces s)
    match skipSpaces rest with
    | ']' :: rest => return ([v], rest)
    | ',' :: rest =>
      let (vs, rest) ← items? fuel rest
      return (v :: vs, rest)
    | _ => none

/-- The fields of an object up to its brace, and what follows the brace. -/
def fields? : Nat → List Char → Option (List (String × JsonValue) × List Char)
  | 0, _ => none
  | fuel + 1, s => do
    let '\x22' :: s := skipSpaces s | none
    let (key, rest) ← unquote? s
    let ':' :: rest := skipSpaces rest | none
    let (v, rest) ← value? fuel (skipSpaces rest)
    match skipSpaces rest with
    | '\x7d' :: rest => return ([(String.ofList key, v)], rest)
    | ',' :: rest =>
      let (fs, rest) ← fields? fuel rest
      return ((String.ofList key, v) :: fs, rest)
    | _ => none

end

/-- The value of a text, if it is a value with blanks around it. -/
def ofText? (s : List Char) : Option JsonValue := do
  let (v, rest) ← value? s.length (skipSpaces s)
  if skipSpaces rest = [] then return v else none

theorem skipSpaces_append {gap : List Char} (blank : Spaces gap) (s : List Char) :
    skipSpaces (gap ++ s) = skipSpaces s := by
  induction gap with
  | nil => rfl
  | cons c gap ih =>
    obtain ⟨first, later⟩ := List.forall_mem_cons.mp blank
    rw [skipSpaces, List.cons_append, List.dropWhile_cons_of_pos first]
    exact ih later

theorem skipSpaces_cons {c : Char} (mark : isSpace c = false) (s : List Char) :
    skipSpaces (c :: s) = c :: s :=
  List.dropWhile_cons_of_neg (by simp [mark])

/-- What is spelled is read back, whatever follows the quote. -/
theorem unquote?_of_spells {s t : List Char} (spells : Spells s t) (rest : List Char) :
    unquote? (s ++ '\x22' :: rest) = some (t, rest) := by
  induction spells with
  | nil => rfl
  | plain printable unquoted unescaped _ ih =>
    simp [unquote?, printable, unescaped, ih]
  | short named _ ih =>
    rename_i c d s t later
    have single : c ≠ 'u' := by
      rintro rfl
      cases named
    simp [unquote?, named, ih, single]
  | unit digits whole _ ih =>
    rename_i n s t later
    have notHigh : isHighHalf n = false := by
      rw [isHighHalf, Bool.and_eq_false_iff, decide_eq_false_iff_not, decide_eq_false_iff_not]
      unfold Nat.isValidChar at whole
      omega
    have notLow : isLowHalf n = false := by
      rw [isLowHalf, Bool.and_eq_false_iff, decide_eq_false_iff_not, decide_eq_false_iff_not]
      unfold Nat.isValidChar at whole
      omega
    simp [unquote?, digits, notHigh, notLow, ih]
  | pair digits isHigh digits' isLow _ ih =>
    simp [unquote?, digits, isHigh, digits', isLow, ih]

/-- The text does not go on with a number or a word. -/
def Ends (s : List Char) : Prop := ∀ c ∈ s.head?, isTokenChar c = false

section Tokens

theorem isTokenChar_of_isDigit {c : Char} (digit : c.isDigit = true) : isTokenChar c = true := by
  simp [isTokenChar, Char.isAlphanum, digit]

theorem tokenChars_of_areDigits {s : List Char} (digits : areDigits s = true) :
    ∀ c ∈ s, isTokenChar c = true := by
  rw [areDigits, Bool.and_eq_true] at digits
  exact fun c member => isTokenChar_of_isDigit (List.all_eq_true.mp digits.2 c member)

theorem tokenChars_of_unsigned {s : List Char} (tokens : ∀ c ∈ unsigned s, isTokenChar c = true) :
    ∀ c ∈ s, isTokenChar c = true := by
  unfold unsigned at tokens
  split at tokens
  · exact List.forall_mem_cons.mpr ⟨rfl, tokens⟩
  · exact List.forall_mem_cons.mpr ⟨rfl, tokens⟩
  · exact tokens

theorem tokenChars_of_isExponent {s : List Char} (exponent : isExponent s = true) :
    ∀ c ∈ s, isTokenChar c = true := by
  cases s with
  | nil => simp
  | cons c s =>
    rw [isExponent, Bool.and_eq_true, Bool.or_eq_true] at exponent
    obtain ⟨letter, digits⟩ := exponent
    refine List.forall_mem_cons.mpr ⟨?_, tokenChars_of_unsigned (tokenChars_of_areDigits digits)⟩
    rcases letter with small | big
    · exact eq_of_beq small ▸ rfl
    · exact eq_of_beq big ▸ rfl

/-- Digits and then characters of tokens are such characters. -/
theorem tokenChars_of_dropWhile {s : List Char}
    (tokens : ∀ c ∈ s.dropWhile Char.isDigit, isTokenChar c = true) :
    ∀ c ∈ s, isTokenChar c = true := by
  rw [← List.takeWhile_append_dropWhile (p := Char.isDigit) (l := s), List.forall_mem_append]
  exact ⟨fun c member => isTokenChar_of_isDigit (List.mem_takeWhile_imp member), tokens⟩

theorem tokenChars_of_isFraction {s : List Char} (fraction : isFraction s = true) :
    ∀ c ∈ s, isTokenChar c = true := by
  unfold isFraction at fraction
  split at fraction
  · rw [Bool.and_eq_true] at fraction
    exact List.forall_mem_cons.mpr
      ⟨rfl, tokenChars_of_dropWhile (tokenChars_of_isExponent fraction.2)⟩
  · exact tokenChars_of_isExponent fraction

theorem tokenChars_of_isUnsignedNumber {s : List Char} (number : isUnsignedNumber s = true) :
    ∀ c ∈ s, isTokenChar c = true := by
  unfold isUnsignedNumber at number
  split at number
  · exact List.forall_mem_cons.mpr ⟨rfl, tokenChars_of_isFraction number⟩
  · rw [Bool.and_eq_true] at number
    exact List.forall_mem_cons.mpr ⟨isTokenChar_of_isDigit number.1,
      tokenChars_of_dropWhile (tokenChars_of_isFraction number.2)⟩
  · cases number

theorem tokenChars_of_isNumber {s : List Char} (number : isNumber s = true) :
    ∀ c ∈ s, isTokenChar c = true := by
  unfold isNumber at number
  split at number
  · exact List.forall_mem_cons.mpr ⟨rfl, tokenChars_of_isUnsignedNumber number⟩
  · exact tokenChars_of_isUnsignedNumber number

end Tokens

/-- A run of token characters that is a token is read as one. -/
theorem value?_token {s rest : List Char} {v : JsonValue} (tokens : ∀ c ∈ s, isTokenChar c = true)
    (ends : Ends rest) (reads : token? s = some v) (fuel : Nat) :
    value? (fuel + 1) (s ++ rest) = some (v, rest) := by
  have taken : (s ++ rest).takeWhile isTokenChar = s ∧ (s ++ rest).dropWhile isTokenChar = rest := by
    rw [List.takeWhile_append_of_pos tokens, List.dropWhile_append_of_pos tokens]
    cases rest with
    | nil => exact ⟨List.append_nil s, rfl⟩
    | cons c rest =>
      have stop := ends c rfl
      simp [stop]
  cases s with
  | nil => cases reads
  | cons c s =>
    have first := tokens c List.mem_cons_self
    have quote : c ≠ '\x22' := by rintro rfl; cases first
    have bracket : c ≠ '[' := by rintro rfl; cases first
    have brace : c ≠ '\x7b' := by rintro rfl; cases first
    rw [List.cons_append] at taken ⊢
    rw [value?]
    · rw [taken.1, taken.2, reads]
      rfl
    · simpa using quote
    · simpa using bracket
    · simpa using brace

theorem ends_space {c : Char} (blank : isSpace c = true) (s : List Char) : Ends (c :: s) := by
  rintro d ⟨⟩
  simp only [isSpace, Bool.or_eq_true, beq_iff_eq] at blank
  rcases blank with ((rfl | rfl) | rfl) | rfl <;> rfl

/-- Blanks may stand before what ends a token. -/
theorem Ends.append_left {gap s : List Char} (ends : Ends s) (blank : Spaces gap) : Ends (gap ++ s) := by
  cases gap with
  | nil => exact ends
  | cons c gap => exact ends_space (blank c List.mem_cons_self) _

theorem not_space_of_token {c : Char} (token : isTokenChar c = true) : isSpace c = false := by
  cases blank : isSpace c with
  | false => rfl
  | true =>
    have ends := ends_space blank [] c rfl
    exact absurd (token.symm.trans ends) Bool.noConfusion

/-- A value begins with a character that is no blank and closes no array. -/
theorem Denotes.starts {s : List Char} {v : JsonValue} (denotes : Denotes s (.value v)) :
    ∃ c later, s = c :: later ∧ isSpace c = false ∧ c ≠ ']' := by
  cases denotes with
  | nullWord | trueWord | falseWord | string | emptyArray | array | emptyObject | object =>
    exact ⟨_, _, rfl, rfl, by decide⟩
  | number isNumber =>
    have tokens := tokenChars_of_isNumber isNumber
    cases s with
    | nil => cases isNumber
    | cons c s =>
      have first := tokens c List.mem_cons_self
      refine ⟨c, s, rfl, not_space_of_token first, ?_⟩
      rintro rfl
      cases first

/-- So does what stands in an array that is not empty, behind its blanks. -/
theorem Denotes.items_start {s : List Char} {vs : List JsonValue} (denotes : Denotes s (.items vs)) :
    ∃ gap c later, s = gap ++ c :: later ∧ Spaces gap ∧ isSpace c = false ∧ c ≠ ']' := by
  have ofElement {s : List Char} {v : JsonValue} (denotes : Denotes s (.element v)) :
      ∃ gap c later, s = gap ++ c :: later ∧ Spaces gap ∧ isSpace c = false ∧ c ≠ ']' := by
    cases denotes with
    | element above denotes below =>
      obtain ⟨c, later, rfl, bare, other⟩ := denotes.starts
      exact ⟨_, c, _, rfl, above, bare, other⟩
  cases denotes with
  | lastItem denotes => exact ofElement denotes
  | item denotes later =>
    obtain ⟨gap, c, behind, rfl, blank, bare, other⟩ := ofElement denotes
    exact ⟨gap, c, _, List.append_assoc .., blank, bare, other⟩

theorem Denotes.fields_start {s : List Char} {fs : List (String × JsonValue)}
    (denotes : Denotes s (.fields fs)) : ∃ gap later, s = gap ++ '\x22' :: later ∧ Spaces gap := by
  cases denotes with
  | lastField above | field above => exact ⟨_, _, rfl, above⟩

/-- How a stretch of text is read to what it stands for, whatever follows it. -/
def Content.ReadFrom (s : List Char) : Content → Prop
  | .value v => ∀ fuel rest, s.length ≤ fuel → Ends rest → value? fuel (s ++ rest) = some (v, rest)
  | .element v => ∀ fuel rest, s.length ≤ fuel → Ends rest → ∃ gap, Spaces gap ∧
      value? fuel (skipSpaces (s ++ rest)) = some (v, gap ++ rest)
  | .items vs => ∀ fuel rest, s.length < fuel → items? fuel (s ++ ']' :: rest) = some (vs, rest)
  | .fields fs => ∀ fuel rest, s.length < fuel → fields? fuel (s ++ '\x7d' :: rest) = some (fs, rest)

theorem ends_mark {c : Char} (mark : isTokenChar c = false) (s : List Char) : Ends (c :: s) := by
  rintro d ⟨⟩
  exact mark

theorem readFrom_token {s : List Char} {v : JsonValue} (tokens : ∀ c ∈ s, isTokenChar c = true)
    (reads : token? s = some v) : (Content.value v).ReadFrom s := by
  intro fuel rest enough ends
  cases fuel with
  | zero =>
    obtain rfl := List.eq_nil_of_length_eq_zero (Nat.le_zero.mp enough)
    cases reads
  | succ fuel => exact value?_token tokens ends reads fuel

theorem token?_of_isNumber {s : List Char} (number : isNumber s = true) :
    token? s = some (.number s) := by
  have word {w : List Char} (other : isNumber w = false) : s ≠ w := by
    rintro rfl
    exact Bool.noConfusion (number.symm.trans other)
  rw [token?, if_neg (word rfl), if_neg (word rfl), if_neg (word rfl), if_pos number]

private theorem exists_succ {n fuel : Nat} (enough : n + 1 ≤ fuel) : ∃ f, fuel = f + 1 ∧ n ≤ f :=
  ⟨fuel - 1, by omega, by omega⟩

/-- Every text of the grammar is read to what it stands for. -/
theorem Denotes.readFrom {s : List Char} {content : Content} (denotes : Denotes s content) :
    content.ReadFrom s := by
  induction denotes with
  | nullWord => exact readFrom_token (List.all_eq_true.mp rfl) rfl
  | trueWord => exact readFrom_token (List.all_eq_true.mp rfl) rfl
  | falseWord => exact readFrom_token (List.all_eq_true.mp rfl) rfl
  | number isNumber => exact readFrom_token (tokenChars_of_isNumber isNumber) (token?_of_isNumber isNumber)
  | string spells =>
    intro fuel rest enough _
    obtain ⟨fuel, rfl, -⟩ := exists_succ enough
    rw [List.cons_append, List.append_assoc, List.singleton_append, value?, unquote?_of_spells spells]
    rfl
  | emptyArray blank =>
    intro fuel rest enough _
    obtain ⟨fuel, rfl, -⟩ := exists_succ enough
    rw [List.cons_append, List.append_assoc, List.singleton_append, value?, skipSpaces_append blank,
      skipSpaces_cons rfl]
    rfl
  | @array s vs inside ih =>
    intro fuel rest enough _
    obtain ⟨fuel, rfl, most⟩ := exists_succ enough
    have within : items? fuel (s ++ ']' :: rest) = some (vs, rest) := by
      apply ih
      rw [List.length_append, List.length_singleton] at most
      omega
    obtain ⟨gap, c, later, rfl, blank, bare, other⟩ := inside.items_start
    rw [List.cons_append, List.append_assoc, List.singleton_append, value?]
    split
    · rename_i closed
      rw [List.append_assoc, skipSpaces_append blank, List.cons_append, skipSpaces_cons bare] at closed
      exact absurd (List.cons.inj closed).1 other
    · rw [within]
      rfl
  | emptyObject blank =>
    intro fuel rest enough _
    obtain ⟨fuel, rfl, -⟩ := exists_succ enough
    rw [List.cons_append, List.append_assoc, List.singleton_append, value?, skipSpaces_append blank,
      skipSpaces_cons rfl]
    rfl
  | @object s fs inside ih =>
    intro fuel rest enough _
    obtain ⟨fuel, rfl, most⟩ := exists_succ enough
    have within : fields? fuel (s ++ '\x7d' :: rest) = some (fs, rest) := by
      apply ih
      rw [List.length_append, List.length_singleton] at most
      omega
    obtain ⟨gap, later, rfl, blank⟩ := inside.fields_start
    rw [List.cons_append, List.append_assoc, List.singleton_append, value?]
    split
    · rename_i closed
      rw [List.append_assoc, skipSpaces_append blank, List.cons_append, skipSpaces_cons rfl] at closed
      cases closed
    · rw [within]
      rfl
  | element above denotes below ih =>
    intro fuel rest enough ends
    obtain ⟨c, later, rfl, bare, -⟩ := denotes.starts
    refine ⟨_, below, ?_⟩
    rw [List.append_assoc, List.append_assoc, skipSpaces_append above, List.cons_append,
      skipSpaces_cons bare, ← List.cons_append]
    apply ih
    · simp only [List.length_append] at enough ⊢
      omega
    · exact ends.append_left below
  | lastItem denotes ih =>
    intro fuel rest enough
    obtain ⟨fuel, rfl, most⟩ := exists_succ enough
    obtain ⟨gap, blank, first⟩ := ih fuel (']' :: rest) most (ends_mark rfl rest)
    rw [items?, first]
    simp [skipSpaces_append blank, skipSpaces_cons (c := ']') rfl]
  | @item s t v vs denotes later ih ihLater =>
    intro fuel rest enough
    obtain ⟨fuel, rfl, most⟩ := exists_succ enough
    rw [List.length_append, List.length_cons] at most
    obtain ⟨gap, blank, first⟩ :=
      ih fuel (',' :: (t ++ ']' :: rest)) (by omega) (ends_mark rfl _)
    have others := ihLater fuel rest (by omega)
    rw [List.append_assoc, List.cons_append, items?, first]
    simp [skipSpaces_append blank, skipSpaces_cons (c := ',') rfl, others]
  | @lastField before k key after s v above spells below denotes ih =>
    intro fuel rest enough
    obtain ⟨fuel, rfl, most⟩ := exists_succ enough
    simp only [List.length_append, List.length_cons] at most
    obtain ⟨gap, blank, first⟩ := ih fuel ('\x7d' :: rest) (by omega) (ends_mark rfl rest)
    rw [fields?]
    simp [skipSpaces_append above, skipSpaces_cons (c := '\x22') rfl, unquote?_of_spells spells,
      skipSpaces_append below, skipSpaces_cons (c := ':') rfl, first, skipSpaces_append blank,
      skipSpaces_cons (c := '\x7d') rfl]
  | @field before k key after s t v fs above spells below denotes later ih ihLater =>
    intro fuel rest enough
    obtain ⟨fuel, rfl, most⟩ := exists_succ enough
    simp only [List.length_append, List.length_cons] at most
    obtain ⟨gap, blank, first⟩ :=
      ih fuel (',' :: (t ++ '\x7d' :: rest)) (by omega) (ends_mark rfl _)
    have others := ihLater fuel rest (by omega)
    rw [fields?]
    simp [skipSpaces_append above, skipSpaces_cons (c := '\x22') rfl, unquote?_of_spells spells,
      skipSpaces_append below, skipSpaces_cons (c := ':') rfl, first, skipSpaces_append blank,
      skipSpaces_cons (c := ',') rfl, others]

/-- A text of the grammar is read to its value. -/
theorem ofText?_of_denotes {s : List Char} {v : JsonValue} (denotes : Denotes s (.element v)) :
    ofText? s = some v := by
  have ends : Ends [] := by simp [Ends]
  obtain ⟨gap, blank, reads⟩ := denotes.readFrom s.length [] (Nat.le_refl _) ends
  rw [List.append_nil, List.append_nil] at reads
  have nothing : skipSpaces gap = [] := List.dropWhile_eq_nil_iff.mpr blank
  rw [ofText?, reads]
  simp [nothing]

/-- No text stands for two values. -/
theorem Denotes.unique {s : List Char} {v w : JsonValue} (first : Denotes s (.element v))
    (second : Denotes s (.element w)) : v = w :=
  Option.some.inj ((ofText?_of_denotes first).symm.trans (ofText?_of_denotes second))

end SymbolIndex.JsonValue
