import SymbolIndex.Proofs.Braces
import SymbolIndex.Proofs.Patterns
import SymbolIndex.Shape.Callable
import SymbolIndex.Shape.Container
import SymbolIndex.Shape.Value

/-! What the shapes of lines look like. A head that is read stands before its brace with nothing in
between that a scan of braces would notice; and lines that are written from a name, parameters, a
type or a value are read back as what they were written from, and as nothing else. -/
namespace SymbolIndex

namespace Text

theorem isNameChar_iff {c : Char} : isNameChar c = true ↔
    c.isUpper = true ∨ c.isLower = true ∨ c.isDigit = true ∨ c = '_' := by
  have classes : isNameChar c = (((c.isUpper || c.isLower) || c.isDigit) || c == '_') := rfl
  simp only [classes, Bool.or_eq_true, beq_iff_eq, or_assoc]

theorem isNameChar_of_isUpper {c : Char} (upper : c.isUpper = true) : isNameChar c = true :=
  isNameChar_iff.mpr (.inl upper)

theorem isNameChar_of_isNameStart {c : Char} (starts : isNameStart c = true) :
    isNameChar c = true := by
  obtain letter | mark := (Bool.or_eq_true ..).mp starts
  · obtain upper | lower := (Bool.or_eq_true ..).mp letter
    · exact isNameChar_of_isUpper upper
    · exact isNameChar_iff.mpr (.inr (.inl lower))
  · exact isNameChar_iff.mpr (.inr (.inr (.inr (beq_iff_eq.mp mark))))

theorem bounds_of_isNameChar {c : Char} (named : isNameChar c = true) :
    48 ≤ c.toNat ∧ c.toNat ≤ 122 := by
  obtain upper | lower | digit | rfl := isNameChar_iff.mp named
  · have between : 'A'.val ≤ c.val ∧ c.val ≤ 'Z'.val := of_decide_eq_true upper
    simp only [UInt32.le_iff_toNat_le] at between
    exact ⟨Nat.le_trans (by decide) between.1, Nat.le_trans between.2 (by decide)⟩
  · obtain ⟨low, high⟩ := (Bool.and_eq_true ..).mp lower
    exact ⟨Nat.le_trans (by decide) (UInt32.le_iff_toNat_le.mp (of_decide_eq_true low)),
      Nat.le_trans (UInt32.le_iff_toNat_le.mp (of_decide_eq_true high)) (by decide)⟩
  · obtain ⟨low, high⟩ := Char.isDigit_iff_toNat.mp digit
    exact ⟨low, Nat.le_trans high (by decide)⟩
  · decide

/-- Names are written in a range of characters that has no blank. -/
theorem isBlank_of_isNameChar {c : Char} (named : isNameChar c = true) : isBlank c = false := by
  have bounds := bounds_of_isNameChar named
  simp only [isBlank, Bool.or_eq_false_iff, Bool.and_eq_false_iff, decide_eq_false_iff_not,
    beq_eq_false_iff_ne]
  omega

theorem isNameChar_of_isBlank {c : Char} (blank : isBlank c = true) : isNameChar c = false := by
  rw [← Bool.not_eq_true]
  intro named
  rw [isBlank_of_isNameChar named] at blank
  cases blank

end Text

namespace Shape

theorem inert_nameChars {s : List Char} (chars : ∀ c ∈ s, Text.isNameChar c = true) :
    Lexical.Inert s :=
  Lexical.inert_of_class chars rfl rfl rfl rfl rfl

theorem inert_blanks {s : List Char} (blank : Text.Blanks s) : Lexical.Inert s :=
  Lexical.inert_of_class blank rfl rfl rfl rfl rfl

/-- The characters of names and blanks never open anything. -/
theorem inert_of_chars {s : List Char}
    (chars : ∀ c ∈ s, Text.isNameChar c = true ∨ Text.isBlank c = true) : Lexical.Inert s := by
  have either : ∀ c ∈ s, (Text.isNameChar c || Text.isBlank c) = true := by
    intro c member
    rw [Bool.or_eq_true]
    exact chars c member
  exact Lexical.inert_of_class either rfl rfl rfl rfl rfl

theorem nameChars_of_name {name : List Char} (fits : Piece.name.Fits name) :
    ∀ c ∈ name, Text.isNameChar c = true := by
  obtain ⟨c, later, rfl, starts, goes⟩ := fits
  exact List.forall_mem_cons.mpr ⟨Text.isNameChar_of_isNameStart starts, goes⟩

theorem not_mem_of_class {p : Char → Bool} {s : List Char} (inside : ∀ c ∈ s, p c = true) {d : Char}
    (outside : p d = false) : d ∉ s := fun member =>
  Lexical.ne_of_class (inside d member) outside rfl

/-- A container's name is a capital and then characters of names. -/
theorem containerName_fits {name : List Char} (fits : containerName.Fits name) :
    (∃ c, name.head? = some c ∧ c.isUpper = true) ∧ ∀ c ∈ name, Text.isNameChar c = true := by
  obtain ⟨c, later, rfl, capital, chars⟩ := fits
  exact ⟨⟨c, rfl, capital⟩, List.forall_mem_cons.mpr ⟨Text.isNameChar_of_isUpper capital, chars⟩⟩

/-- The characters of a constant's name are characters of names. -/
theorem constantName_fits {name : List Char} (fits : constantName.Fits name) :
    name ≠ [] ∧ ∀ c ∈ name, Text.isNameChar c = true := by
  obtain ⟨c, later, rfl, first, goes⟩ := fits
  refine ⟨List.cons_ne_nil c later, List.forall_mem_cons.mpr ⟨?_, fun d member => ?_⟩⟩
  · obtain upper | mark := (Bool.or_eq_true ..).mp first
    · exact Text.isNameChar_of_isUpper upper
    · exact Text.isNameChar_iff.mpr (.inr (.inr (.inr (beq_iff_eq.mp mark))))
  · obtain other | mark := (Bool.or_eq_true ..).mp (goes d member)
    · obtain upper | digit := (Bool.or_eq_true ..).mp other
      · exact Text.isNameChar_of_isUpper upper
      · exact Text.isNameChar_iff.mpr (.inr (.inr (.inl digit)))
    · exact Text.isNameChar_iff.mpr (.inr (.inr (.inr (beq_iff_eq.mp mark))))

/-- What may stand between the name of a container and its brace, blanks aside: nothing, or an
implements clause. -/
def IsClause (s : List Char) : Prop := s = [] ∨ ∃ list, s = ':' :: list ∧ ∀ c ∈ list, isClauseChar c = true

private theorem plainHead?_some {line : List Char} {head : Head}
    (reads : plainHead? line = some head) :
    ∃ name gap rest, line = name ++ (gap ++ '\x7b' :: rest) ∧ head.name = String.ofList name ∧
      containerName.Fits name ∧ Text.Blanks gap ∧ head.braceAt = (name ++ gap).length ∧
      head.implements = none := by
  unfold plainHead? at reads
  split at reads
  · rename_i name gap brace rest taken
    obtain ⟨whole, takes⟩ := Pattern.take?_eq_some_iff.mp taken
    obtain _ | ⟨named, -, _ | ⟨blank, -, _ | ⟨braced, -, -⟩⟩⟩ := takes
    obtain rfl : brace = ['\x7b'] := braced
    obtain rfl := Option.some.inj reads
    exact ⟨name, gap, rest, by simpa using whole, rfl, named, blank, by simp [Pattern.width], rfl⟩
  · cases reads

private theorem implementingHead?_some {line : List Char} {head : Head}
    (reads : implementingHead? line = some head) :
    ∃ name gap list rest, line = name ++ (gap ++ ':' :: (list ++ '\x7b' :: rest)) ∧
      head.name = String.ofList name ∧ containerName.Fits name ∧ Text.Blanks gap ∧
      (∀ c ∈ list, isClauseChar c = true) ∧ head.braceAt = (name ++ gap ++ ':' :: list).length ∧
      ∃ listed, (∀ c ∈ listed, c ∈ list) ∧
        head.implements = some ((Text.entries listed).map String.ofList) := by
  unfold implementingHead? at reads
  split at reads
  · rename_i name gap colon gap' capital clause brace rest taken
    obtain ⟨whole, takes⟩ := Pattern.take?_eq_some_iff.mp taken
    obtain _ | ⟨named, -, _ | ⟨blank, -, _ | ⟨colons, -, _ | ⟨blank', -, _ | ⟨starts, -, _ |
      ⟨goes, -, _ | ⟨braced, -, -⟩⟩⟩⟩⟩⟩⟩ := takes
    obtain rfl : colon = [':'] := colons
    obtain rfl : brace = ['\x7b'] := braced
    obtain rfl := Option.some.inj reads
    have width : Pattern.width [name, gap, [':'], gap', capital, clause] =
        (name ++ gap ++ ':' :: (gap' ++ capital ++ clause)).length := by
      simp only [Pattern.width, List.foldr_cons, List.foldr_nil, List.length_append,
        List.length_cons, List.length_nil]
      omega
    have listed : ∀ c ∈ capital ++ clause, c ∈ gap' ++ capital ++ clause := fun c member => by
      rw [List.append_assoc]
      exact List.mem_append_right gap' member
    refine ⟨name, gap, gap' ++ capital ++ clause, rest, by simpa using whole, rfl, named, blank, ?_,
      width, capital ++ clause, listed, rfl⟩
    have capitals : ∀ c ∈ capital, isClauseChar c = true := by
      obtain ⟨c, later, rfl, upper, nothing⟩ := starts
      obtain rfl : later = [] := List.eq_nil_iff_forall_not_mem.mpr fun c member => by
        cases nothing c member
      simp [isClauseChar, Text.isNameChar_of_isUpper upper]
    have clauses : ∀ c ∈ clause, isClauseChar c = true := by
      obtain ⟨c, later, rfl, first, others⟩ := goes
      exact List.forall_mem_cons.mpr ⟨first, others⟩
    have blanks : ∀ c ∈ gap', isClauseChar c = true := by
      intro c member
      simp [isClauseChar, blank' c member]
    exact List.forall_mem_append.mpr ⟨List.forall_mem_append.mpr ⟨blanks, capitals⟩, clauses⟩
  · cases reads

/-- A head is a container's name, blanks, a clause if there is one, and a brace. -/
theorem containerHead?_some {line : List Char} {head : Head}
    (reads : containerHead? line = some head) :
    ∃ name gap clause rest, line = name ++ (gap ++ (clause ++ '\x7b' :: rest)) ∧
      head.name = String.ofList name ∧ containerName.Fits name ∧ Text.Blanks gap ∧ IsClause clause ∧
      head.braceAt = (name ++ gap ++ clause).length := by
  obtain plain | ⟨-, implementing⟩ := Option.or_eq_some_iff.mp reads
  · obtain ⟨name, gap, rest, whole, same, named, blank, width, -⟩ := plainHead?_some plain
    exact ⟨name, gap, [], rest, whole, same, named, blank, .inl rfl, by rw [width, List.append_nil]⟩
  · obtain ⟨name, gap, list, rest, whole, same, named, blank, clauses, width, -⟩ :=
      implementingHead?_some implementing
    exact ⟨name, gap, ':' :: list, rest, whole, same, named, blank, .inr ⟨list, rfl, clauses⟩, width⟩

/-- The entries of a head come from its clause. -/
theorem containerHead?_implements {line : List Char} {head : Head}
    (reads : containerHead? line = some head) :
    ∃ listed, (∀ c ∈ listed, c ∈ line ∧ isClauseChar c = true) ∧
      head.implements.getD [] = (Text.entries listed).map String.ofList := by
  obtain plain | ⟨-, implementing⟩ := Option.or_eq_some_iff.mp reads
  · obtain ⟨-, -, -, -, -, -, -, -, none⟩ := plainHead?_some plain
    exact ⟨[], nofun, by rw [none]; rfl⟩
  · obtain ⟨name, gap, list, rest, rfl, -, -, -, clauses, -, listed, within, implements⟩ :=
      implementingHead?_some implementing
    refine ⟨listed, fun c member => ⟨?_, clauses c (within c member)⟩, by rw [implements]; rfl⟩
    simp [within c member]

/-- A clause opens nothing. -/
theorem IsClause.inert {clause : List Char} (is : IsClause clause) : Lexical.Inert clause := by
  rcases is with rfl | ⟨list, rfl, clauses⟩
  · simp [Lexical.Inert]
  · have inert : Lexical.Inert list := Lexical.inert_of_class clauses rfl rfl rfl rfl rfl
    have colon : Lexical.Inert [':'] := by simp [Lexical.Inert, Lexical.isQuoteMark]
    exact Lexical.inert_append.mpr ⟨colon, inert⟩

/-- The brace of a head stands behind inert characters, the first of which is a capital. -/
theorem containerHead?_brace {line : List Char} {head : Head}
    (reads : containerHead? line = some head) :
    ∃ before rest, line = before ++ '\x7b' :: rest ∧ before.length = head.braceAt ∧
      Lexical.Inert before ∧ ∃ c, line.head? = some c ∧ c.isUpper = true := by
  obtain ⟨name, gap, clause, rest, rfl, -, named, blank, is, width⟩ := containerHead?_some reads
  obtain ⟨⟨c, first, capital⟩, chars⟩ := containerName_fits named
  have inert := Lexical.inert_append.mpr ⟨inert_nameChars chars, inert_blanks blank⟩
  refine ⟨name ++ gap ++ clause, rest, by simp, width.symm, ?_, c, ?_, capital⟩
  · exact Lexical.inert_append.mpr ⟨inert, is.inert⟩
  · simp [List.head?_append, first]

theorem width_eq_length_flatten (texts : List (List Char)) :
    Pattern.width texts = texts.flatten.length := by
  induction texts with
  | nil => rfl
  | cons text texts ih =>
    rw [List.flatten_cons, List.length_append, ← ih]
    rfl

private theorem body?_block {column braceAt : Nat} {s : List Char}
    (reads : body? column s = some (.block braceAt)) : braceAt = column ∧ ∃ rest, s = '\x7b' :: rest := by
  unfold body? at reads
  split at reads
  · cases reads
  · rename_i rest
    obtain rfl : column = braceAt := by simpa using reads
    exact ⟨rfl, rest, rfl⟩
  · cases reads

private theorem resultAndBody?_block {column braceAt : Nat} {s : List Char}
    {type : Option (List Char)} (reads : resultAndBody? column s = some (type, .block braceAt)) :
    ∃ before rest, s = before ++ '\x7b' :: rest ∧ braceAt = column + before.length := by
  unfold resultAndBody? at reads
  split at reads
  · rename_i colon gap type gap' rest taken
    obtain ⟨body, block, same⟩ := Option.map_eq_some_iff.mp reads
    obtain rfl : body = .block braceAt := (Prod.mk.inj same).2
    obtain ⟨rfl, rest, rfl⟩ := body?_block block
    refine ⟨[colon, gap, type, gap'].flatten, rest, (Pattern.take?_append taken).symm, ?_⟩
    rw [width_eq_length_flatten]
  · obtain ⟨body, block, same⟩ := Option.map_eq_some_iff.mp reads
    obtain rfl : body = .block braceAt := (Prod.mk.inj same).2
    obtain ⟨rfl, rest, rfl⟩ := body?_block block
    exact ⟨[], rest, rfl, rfl⟩

/-- The body of a callable that has a block begins with a brace. -/
theorem callable?_brace {line : List Char} {c : Callable} {braceAt : Nat}
    (reads : callable? line = some c) (block : c.body = .block braceAt) :
    ∃ before rest, line = before ++ '\x7b' :: rest ∧ before.length = braceAt := by
  unfold callable? at reads
  split at reads
  · rename_i name gap opening parameters closing gap' rest taken
    split at reads
    · cases reads
    · obtain ⟨⟨type, body⟩, follows, rfl⟩ := Option.map_eq_some_iff.mp reads
      obtain rfl : body = .block braceAt := block
      obtain ⟨before, later, rfl, rfl⟩ := resultAndBody?_block follows
      refine ⟨[name, gap, opening, parameters, closing, gap'].flatten ++ before, later, ?_, ?_⟩
      · rw [List.append_assoc, Pattern.take?_append taken]
      · rw [List.length_append, width_eq_length_flatten]
  · cases reads

/-- What a body begins with. -/
def bodyMarks : List (List Char) := [['=', '>'], ['\x7b']]

/-- What follows the parameters of a callable: its result type, if it has one, and its body. -/
inductive Follows : Option (List Char) → List Char → Prop where
  | body {mark : List Char} (begins : mark ∈ bodyMarks) (later : List Char) : Follows none (mark ++ later)
  | result {gap type gap' mark : List Char} (blank : Text.Blanks gap)
      (typed : (Piece.some1 isTypeChar).Fits type) (blank' : Text.Blanks gap')
      (begins : mark ∈ bodyMarks) (later : List Char) :
      Follows (some type) (':' :: (gap ++ (type ++ (gap' ++ (mark ++ later)))))

private theorem body?_some {column : Nat} {s : List Char} {body : Body}
    (reads : body? column s = some body) : ∃ mark ∈ bodyMarks, ∃ later, s = mark ++ later := by
  unfold body? at reads
  split at reads
  · rename_i later
    exact ⟨['=', '>'], by simp [bodyMarks], later, rfl⟩
  · rename_i later
    exact ⟨['\x7b'], by simp [bodyMarks], later, rfl⟩
  · cases reads

private theorem resultAndBody?_some {column : Nat} {s : List Char} {result : Option (List Char)}
    {body : Body} (reads : resultAndBody? column s = some (result, body)) : Follows result s := by
  unfold resultAndBody? at reads
  split at reads
  · rename_i colon gap type gap' rest taken
    obtain ⟨_, begins, same⟩ := Option.map_eq_some_iff.mp reads
    obtain ⟨rfl, -⟩ := Prod.mk.inj same
    obtain ⟨mark, among, later, rfl⟩ := body?_some begins
    obtain ⟨rfl, takes⟩ := Pattern.take?_eq_some_iff.mp taken
    obtain _ | ⟨colons, -, _ | ⟨blank, -, _ | ⟨typed, -, _ | ⟨blank', -, -⟩⟩⟩⟩ := takes
    obtain rfl : colon = [':'] := colons
    simpa using Follows.result blank typed blank' among later
  · obtain ⟨_, begins, same⟩ := Option.map_eq_some_iff.mp reads
    obtain ⟨rfl, -⟩ := Prod.mk.inj same
    obtain ⟨mark, among, later, rfl⟩ := body?_some begins
    exact .body among later

/-- A callable is a name, its parameters up to the first closing parenthesis, and what follows. -/
theorem callable?_some {line : List Char} {c : Callable} (reads : callable? line = some c) :
    ∃ name gap parameters gap' result rest,
      line = name ++ (gap ++ '(' :: (parameters ++ ')' :: (gap' ++ rest))) ∧
      c.name = String.ofList name ∧ Piece.name.Fits name ∧ Text.Blanks gap ∧ ')' ∉ parameters ∧
      Text.Blanks gap' ∧ c.signature.result = result.map String.ofList ∧ Follows result rest := by
  unfold callable? at reads
  split at reads
  · rename_i name gap opening parameters closing gap' rest taken
    split at reads
    · cases reads
    · obtain ⟨⟨result, body⟩, follows, rfl⟩ := Option.map_eq_some_iff.mp reads
      obtain ⟨rfl, takes⟩ := Pattern.take?_eq_some_iff.mp taken
      obtain _ | ⟨named, -, _ | ⟨blank, -, _ | ⟨opens, -, _ | ⟨inside, -, _ | ⟨closes, -, _ |
        ⟨blank', -, -⟩⟩⟩⟩⟩⟩ := takes
      obtain rfl : opening = ['('] := opens
      obtain rfl : closing = [')'] := closes
      exact ⟨name, gap, parameters, gap', result, rest, by simp, rfl, named, blank,
        Piece.run_ne_fits_iff.mp inside, blank', rfl, resultAndBody?_some follows⟩
  · cases reads

section Exclusions

/-- A callable closes its parameters on its line. -/
theorem callable?_closing {line : List Char} {c : Callable} (reads : callable? line = some c) :
    ')' ∈ line := by
  obtain ⟨name, gap, parameters, gap', result, rest, rfl, -⟩ := callable?_some reads
  simp

theorem wrapped?_unclosed {line : List Char} {name parameters : String}
    (reads : wrapped? line = some (name, parameters)) : ')' ∉ line := by
  intro closing
  have contains : line.contains ')' = true := List.contains_iff_mem.mpr closing
  rw [wrapped?, if_pos contains] at reads
  cases reads

theorem signature?_of_brace {line : List Char} (brace : '\x7b' ∈ line) : signature? line = none := by
  have contains : line.contains '\x7b' = true := List.contains_iff_mem.mpr brace
  rw [signature?, contains, Bool.or_true]
  rfl

/-- What has a body on its line is no signature. -/
theorem signature?_of_callable? {line : List Char} {c : Callable} (reads : callable? line = some c) :
    signature? line = none := by
  obtain ⟨name, gap, parameters, gap', result, rest, rfl, -, -, -, -, -, -, follows⟩ := callable?_some reads
  obtain ⟨mark, begins, before, later, rfl⟩ :
      ∃ mark ∈ bodyMarks, ∃ before later, rest = before ++ (mark ++ later) := by
    cases follows with
    | body begins later => exact ⟨_, begins, [], later, rfl⟩
    | @result gap type gap' _ _ _ _ begins later =>
      exact ⟨_, begins, ':' :: (gap ++ (type ++ gap')), later, by simp⟩
  simp only [bodyMarks, List.mem_cons, List.not_mem_nil, or_false] at begins
  rcases begins with rfl | rfl
  · rw [signature?, if_pos]
    rw [Bool.or_eq_true, Text.occursIn_iff]
    exact .inl ⟨name ++ (gap ++ '(' :: (parameters ++ ')' :: (gap' ++ before))), later, by simp⟩
  · exact signature?_of_brace (by simp)

end Exclusions

section Names

/-- A name stands at a column of a line, and up to its end the line has only characters of names and
blanks. -/
def NameAt (line : List Char) (column : Nat) (name : String) : Prop :=
  ∃ lead rest, line = lead ++ name.toList ++ rest ∧ lead.length = column ∧ name.toList ≠ [] ∧
    ∀ c ∈ lead ++ name.toList, Text.isNameChar c = true ∨ Text.isBlank c = true

/-- Up to any place in a name, its line has only such characters. -/
theorem NameAt.upTo {line : List Char} {column place : Nat} {name : String}
    (named : NameAt line column name) (within : place ≤ column + name.length) :
    ∃ part behind, line = part ++ behind ∧ part.length = place ∧
      ∀ c ∈ part, Text.isNameChar c = true ∨ Text.isBlank c = true := by
  obtain ⟨lead, rest, rfl, rfl, -, chars⟩ := named
  refine ⟨(lead ++ name.toList).take place, (lead ++ name.toList).drop place ++ rest, ?_, ?_, ?_⟩
  · rw [← List.append_assoc, List.take_append_drop]
  · rw [List.length_take, List.length_append, String.length_toList]
    omega
  · exact fun c member => chars c (List.mem_of_mem_take member)

/-- A line begins with a name; blanks and then a mark follow it. -/
def Heads (line : List Char) (name : String) (mark : Char) : Prop :=
  ∃ gap rest, line = name.toList ++ (gap ++ mark :: rest) ∧ name.toList ≠ [] ∧
    (∀ c ∈ name.toList, Text.isNameChar c = true) ∧ Text.Blanks gap

theorem Heads.nameAt {line : List Char} {name : String} {mark : Char} (heads : Heads line name mark) :
    NameAt line 0 name := by
  obtain ⟨gap, rest, rfl, nonempty, chars, -⟩ := heads
  exact ⟨[], gap ++ mark :: rest, rfl, rfl, nonempty, fun c member => .inl (chars c member)⟩

/-- Every pattern that starts with a name and a mark behind it reads such a line. -/
theorem heads_of_take? {first : Char → Bool} {mark : Char} {later : Pattern} {line name rest : List Char}
    {texts : List (List Char)} (starts : ∀ c, first c = true → Text.isNameChar c = true)
    (taken : Pattern.take? (.word first Text.isNameChar :: .blanks :: .literal [mark] :: later) line =
      some (name :: texts, rest)) : Heads line (String.ofList name) mark := by
  obtain ⟨whole, takes⟩ := Pattern.take?_eq_some_iff.mp taken
  obtain _ | ⟨named, -, _ | ⟨blank, -, _ | ⟨marked, -, takes⟩⟩⟩ := takes
  rename_i gap marks texts
  obtain rfl : marks = [mark] := marked
  obtain ⟨c, later, rfl, start, chars⟩ := named
  refine ⟨gap, texts.flatten ++ rest, ?_, ?_, ?_, blank⟩
  · simpa using whole
  · simp
  · rw [String.toList_ofList]
    exact List.forall_mem_cons.mpr ⟨starts c start, chars⟩

theorem containerHead?_heads {line : List Char} {head : Head}
    (reads : containerHead? line = some head) :
    Heads line head.name '\x7b' ∨ Heads line head.name ':' := by
  obtain ⟨name, gap, clause, rest, rfl, same, named, blank, is, -⟩ := containerHead?_some reads
  have nonempty := Piece.ne_nil_of_word named
  obtain ⟨-, chars⟩ := containerName_fits named
  rw [same]
  rcases is with rfl | ⟨list, rfl, -⟩
  · exact .inl ⟨gap, rest, by simp, by simpa using nonempty, by simpa using chars, blank⟩
  · exact .inr ⟨gap, list ++ '\x7b' :: rest, by simp, by simpa using nonempty, by simpa using chars, blank⟩

theorem callable?_heads {line : List Char} {c : Callable} (reads : callable? line = some c) :
    Heads line c.name '(' := by
  obtain ⟨name, gap, parameters, gap', result, rest, rfl, same, named, blank, -⟩ := callable?_some reads
  have nonempty := Piece.ne_nil_of_word named
  rw [same]
  exact ⟨gap, _, by rw [String.toList_ofList], by simpa using nonempty,
    by simpa using nameChars_of_name named, blank⟩

theorem signature?_heads {line : List Char} {name : String} {signature : Signature}
    (reads : signature? line = some (name, signature)) : Heads line name '(' := by
  unfold signature? at reads
  split at reads
  · cases reads
  · split at reads
    · rename_i taken
      dsimp only at reads
      split at reads
      · cases reads
      · obtain ⟨_, -, same⟩ := Option.map_eq_some_iff.mp reads
        obtain ⟨rfl, -⟩ := Prod.mk.inj same
        exact heads_of_take? (fun _ => Text.isNameChar_of_isNameStart) taken
    · cases reads

/-- A signature is neither a callable with a body nor a field. -/
theorem bodiless_of_signature? {line : List Char} (declares : signature? line ≠ none) :
    callable? line = none ∧ field? line = none := by
  constructor
  · rw [Option.eq_none_iff_forall_ne_some]
    exact fun c reads => declares (signature?_of_callable? reads)
  · obtain ⟨⟨name, signature⟩, reads⟩ := Option.ne_none_iff_exists'.mp declares
    obtain ⟨gap, rest, rfl, -⟩ := signature?_heads reads
    have called : '(' ∈ name.toList ++ (gap ++ '(' :: rest) := by simp
    rw [field?, if_pos (List.contains_iff_mem.mpr called)]

theorem wrapped?_heads {line : List Char} {name parameters : String}
    (reads : wrapped? line = some (name, parameters)) : Heads line name '(' := by
  unfold wrapped? at reads
  split at reads
  · cases reads
  · split at reads
    · rename_i taken
      dsimp only at reads
      split at reads
      · cases reads
      · obtain ⟨rfl, -⟩ := Prod.mk.inj (Option.some.inj reads)
        exact heads_of_take? (fun _ => Text.isNameChar_of_isNameStart) taken
    · cases reads

theorem field?_heads {line : List Char} {f : Field} (reads : field? line = some f) :
    Heads line f.name ':' := by
  unfold field? at reads
  split at reads
  · cases reads
  · split at reads
    · rename_i taken
      obtain rfl := Option.some.inj reads
      exact heads_of_take? (fun _ => Text.isNameChar_of_isNameStart) taken
    · cases reads

/-- The word that a constant is declared with. -/
def constWord : List Char := ['c', 'o', 'n', 's', 't']

/-- The line of a constant is that word, blanks, and what a name and a mark head. -/
theorem constant?_some {line : List Char} {c : Constant} (reads : constant? line = some c) :
    ∃ gap rest, line = constWord ++ (gap ++ rest) ∧ gap ≠ [] ∧ Text.Blanks gap ∧ Heads rest c.name '=' ∧
      c.nameAt = (constWord ++ gap).length := by
  unfold constant? at reads
  split at reads
  · rename_i word gap name gap' mark rest taken
    obtain ⟨value, -, rfl⟩ := Option.map_eq_some_iff.mp reads
    obtain ⟨whole, takes⟩ := Pattern.take?_eq_some_iff.mp taken
    obtain _ | ⟨worded, -, _ | ⟨blank, -, _ | ⟨named, -, _ | ⟨blank', -, _ | ⟨marked, -, -⟩⟩⟩⟩⟩ := takes
    obtain rfl : word = constWord := worded
    obtain rfl : mark = ['='] := marked
    obtain ⟨nonempty, blanks⟩ := Piece.some1_fits_iff.mp blank
    obtain ⟨unempty, chars⟩ := constantName_fits named
    refine ⟨gap, name ++ (gap' ++ '=' :: rest), by simpa using whole, nonempty, blanks, ?_, ?_⟩
    · exact ⟨gap', rest, by simp, by simpa using unempty, by simpa using chars, blank'⟩
    · simp [Pattern.width]
  · cases reads

theorem constant?_nameAt {line : List Char} {c : Constant} (reads : constant? line = some c) :
    NameAt line c.nameAt c.name := by
  obtain ⟨gap, rest, rfl, -, blank, heads, place⟩ := constant?_some reads
  obtain ⟨gap', rest', rfl, nonempty, chars, -⟩ := heads
  have letters : ∀ d ∈ constWord, Text.isNameChar d = true := List.all_eq_true.mp rfl
  refine ⟨constWord ++ gap, gap' ++ '=' :: rest', by simp, place.symm, nonempty, fun d member => ?_⟩
  rw [List.mem_append, List.mem_append] at member
  obtain (letter | inGap) | inName := member
  · exact .inl (letters d letter)
  · exact .inr (blank d inGap)
  · exact .inl (chars d inName)

end Names

end Shape

end SymbolIndex
