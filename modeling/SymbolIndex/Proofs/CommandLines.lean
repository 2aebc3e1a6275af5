import Mathlib.Data.List.TakeWhile
import SymbolIndex.Options
import SymbolIndex.Proofs.Printed

/-! Command lines. An argument list says some settings, one after the other: each is an option with the
value that it takes, and what stands where a value is due is the value, even if it looks like an option.
Reading and writing meet at the list of settings. Arguments that say settings are read to what these add up
to, and arguments that are read to the end of a run say settings. -/
namespace SymbolIndex

/-- Decimal digits of a value. -/
structure Decimal (n : Nat) (digits : List Char) : Prop where
  nonempty : digits ≠ []
  decimal : ∀ c ∈ digits, c.isDigit = true
  value : Nat.ofDigitChars 10 digits 0 = n

/-- The ways to write a number: its decimal digits, with a plus sign in front or without. -/
inductive Numeral (n : Nat) : List Char → Prop where
  | bare {digits : List Char} (decimal : Decimal n digits) : Numeral n digits
  | signed {digits : List Char} (decimal : Decimal n digits) : Numeral n ('+' :: digits)

theorem Decimal.not_mem {n : Nat} {digits : List Char} (decimal : Decimal n digits) {c : Char}
    (other : c.isDigit = false) : c ∉ digits := by
  intro member
  have digit := decimal.decimal c member
  rw [other] at digit
  cases digit

/-- No numeral has a colon in it. -/
theorem Numeral.no_colon {n : Nat} {text : List Char} (numeral : Numeral n text) : ':' ∉ text := by
  cases numeral with
  | bare decimal => exact decimal.not_mem rfl
  | signed decimal =>
    intro member
    rcases List.mem_cons.mp member with sign | inside
    · cases sign
    · exact decimal.not_mem rfl inside

/-- A number as it is printed is one of the ways to write it. -/
theorem numeral_toDigits (n : Nat) : Numeral n (Nat.toDigits 10 n) :=
  .bare {
    nonempty := Nat.toDigits_ne_nil
    decimal := fun _ => isDigit_of_mem_toDigits
    value := Nat.ofDigitChars_ten_toDigits }

namespace Text

theorem number?_digits {digits : List Char} {n : Nat} :
    (if digits.isEmpty || !digits.all Char.isDigit then none
      else if digitsValue digits < wordLimit then some (digitsValue digits) else none) = some n ↔
      Decimal n digits ∧ n < wordLimit := by
  have value : digitsValue digits = Nat.ofDigitChars 10 digits 0 := rfl
  constructor
  · intro reads
    split at reads
    · cases reads
    · rename_i digital
      split at reads
      · rename_i fits
        obtain rfl := Option.some.inj reads
        simp only [Bool.or_eq_true, List.isEmpty_iff, Bool.not_eq_true', not_or, Bool.not_eq_false,
          List.all_eq_true] at digital
        exact ⟨⟨digital.1, digital.2, value.symm⟩, fits⟩
      · cases reads
  · rintro ⟨⟨nonempty, decimal, rfl⟩, fits⟩
    have digital : (digits.isEmpty || !digits.all Char.isDigit) = false := by
      simp only [Bool.or_eq_false_iff, List.isEmpty_eq_false_iff, Bool.not_eq_false', List.all_eq_true]
      exact ⟨nonempty, decimal⟩
    rw [digital, value, if_pos fits]
    rfl

/-- What is read as a number is what numbers are written as, up to the greatest that fits 64 bits. -/
theorem number?_eq_some_iff {text : List Char} {n : Nat} :
    number? text = some n ↔ Numeral n text ∧ n < wordLimit := by
  unfold number?
  dsimp only
  split
  · rename_i digits
    rw [number?_digits]
    constructor
    · rintro ⟨decimal, fits⟩
      exact ⟨.signed decimal, fits⟩
    · rintro ⟨numeral, fits⟩
      cases numeral with
      | bare decimal => exact absurd List.mem_cons_self (decimal.not_mem rfl)
      | signed decimal => exact ⟨decimal, fits⟩
  · rename_i unsigned
    rw [number?_digits]
    constructor
    · rintro ⟨decimal, fits⟩
      exact ⟨.bare decimal, fits⟩
    · rintro ⟨numeral, fits⟩
      cases numeral with
      | bare decimal => exact ⟨decimal, fits⟩
      | signed decimal => exact absurd rfl (unsigned _)

end Text

namespace Query

open Text

/-- The texts that ask for a query: a name without a colon, or the line and the column of a position,
both counted from one, with a colon between them. -/
inductive Written : Query → String → Prop where
  | name {text : String} (plain : ':' ∉ text.toList) : Written (.name text) text
  | position {p : Position} {line column : List Char}
      (ofLine : Numeral (p.line + 1) line) (lineFits : p.line + 1 < wordLimit)
      (ofColumn : Numeral (p.column + 1) column) (columnFits : p.column + 1 < wordLimit) :
      Written (.position p) (String.ofList (line ++ ':' :: column))

theorem coordinate?_eq_some_iff {text : List Char} {n : Nat} :
    coordinate? text = some n ↔ Numeral (n + 1) text ∧ n + 1 < wordLimit := by
  unfold coordinate?
  rw [← number?_eq_some_iff, Option.bind_eq_some_iff]
  constructor
  · rintro ⟨m, reads, positive⟩
    split at positive
    · cases positive
    · obtain rfl := Option.some.inj positive
      rwa [Nat.sub_add_cancel (by omega)]
  · intro reads
    exact ⟨n + 1, reads, rfl⟩

theorem parse_plain {flag : Flag} {text : String} (plain : ':' ∉ text.toList) :
    parse flag text = .ok (.name text) := by
  have none : text.toList.dropWhile (· != ':') = [] := by
    apply List.dropWhile_eq_nil_iff.mpr
    intro c member
    exact bne_iff_ne.mpr (ne_of_mem_of_not_mem member plain)
  simp only [parse, none]

/-- What stands before and behind the first colon has to be a coordinate each. -/
theorem parse_colon {flag : Flag} {text : String} {line column : List Char} {query : Query}
    (cut : text.toList = line ++ ':' :: column) (first : ':' ∉ line) :
    parse flag text = .ok query ↔ ∃ l c, coordinate? line = some l ∧ coordinate? column = some c ∧
      query = .position ⟨l, c⟩ := by
  have before : ∀ c ∈ line, (c != ':') = true := by
    intro c member
    exact bne_iff_ne.mpr (ne_of_mem_of_not_mem member first)
  have taken : text.toList.takeWhile (· != ':') = line := by
    rw [cut, List.takeWhile_append_of_pos before]
    simp
  have left : text.toList.dropWhile (· != ':') = ':' :: column := by
    rw [cut, List.dropWhile_append_of_pos before]
    simp
  simp only [parse, taken, left]
  constructor
  · intro reads
    split at reads
    · rename_i l c ofLine ofColumn
      exact ⟨l, c, ofLine, ofColumn, (Except.ok.inj reads).symm⟩
    · cases reads
  · rintro ⟨l, c, ofLine, ofColumn, rfl⟩
    simp only [ofLine, ofColumn]

/-- What is read as a query asks for it, and whatever asks for a query is read as that. -/
theorem parse_eq_ok_iff {flag : Flag} {text : String} {query : Query} :
    parse flag text = .ok query ↔ query.Written text := by
  constructor
  · intro reads
    by_cases colon : ':' ∈ text.toList
    · obtain ⟨line, column, cut, first⟩ := List.eq_append_cons_of_mem colon
      obtain ⟨l, c, ofLine, ofColumn, rfl⟩ := (parse_colon cut first).mp reads
      obtain ⟨lineNumeral, lineFits⟩ := coordinate?_eq_some_iff.mp ofLine
      obtain ⟨columnNumeral, columnFits⟩ := coordinate?_eq_some_iff.mp ofColumn
      rw [← String.ofList_toList (s := text), cut]
      exact .position lineNumeral lineFits columnNumeral columnFits
    · rw [parse_plain colon] at reads
      obtain rfl := Except.ok.inj reads
      exact .name colon
  · intro written
    cases written with
    | name plain => exact parse_plain plain
    | position ofLine lineFits ofColumn columnFits =>
      refine (parse_colon String.toList_ofList ofLine.no_colon).mpr ⟨_, _, ?_, ?_, rfl⟩
      · exact coordinate?_eq_some_iff.mpr ⟨ofLine, lineFits⟩
      · exact coordinate?_eq_some_iff.mpr ⟨ofColumn, columnFits⟩

end Query

theorem Flag.ofString?_eq_some_iff {word : String} {flag : Flag} :
    Flag.ofString? word = some flag ↔ word ∈ flag.spellings := by
  constructor
  · intro found
    have spelled : flag.spellings.contains word = true :=
      List.find?_some (p := fun flag : Flag => flag.spellings.contains word) found
    exact List.contains_iff_mem.mp spelled
  · have unique : ∀ flag ∈ Flag.all, ∀ word ∈ flag.spellings, Flag.ofString? word = some flag := by decide
    have listed : flag ∈ Flag.all := by cases flag <;> decide
    exact unique flag listed word

/-- The word for a format. -/
def Format.word : Format → String
  | yaml => "yaml"
  | json => "json"

/-- The option that asks for a mode. -/
def Mode.flag : Mode → Flag
  | outline => .outline
  | check => .check
  | definition _ => .definition
  | references _ => .references

/-- What one option says. -/
inductive Setting where
  | root (path : String)
  | glob (pattern : String)
  | mode (mode : Mode)
  | noDeclaration
  | format (format : Format)
  | timeout (seconds : Nat)
  | exclude (name : String)
  | withoutUsual
  deriving DecidableEq

namespace Setting

/-- The arguments that say a setting: any spelling of its option, and the value if there is one. -/
inductive Written : Setting → List String → Prop where
  | root {word path : String} (spelled : word ∈ Flag.root.spellings) : Written (.root path) [word, path]
  | glob {word pattern : String} (spelled : word ∈ Flag.glob.spellings) :
      Written (.glob pattern) [word, pattern]
  | outline {word : String} (spelled : word ∈ Flag.outline.spellings) : Written (.mode .outline) [word]
  | check {word : String} (spelled : word ∈ Flag.check.spellings) : Written (.mode .check) [word]
  | definition {word text : String} {query : Query} (spelled : word ∈ Flag.definition.spellings)
      (asks : query.Written text) : Written (.mode (.definition query)) [word, text]
  | references {word text : String} {query : Query} (spelled : word ∈ Flag.references.spellings)
      (asks : query.Written text) : Written (.mode (.references query)) [word, text]
  | noDeclaration {word : String} (spelled : word ∈ Flag.noDeclaration.spellings) :
      Written .noDeclaration [word]
  | format {word : String} {format : Format} (spelled : word ∈ Flag.format.spellings) :
      Written (.format format) [word, format.word]
  | timeout {word : String} {seconds : Nat} {text : String} (spelled : word ∈ Flag.timeout.spellings)
      (numeral : Numeral seconds text.toList) (fits : seconds < Text.wordLimit) :
      Written (.timeout seconds) [word, text]
  | exclude {word name : String} (spelled : word ∈ Flag.exclude.spellings) :
      Written (.exclude name) [word, name]
  | withoutUsual {word : String} (spelled : word ∈ Flag.withoutUsual.spellings) :
      Written .withoutUsual [word]

/-- The argument lists that say some settings, in their order. -/
inductive Says : List Setting → List String → Prop where
  | nothing : Says [] []
  | next {s : Setting} {settings : List Setting} {group later : List String} (written : s.Written group)
      (others : Says settings later) : Says (s :: settings) (group ++ later)

def root? : Setting → Option String
  | root path => some path
  | _ => none

def glob? : Setting → Option String
  | glob pattern => some pattern
  | _ => none

def mode? : Setting → Option Mode
  | mode m => some m
  | _ => none

def format? : Setting → Option Format
  | format f => some f
  | _ => none

def timeout? : Setting → Option Nat
  | timeout seconds => some seconds
  | _ => none

def exclude? : Setting → Option String
  | exclude name => some name
  | _ => none

end Setting

namespace Options

/-- What the arguments read so far say, with one more setting. -/
def Draft.given (d : Draft) : Setting → Draft
  | .root path => { d with root := some path }
  | .glob pattern => { d with globs := d.globs ++ [pattern] }
  | .mode mode => d.addMode mode.flag mode
  | .noDeclaration => { d with keepDeclarations := false }
  | .format format => { d with format }
  | .timeout seconds => { d with timeout := some seconds }
  | .exclude name => { d with excludes := d.excludes ++ [name] }
  | .withoutUsual => { d with withoutUsual := true }

variable {currentDirectory : String}

theorem readTimeout_eq_ok_iff {text : String} {seconds : Nat} :
    readTimeout text = .ok seconds ↔ Numeral seconds text.toList ∧ seconds < Text.wordLimit := by
  rw [← Text.number?_eq_some_iff, readTimeout]
  split
  · rename_i reads
    simp [reads]
  · rename_i refuses
    simp [refuses]

theorem readFormat_eq_ok_iff {text : String} {format : Format} :
    readFormat text = .ok format ↔ text = format.word := by
  unfold readFormat
  split
  · cases format <;> simp_all [Format.word]
  · split
    · cases format <;> simp_all [Format.word]
    · cases format <;> simp_all [Format.word]

section Reading

variable {word value : String} {flag : Flag} {later : List String} {d : Draft}

theorem parseFrom_alone {act : Draft → Draft} (spelled : word ∈ flag.spellings)
    (acts : action flag = .alone act) :
    parseFrom currentDirectory d (word :: later) = parseFrom currentDirectory (act d) later := by
  simp only [parseFrom, Flag.ofString?_eq_some_iff.mpr spelled, acts]

theorem parseFrom_valued {act : String → Draft → Except UsageError Draft} {d' : Draft}
    (spelled : word ∈ flag.spellings) (acts : action flag = .valued act) (reads : act value d = .ok d') :
    parseFrom currentDirectory d (word :: value :: later) = parseFrom currentDirectory d' later := by
  simp only [parseFrom, Flag.ofString?_eq_some_iff.mpr spelled, acts, reads]

/-- Arguments that say a setting add just that to what has been read. -/
theorem parseFrom_written {s : Setting} {group : List String} (written : s.Written group) :
    parseFrom currentDirectory d (group ++ later) = parseFrom currentDirectory (d.given s) later := by
  cases written with
  | root spelled => exact parseFrom_valued spelled rfl rfl
  | glob spelled => exact parseFrom_valued spelled rfl rfl
  | outline spelled => exact parseFrom_alone spelled rfl
  | check spelled => exact parseFrom_alone spelled rfl
  | definition spelled asks =>
    apply parseFrom_valued spelled rfl
    rw [Query.parse_eq_ok_iff.mpr asks]
    rfl
  | references spelled asks =>
    apply parseFrom_valued spelled rfl
    rw [Query.parse_eq_ok_iff.mpr asks]
    rfl
  | noDeclaration spelled => exact parseFrom_alone spelled rfl
  | format spelled =>
    apply parseFrom_valued spelled rfl
    rw [readFormat_eq_ok_iff.mpr rfl]
    rfl
  | timeout spelled numeral fits =>
    apply parseFrom_valued spelled rfl
    rw [readTimeout_eq_ok_iff.mpr ⟨numeral, fits⟩]
    rfl
  | exclude spelled => exact parseFrom_valued spelled rfl rfl
  | withoutUsual spelled => exact parseFrom_alone spelled rfl

theorem exists_of_map_ok {α β : Type} {x : Except UsageError α} {f : α → β} {b : β}
    (succeeds : x.map f = .ok b) : ∃ a, x = .ok a ∧ b = f a := by
  cases x with
  | error e => cases succeeds
  | ok a => exact ⟨a, rfl, (Except.ok.inj succeeds).symm⟩

/-- An option that acts by itself says a setting. -/
theorem exists_setting_of_alone {act : Draft → Draft} (spelled : word ∈ flag.spellings)
    (acts : action flag = .alone act) : ∃ s : Setting, s.Written [word] ∧ act d = d.given s := by
  cases flag with
  | outline =>
    cases acts
    exact ⟨_, .outline spelled, rfl⟩
  | check =>
    cases acts
    exact ⟨_, .check spelled, rfl⟩
  | noDeclaration =>
    cases acts
    exact ⟨_, .noDeclaration spelled, rfl⟩
  | withoutUsual =>
    cases acts
    exact ⟨_, .withoutUsual spelled, rfl⟩
  | root | glob | definition | references | format | timeout | exclude | help | version => cases acts

/-- An option with a value that is not refused says a setting. -/
theorem exists_setting_of_valued {act : String → Draft → Except UsageError Draft} {d' : Draft}
    (spelled : word ∈ flag.spellings) (acts : action flag = .valued act) (reads : act value d = .ok d') :
    ∃ s : Setting, s.Written [word, value] ∧ d' = d.given s := by
  cases flag with
  | root =>
    cases acts
    exact ⟨_, .root spelled, (Except.ok.inj reads).symm⟩
  | glob =>
    cases acts
    exact ⟨_, .glob spelled, (Except.ok.inj reads).symm⟩
  | definition =>
    cases acts
    obtain ⟨query, parses, rfl⟩ := exists_of_map_ok reads
    exact ⟨_, .definition spelled (Query.parse_eq_ok_iff.mp parses), rfl⟩
  | references =>
    cases acts
    obtain ⟨query, parses, rfl⟩ := exists_of_map_ok reads
    exact ⟨_, .references spelled (Query.parse_eq_ok_iff.mp parses), rfl⟩
  | format =>
    cases acts
    obtain ⟨format, names, rfl⟩ := exists_of_map_ok reads
    obtain rfl := readFormat_eq_ok_iff.mp names
    exact ⟨_, .format spelled, rfl⟩
  | timeout =>
    cases acts
    obtain ⟨seconds, counts, rfl⟩ := exists_of_map_ok reads
    obtain ⟨numeral, fits⟩ := readTimeout_eq_ok_iff.mp counts
    exact ⟨_, .timeout spelled numeral fits, rfl⟩
  | exclude =>
    cases acts
    exact ⟨_, .exclude spelled, (Except.ok.inj reads).symm⟩
  | outline | check | noDeclaration | withoutUsual | help | version => cases acts

end Reading

/-- Arguments that say some settings are read to what these say together. -/
theorem parseFrom_of_says {settings : List Setting} {arguments : List String}
    (said : Setting.Says settings arguments) (d : Draft) :
    parseFrom currentDirectory d arguments =
      ((settings.foldl Draft.given d).finish currentDirectory).map .run := by
  induction said generalizing d with
  | nothing => rfl
  | next written others ih => rw [parseFrom_written written, ih, List.foldl_cons]

/-- Arguments that are read to the end of a run say settings. -/
theorem exists_settings {d : Draft} {arguments : List String} {o : Options}
    (reads : parseFrom currentDirectory d arguments = .ok (.run o)) :
    ∃ settings, Setting.Says settings arguments := by
  induction d, arguments using parseFrom.induct with
  | case1 d => exact ⟨[], .nothing⟩
  | case2 d word later unknown =>
    simp only [parseFrom, unknown] at reads
    cases reads
  | case3 d word later flag known command acts =>
    simp only [parseFrom, known, acts] at reads
    -- Only the requests for help and for the version end the reading.
    cases flag <;> cases acts <;> cases reads
  | case4 d word later flag known act acts ih =>
    have spelled := Flag.ofString?_eq_some_iff.mp known
    obtain ⟨s, written, -⟩ := exists_setting_of_alone (d := d) spelled acts
    rw [parseFrom_alone spelled acts] at reads
    obtain ⟨settings, said⟩ := ih reads
    exact ⟨s :: settings, .next written said⟩
  | case5 d word flag known act acts =>
    simp only [parseFrom, known, acts] at reads
    cases reads
  | case6 d word flag known act acts value later e refuses =>
    simp only [parseFrom, known, acts, refuses] at reads
    cases reads
  | case7 d word flag known act acts value later d' accepts ih =>
    have spelled := Flag.ofString?_eq_some_iff.mp known
    obtain ⟨s, written, -⟩ := exists_setting_of_valued spelled acts accepts
    rw [parseFrom_valued spelled acts accepts] at reads
    obtain ⟨settings, said⟩ := ih reads
    exact ⟨s :: settings, .next written said⟩

/-- What some settings add up to: lists grow, and of anything else the last counts. -/
theorem foldl_given (d : Draft) (settings : List Setting) :
    settings.foldl Draft.given d = {
      root := (settings.filterMap Setting.root?).getLast?.or d.root
      globs := d.globs ++ settings.filterMap Setting.glob?
      modes := d.modes ++ (settings.filterMap Setting.mode?).map fun mode => (mode.flag, mode)
      keepDeclarations := d.keepDeclarations && !settings.contains .noDeclaration
      format := (settings.filterMap Setting.format?).getLast?.getD d.format
      timeout := (settings.filterMap Setting.timeout?).getLast?.or d.timeout
      excludes := d.excludes ++ settings.filterMap Setting.exclude?
      withoutUsual := d.withoutUsual || settings.contains .withoutUsual } := by
  induction settings generalizing d with
  | nil => simp
  | cons s settings ih =>
    rw [List.foldl_cons, ih]
    cases s <;> simp [Draft.given, Draft.addMode, List.filterMap_cons, List.getLast?_cons, Setting.root?,
      Setting.glob?, Setting.mode?, Setting.format?, Setting.timeout?, Setting.exclude?]

end Options

/-- What a mode looks up, if it looks up anything. -/
def Mode.query? : Mode → Option Query
  | definition query => some query
  | references query => some query
  | outline | check => none

/-- The queries that can be written. -/
def Query.Expressible : Query → Prop
  | name text => ':' ∉ text.toList
  | position p => p.line + 1 < Text.wordLimit ∧ p.column + 1 < Text.wordLimit

namespace Options

/-- The options that a command line can ask for. -/
structure Expressible (o : Options) : Prop where
  globs : o.globs ≠ []
  query : ∀ query, o.mode.query? = some query → query.Expressible
  timeout : ∀ seconds, o.timeout = some seconds → seconds < Text.wordLimit
  references : o.keepDeclarations = false → o.mode.isReferences = true

/-- Settings, in any order, that give each option once: globs and exclusions in the order of their lists,
and the outline, which is the usual mode, or not. -/
structure Stated (o : Options) (settings : List Setting) : Prop where
  root : settings.filterMap Setting.root? = [o.root]
  globs : settings.filterMap Setting.glob? = o.globs
  mode : settings.filterMap Setting.mode? = [o.mode] ∨
    o.mode = .outline ∧ settings.filterMap Setting.mode? = []
  noDeclaration : settings.count .noDeclaration = (!o.keepDeclarations).toNat
  format : settings.filterMap Setting.format? = [o.format]
  timeout : settings.filterMap Setting.timeout? = o.timeout.toList
  excludes : settings.filterMap Setting.exclude? = o.excludes
  withoutUsual : settings.count .withoutUsual = o.withoutUsual.toNat

/-- The argument lists that write some options. -/
def Writes (o : Options) (arguments : List String) : Prop :=
  ∃ settings, o.Stated settings ∧ Setting.Says settings arguments

variable {currentDirectory : String} {o : Options} {settings : List Setting} {d : Draft}

theorem contains_of_count {s : Setting} {b : Bool} (counted : settings.count s = b.toNat) :
    settings.contains s = b := by
  cases b with
  | false => simpa using List.count_eq_zero.mp counted
  | true => simpa using List.count_pos_iff.mp (counted ▸ Nat.one_pos)

theorem foldl_given_of_stated (stated : o.Stated settings) :
    settings.foldl Draft.given {} = {
      root := some o.root
      globs := o.globs
      modes := (settings.filterMap Setting.mode?).map fun mode => (mode.flag, mode)
      keepDeclarations := o.keepDeclarations
      format := o.format
      timeout := o.timeout
      excludes := o.excludes
      withoutUsual := o.withoutUsual } := by
  have timeout : o.timeout.toList.getLast? = o.timeout := by cases o.timeout <;> rfl
  rw [foldl_given, stated.root, stated.globs, stated.format, stated.timeout, stated.excludes, timeout,
    contains_of_count stated.noDeclaration, contains_of_count stated.withoutUsual]
  simp

/-- Settings that give each option once add up to the options. -/
theorem finish_of_stated (stated : o.Stated settings) (globs : o.globs ≠ [])
    (references : o.keepDeclarations = false → o.mode.isReferences = true) :
    (settings.foldl Draft.given {}).finish currentDirectory = .ok o := by
  have given : o.globs.isEmpty = false := List.isEmpty_eq_false_iff.mpr globs
  have allowed : (!o.keepDeclarations && !o.mode.isReferences) = false := by
    cases kept : o.keepDeclarations with
    | true => rfl
    | false => simp [references kept]
  rw [foldl_given_of_stated stated]
  rcases stated.mode with asked | ⟨usual, none⟩
  · simp only [Draft.finish, asked, List.map_cons, List.map_nil, List.length_singleton, List.head?_cons,
      Option.map_some, Option.getD_some, allowed, given]
    rfl
  · simp only [Draft.finish, none, List.map_nil, List.length_nil, List.head?_nil, Option.map_none,
      Option.getD_none, allowed, given, ← usual]
    rfl

/-- What the settings of a run say that is not refused. -/
theorem of_finish (finishes : d.finish currentDirectory = .ok o) :
    d.modes.length ≤ 1 ∧ o.mode = ((d.modes.head?).map Prod.snd).getD .outline ∧ o.globs ≠ [] ∧
      o.timeout = d.timeout ∧ (o.keepDeclarations = false → o.mode.isReferences = true) := by
  unfold Draft.finish at finishes
  split at finishes
  · cases finishes
  · rename_i single
    dsimp only at finishes
    split at finishes
    · cases finishes
    · rename_i allowed
      obtain rfl := Except.ok.inj finishes
      refine ⟨by omega, rfl, ?_, rfl, ?_⟩
      · split
        · exact List.cons_ne_nil _ _
        · rename_i given
          exact fun empty => given (List.isEmpty_iff.mpr empty)
      · intro dropped
        simpa [show d.keepDeclarations = false from dropped] using allowed

end Options

theorem Query.Written.expressible {query : Query} {text : String} (written : query.Written text) :
    query.Expressible := by
  cases written with
  | name plain => exact plain
  | position ofLine lineFits ofColumn columnFits => exact ⟨lineFits, columnFits⟩

theorem Query.Expressible.exists_written {query : Query} (expressible : query.Expressible) :
    ∃ text, query.Written text := by
  cases query with
  | name text => exact ⟨text, .name expressible⟩
  | position p =>
    obtain ⟨lineFits, columnFits⟩ := expressible
    exact ⟨_, .position (numeral_toDigits _) lineFits (numeral_toDigits _) columnFits⟩

namespace Setting

variable {settings : List Setting} {arguments : List String}

/-- Each of the settings that an argument list says is written there. -/
theorem Says.exists_written (said : Says settings arguments) {s : Setting} (member : s ∈ settings) :
    ∃ group, s.Written group := by
  induction said with
  | nothing => cases member
  | next written others ih =>
    rcases List.mem_cons.mp member with rfl | later
    · exact ⟨_, written⟩
    · exact ih later

theorem Says.query_expressible (said : Says settings arguments) {mode : Mode}
    (given : mode ∈ settings.filterMap mode?) {query : Query} (asks : mode.query? = some query) :
    query.Expressible := by
  obtain ⟨s, member, isMode⟩ := List.mem_filterMap.mp given
  obtain ⟨group, written⟩ := said.exists_written member
  cases written with
  | outline | check =>
    cases isMode
    cases asks
  | definition spelled writes | references spelled writes =>
    cases isMode
    cases asks
    exact writes.expressible
  | root | glob | noDeclaration | format | timeout | exclude | withoutUsual => cases isMode

theorem Says.timeout_fits (said : Says settings arguments) {seconds : Nat}
    (given : seconds ∈ settings.filterMap timeout?) : seconds < Text.wordLimit := by
  obtain ⟨s, member, isTimeout⟩ := List.mem_filterMap.mp given
  obtain ⟨group, written⟩ := said.exists_written member
  cases written with
  | timeout spelled numeral fits =>
    cases isTimeout
    exact fits
  | root | glob | outline | check | definition | references | noDeclaration | format | exclude
  | withoutUsual => cases isTimeout

/-- A setting can be written if its query and its number can. -/
theorem exists_written (s : Setting)
    (query : ∀ mode, s = .mode mode → ∀ query, mode.query? = some query → query.Expressible)
    (timeout : ∀ seconds, s = .timeout seconds → seconds < Text.wordLimit) : ∃ group, s.Written group := by
  cases s with
  | root path => exact ⟨_, .root List.mem_cons_self⟩
  | glob pattern => exact ⟨_, .glob List.mem_cons_self⟩
  | mode mode =>
    cases mode with
    | outline => exact ⟨_, .outline List.mem_cons_self⟩
    | check => exact ⟨_, .check List.mem_cons_self⟩
    | definition asked =>
      obtain ⟨text, asks⟩ := (query _ rfl asked rfl).exists_written
      exact ⟨_, .definition List.mem_cons_self asks⟩
    | references asked =>
      obtain ⟨text, asks⟩ := (query _ rfl asked rfl).exists_written
      exact ⟨_, .references List.mem_cons_self asks⟩
  | noDeclaration => exact ⟨_, .noDeclaration List.mem_cons_self⟩
  | format format => exact ⟨_, .format List.mem_cons_self⟩
  | timeout seconds =>
    have numeral : Numeral seconds (String.ofList (Nat.toDigits 10 seconds)).toList :=
      String.toList_ofList ▸ numeral_toDigits seconds
    exact ⟨_, .timeout List.mem_cons_self numeral (timeout seconds rfl)⟩
  | exclude name => exact ⟨_, .exclude List.mem_cons_self⟩
  | withoutUsual => exact ⟨_, .withoutUsual List.mem_cons_self⟩

theorem exists_says_of_written (written : ∀ s ∈ settings, ∃ group, s.Written group) :
    ∃ arguments, Says settings arguments := by
  induction settings with
  | nil => exact ⟨[], .nothing⟩
  | cons s settings ih =>
    obtain ⟨⟨group, first⟩, others⟩ := List.forall_mem_cons.mp written
    obtain ⟨later, said⟩ := ih others
    exact ⟨group ++ later, .next first said⟩

end Setting

namespace Options

variable {currentDirectory : String} {o : Options} {settings : List Setting} {arguments : List String}

/-- Options that some arguments are read to can be asked for, and they ask for one mode at most. -/
theorem expressible_of_finish (said : Setting.Says settings arguments)
    (finishes : (settings.foldl Draft.given {}).finish currentDirectory = .ok o) :
    o.Expressible ∧ (settings.filterMap Setting.mode?).length ≤ 1 := by
  rw [foldl_given] at finishes
  obtain ⟨single, mode, globs, timeout, references⟩ := of_finish finishes
  simp only [List.nil_append, List.length_map, List.head?_map, Option.map_map] at single mode
  refine ⟨⟨globs, ?_, ?_, references⟩, single⟩
  · intro query asks
    cases first : (settings.filterMap Setting.mode?).head? with
    | none =>
      rw [mode, first] at asks
      cases asks
    | some m =>
      rw [mode, first] at asks
      exact said.query_expressible (List.mem_of_head? first) asks
  · intro seconds given
    rw [timeout] at given
    simp only [Option.or_none] at given
    exact said.timeout_fits (List.mem_of_getLast? given)

/-- The settings that give some options once, kind by kind. -/
def asSettings (o : Options) : List Setting :=
  .root o.root :: .mode o.mode :: .format o.format ::
    (o.timeout.toList.map .timeout ++ o.globs.map .glob ++ o.excludes.map .exclude ++
      (if o.keepDeclarations then [] else [.noDeclaration]) ++
      if o.withoutUsual then [.withoutUsual] else [])

theorem count_map_of_ne {α : Type} {setting : α → Setting} {s : Setting} (other : ∀ a, setting a ≠ s)
    (items : List α) : (items.map setting).count s = 0 := by
  apply List.count_eq_zero.mpr
  intro member
  obtain ⟨a, -, same⟩ := List.mem_map.mp member
  exact other a same

theorem stated_asSettings (o : Options) : o.Stated o.asSettings := by
  have nothing {α β : Type} (items : List α) : items.filterMap (fun _ => (none : Option β)) = [] := by simp
  unfold asSettings
  constructor
  case mode =>
    left
    cases o.keepDeclarations <;> cases o.withoutUsual <;>
      simp [List.filterMap_cons, Function.comp_def, nothing, Setting.mode?]
  case noDeclaration | withoutUsual =>
    cases o.keepDeclarations <;> cases o.withoutUsual <;> simp [count_map_of_ne]
  all_goals
    cases o.keepDeclarations <;> cases o.withoutUsual <;>
      simp [List.filterMap_cons, Function.comp_def, nothing, Setting.root?, Setting.glob?,
        Setting.format?, Setting.timeout?, Setting.exclude?]

/-- In whatever order settings give options that can be asked for, they can be written in that order. -/
theorem exists_says (expressible : o.Expressible) (stated : o.Stated settings) :
    ∃ arguments, Setting.Says settings arguments := by
  apply Setting.exists_says_of_written
  intro s member
  apply s.exists_written
  · rintro mode rfl query asks
    have given : mode ∈ settings.filterMap Setting.mode? := List.mem_filterMap.mpr ⟨_, member, rfl⟩
    rcases stated.mode with asked | ⟨-, none⟩
    · rw [asked, List.mem_singleton] at given
      exact expressible.query query (given ▸ asks)
    · rw [none] at given
      cases given
  · rintro seconds rfl
    have given : seconds ∈ settings.filterMap Setting.timeout? := List.mem_filterMap.mpr ⟨_, member, rfl⟩
    rw [stated.timeout, Option.mem_toList] at given
    exact expressible.timeout seconds given

end Options

/-- Command lines are read to what they write. Whatever the order of the options and however they are
spelled, arguments that give each option of a run once, with any values, are read to these options, and
every run whose options can be asked for is written by some arguments. Arguments that are read to a run fall
into settings, of which one at most asks for a mode, and the options of the run can be asked for: there is
a glob, and declarations are dropped from references only. -/
theorem command_lines_read (currentDirectory : String) :
    (∀ (o : Options) (arguments : List String), o.Expressible → o.Writes arguments →
      Options.parse currentDirectory arguments = .ok (.run o)) ∧
    (∀ o : Options, o.Expressible → ∃ arguments, o.Writes arguments) ∧
    ∀ (arguments : List String) (o : Options),
      Options.parse currentDirectory arguments = .ok (.run o) →
        o.Expressible ∧ (∃ settings, Setting.Says settings arguments) ∧
          ∀ settings, Setting.Says settings arguments →
            (settings.filterMap Setting.mode?).length ≤ 1 := by
  refine ⟨?_, ?_, ?_⟩
  · rintro o arguments expressible ⟨settings, stated, said⟩
    rw [Options.parse, Options.parseFrom_of_says said,
      Options.finish_of_stated stated expressible.globs expressible.references]
    rfl
  · intro o expressible
    obtain ⟨arguments, said⟩ := Options.exists_says expressible o.stated_asSettings
    exact ⟨arguments, o.asSettings, o.stated_asSettings, said⟩
  · intro arguments o reads
    have accepted (settings : List Setting) (said : Setting.Says settings arguments) :
        o.Expressible ∧ (settings.filterMap Setting.mode?).length ≤ 1 := by
      rw [Options.parse, Options.parseFrom_of_says said] at reads
      obtain ⟨o', finishes, same⟩ := Options.exists_of_map_ok reads
      cases same
      exact Options.expressible_of_finish said finishes
    obtain ⟨settings, said⟩ := Options.exists_settings reads
    refine ⟨(accepted settings said).1, ⟨settings, said⟩, ?_⟩
    intro settings said
    exact (accepted settings said).2

/-- Options with values that look like options. -/
def disguised : Options :=
  { root := "--root", globs := ["--outline", "-g"], mode := .references (.position ⟨2, 6⟩),
    keepDeclarations := false, format := .json, timeout := some 7, excludes := ["--help"],
    withoutUsual := true }

/-- A command line for them, in no particular order. -/
def disguise : List String :=
  ["--refs", "3:7", "--r", "--outline", "--exclude", "--help", "--no-declaration", "-d", "--root",
    "--timeout", "+07", "-g", "-g", "--no-defaults", "--format", "json"]

/-- The values of `disguise` are taken for values, so it is read to the options that it writes. -/
theorem command_line_read_of_disguise :
    disguised.Expressible ∧ disguised.Writes disguise ∧
      Options.parse "/" disguise = .ok (.run disguised) := by
  have expressible : disguised.Expressible := {
    globs := by decide
    query := by
      rintro _ ⟨⟩
      exact ⟨by decide, by decide⟩
    timeout := by
      rintro _ ⟨⟩
      decide
    references := fun _ => rfl }
  have reads : Query.parse .references "3:7" = .ok (.position ⟨2, 6⟩) := rfl
  have asks : (Query.position ⟨2, 6⟩).Written "3:7" := Query.parse_eq_ok_iff.mp reads
  obtain ⟨numeral, fits⟩ : Numeral 7 "+07".toList ∧ 7 < Text.wordLimit := Text.number?_eq_some_iff.mp rfl
  have writes : disguised.Writes disguise := by
    refine ⟨[.mode disguised.mode, .glob "--outline", .exclude "--help", .noDeclaration, .root "--root",
      .timeout 7, .glob "-g", .withoutUsual, .format .json], ?_, ?_⟩
    · exact ⟨rfl, rfl, .inl rfl, rfl, rfl, rfl, rfl, rfl⟩
    · exact .next (.references (by decide) asks) (.next (.glob (by decide)) (.next (.exclude (by decide))
        (.next (.noDeclaration (by decide)) (.next (.root (by decide)) (.next (.timeout (by decide) numeral fits)
          (.next (.glob (by decide)) (.next (.withoutUsual (by decide)) (.next (.format (by decide))
            .nothing))))))))
  exact ⟨expressible, writes, (command_lines_read "/").1 disguised disguise expressible writes⟩

end SymbolIndex
