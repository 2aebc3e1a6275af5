import SymbolIndex.Proofs.Headings

/-! Line comments behind a declaration. What a reader takes from the beginning of a line ends in a
character that is no blank and holds no slash, so it cannot reach into a comment behind the line. The
readers that look at the whole line are the exceptions, and each lemma names what it takes from the
comment. -/
namespace SymbolIndex

namespace Text

/-- Blanks and a line comment behind them. -/
structure Remark where
  gap : List Char
  note : List Char
  apart : gap ≠ []
  blank : Blanks gap
  oneLine : '\n' ∉ gap ++ note

/-- The text of a remark. -/
def Remark.text (remark : Remark) : List Char := remark.gap ++ '/' :: '/' :: remark.note

namespace Remark

variable (remark : Remark)

theorem exists_first : ∃ c later, remark.text = c :: later ∧ isBlank c = true := by
  obtain ⟨c, later, same⟩ := List.exists_cons_of_ne_nil remark.apart
  refine ⟨c, later ++ '/' :: '/' :: remark.note, ?_, remark.blank c (same ▸ List.mem_cons_self)⟩
  rw [text, same, List.cons_append]

/-- A mark that is neither a blank nor a slash is in the remark if it is in the note. -/
theorem mem_text_iff {c : Char} (bare : isBlank c = false) (other : c ≠ '/') :
    c ∈ remark.text ↔ c ∈ remark.note := by
  have outside : c ∉ remark.gap := by
    intro inGap
    rw [remark.blank c inGap] at bare
    cases bare
  simp [text, outside, other]

theorem slash_mem : '/' ∈ remark.text := by simp [text]

theorem newline_not_mem : '\n' ∉ remark.text := by
  have oneLine := remark.oneLine
  rw [List.mem_append, not_or] at oneLine
  simp [text, oneLine]

/-- A beginning of the text that ends in no blank, and has no slash, ends before the remark. -/
theorem prefix_of_bare {s taken rest : List Char} (same : s ++ remark.text = taken ++ rest)
    (ends : EndsBare taken) (slashless : '/' ∉ taken) :
    ∃ between, s = taken ++ between ∧ rest = between ++ remark.text := by
  rcases List.append_eq_append_iff.mp same with ⟨more, whole, cut⟩ | ⟨between, whole, cut⟩
  · rw [whole, List.mem_append, not_or] at slashless
    obtain ⟨gap, inGap, -⟩ := prefix_of_not_mem cut.symm slashless.2
    obtain rfl | ⟨more, d, rfl⟩ := List.eq_nil_or_concat' more
    · exact ⟨[], by simp [whole], by simpa using cut.symm⟩
    · -- Otherwise it would end in the gap.
      obtain ⟨before, c, last, bare⟩ := ends
      rw [whole, ← List.append_assoc] at last
      obtain ⟨-, same⟩ := List.append_inj' last rfl
      obtain rfl := List.cons.inj same |>.1
      rw [remark.blank d (by simp [inGap])] at bare
      cases bare
  · exact ⟨between, whole, cut⟩

/-- The remark without the blanks at its end. -/
def trimmed (remark : Remark) : Remark where
  gap := remark.gap
  note := trimEnd remark.note
  apart := remark.apart
  blank := remark.blank
  oneLine newline := by
    obtain ⟨tail, whole, -⟩ := exists_trimEnd_append remark.note
    apply remark.oneLine
    rw [whole, ← List.append_assoc]
    exact List.mem_append_left tail newline

/-- Trimming a text with a remark leaves the text as it is. -/
theorem trim_append {s : List Char} (bare : StartsBare s) :
    trim (s ++ remark.text) = s ++ remark.trimmed.text := by
  obtain ⟨tail, whole, blank⟩ := exists_trimEnd_append remark.note
  have ends : EndsBare remark.trimmed.text := by
    show EndsBare (remark.gap ++ '/' :: '/' :: trimEnd remark.note)
    apply EndsBare.append
    cases left : trimEnd remark.note with
    | nil => exact ⟨['/'], '/', rfl, rfl⟩
    | cons c later =>
      have unblank := endsBare_trimEnd (left ▸ List.cons_ne_nil c later : trimEnd remark.note ≠ [])
      rw [left] at unblank
      exact unblank.append ['/', '/']
  have cut : s ++ remark.text = s ++ remark.trimmed.text ++ tail := by
    rw [List.append_assoc, text, text, trimmed, List.append_assoc, List.cons_append, List.cons_append,
      ← whole]
  rw [cut, trim_append_blanks _ blank, trim_of_bare (bare.append _) (ends.append s)]

/-- The remark behind more blanks of its line. -/
def behind (remark : Remark) {tail : List Char} (blank : Blanks tail) (oneLine : '\n' ∉ tail) : Remark where
  gap := tail ++ remark.gap
  note := remark.note
  apart := List.append_ne_nil_of_right_ne_nil tail remark.apart
  blank := blanks_append.mpr ⟨blank, remark.blank⟩
  oneLine newline := by
    rw [List.append_assoc] at newline
    exact (List.mem_append.mp newline).elim oneLine remark.oneLine

theorem text_behind {tail : List Char} (blank : Blanks tail) (oneLine : '\n' ∉ tail) :
    (remark.behind blank oneLine).text = tail ++ remark.text := by
  rw [text, text, behind, List.append_assoc]

/-- A line with a remark is trimmed to the trimmed line and the remark. -/
theorem exists_trim_append {s : List Char} (nonempty : trim s ≠ []) (oneLine : '\n' ∉ s) :
    ∃ rest : Remark, trim (s ++ remark.text) = trim s ++ rest.text ∧ rest.note = trimEnd remark.note := by
  obtain ⟨tail, whole, blank⟩ := Text.exists_trim_append s
  have single : '\n' ∉ tail := by
    intro newline
    apply oneLine
    rw [whole]
    exact List.mem_append_right _ newline
  refine ⟨(remark.behind blank single).trimmed, ?_, rfl⟩
  calc trim (s ++ remark.text)
    _ = trim (indent s ++ (trim s ++ (tail ++ remark.text))) := by
      rw [← List.append_assoc, ← List.append_assoc, ← whole]
    _ = trim (trim s ++ (remark.behind blank single).text) := by
      rw [trim_blanks_append (blanks_indent s), text_behind]
    _ = trim s ++ (remark.behind blank single).trimmed.text := trim_append _ (startsBare_trim nonempty)

/-- A mark of two characters begins a text with a remark if it begins the text. -/
theorem startsWith_pair {s : List Char} (nonempty : s ≠ []) {a b : Char} (bare : isBlank b = false) :
    startsWith [a, b] (s ++ remark.text) = startsWith [a, b] s := by
  obtain ⟨c, later, first, blank⟩ := remark.exists_first
  have other : b ≠ c := (Lexical.ne_of_class blank bare).symm
  rcases s with _ | ⟨d, _ | ⟨e, s⟩⟩
  · exact absurd rfl nonempty
  · rw [first]
    by_cases same : a = d <;> simp [startsWith, afterPrefix?, same, other]
  · by_cases same : a = d
    · by_cases same' : b = e <;> simp [startsWith, afterPrefix?, same, same']
    · simp [startsWith, afterPrefix?, same]

/-- A text is blank in front of a remark, which then comes first, or blanks end inside the text. -/
theorem trimStart_cases (s : List Char) :
    (trimStart s = [] ∧ trimStart (s ++ remark.text) = '/' :: '/' :: remark.note) ∨
      (trimStart s ≠ [] ∧ indent (s ++ remark.text) = indent s ∧
        trimStart (s ++ remark.text) = trimStart s ++ remark.text) := by
  have whole := indent_append_trimStart s
  cases starts : trimStart s with
  | nil =>
    have blank : Blanks s := List.dropWhile_eq_nil_iff.mp starts
    refine .inl ⟨rfl, ?_⟩
    rw [trimStart_blanks_append blank, text, trimStart_blanks_append remark.blank]
    rfl
  | cons c later =>
    have bare : ¬ isBlank c = true := by
      have stops := List.head?_dropWhile_not isBlank s
      rw [show s.dropWhile isBlank = c :: later from starts] at stops
      simpa using stops
    have cut : s ++ remark.text = indent s ++ (c :: (later ++ remark.text)) := by
      rw [starts] at whole
      rw [← List.cons_append, ← List.append_assoc, whole]
    refine .inr ⟨List.cons_ne_nil c later, ?_, ?_⟩
    · rw [cut, indent, List.takeWhile_append_of_pos (blanks_indent s), List.takeWhile_cons_of_neg bare,
        List.append_nil]
    · rw [cut, trimStart_blanks_append (blanks_indent s)]
      exact List.dropWhile_cons_of_neg bare

end Remark

end Text

/-- Braces in a remark behind code do not count. -/
theorem braceBalance_remark {line : List Char} {tail : CodeTail}
    (ends : Lexical.start.after line = .code tail) (remark : Text.Remark) :
    braceBalance (line ++ remark.text) = braceBalance line := by
  obtain ⟨c, later, same⟩ := List.exists_cons_of_ne_nil remark.apart
  have blank := remark.blank
  rw [same] at blank
  obtain ⟨first, others⟩ := List.forall_mem_cons.mp blank
  have settles : (Lexical.code tail).after (c :: later) = .start := by
    rw [Lexical.after_cons, Lexical.code_next_blank tail first]
    exact Lexical.start_after_blanks others
  have note : (Lexical.start.scan ('/' :: '/' :: remark.note)).2 = 0 := by
    have oneLine := remark.oneLine
    rw [List.mem_append, not_or] at oneLine
    rw [Lexical.scan_cons, Lexical.scan_cons]
    exact (Int.zero_add _).trans ((Int.zero_add _).trans (Lexical.scan_lineComment oneLine.2))
  rw [braceBalance, braceBalance, Lexical.scan_append, ends, Text.Remark.text, same, Lexical.scan_append,
    Lexical.scan_blanks _ blank, settles, note]
  simp

/-- A remark does not make a comment of a line of code, and neither opens a block comment nor keeps one
open. -/
theorem Comment.read_remark {line : List Char} (nonempty : line ≠ []) (oneLine : '\n' ∉ line) {isOpen : Bool}
    (code : (read isOpen line).isComment = false) (remark : Text.Remark) :
    read isOpen (line ++ remark.text) = read isOpen line := by
  unfold read at code ⊢
  cases isOpen with
  | false =>
    have opens : (Text.afterPrefix? openMark line).isSome = false := by
      rw [← Bool.not_eq_true]
      intro opened
      obtain ⟨rest, found⟩ := Option.isSome_iff_exists.mp opened
      simp [found] at code
    have opens' : (Text.afterPrefix? openMark (line ++ remark.text)).isSome = false :=
      (remark.startsWith_pair nonempty rfl).trans opens
    rw [Option.isSome_eq_false_iff, Option.isNone_iff_eq_none] at opens opens'
    rw [opens, opens']
    exact congrArg (Reading.mk · false) (remark.startsWith_pair nonempty rfl)
  | true =>
    cases closes : Text.afterFirst? closeMark line with
    | none => simp [closes] at code
    | some rest =>
      rw [Text.afterFirst?_append closes]
      rw [closes] at code
      dsimp only [ite_true] at code ⊢
      obtain ⟨unempty, -⟩ := Bool.or_eq_false_iff.mp code
      have left : Text.trim rest ≠ [] := List.isEmpty_eq_false_iff.mp unempty
      have single : '\n' ∉ rest := fun newline => oneLine (Text.mem_of_mem_afterFirst? closes newline)
      obtain ⟨more, trimmed, -⟩ := remark.exists_trim_append left single
      have nonempty' : (Text.trim rest ++ more.text).isEmpty = false := by simp [left]
      rw [trimmed, nonempty', unempty]
      exact congrArg (fun starts => Reading.mk (false || starts) false) (more.startsWith_pair left rfl)

/-- What a piece takes ends in a character that is no blank, and it stops before blanks. -/
structure Piece.Bare (piece : Piece) : Prop where
  ends : ∀ text, piece.Fits text → Text.EndsBare text
  stops : ∀ c s, Text.isBlank c = true → piece.Stops (c :: s)

theorem Piece.bare_literal {c : Char} (unblank : Text.isBlank c = false) : (literal [c]).Bare where
  ends := by
    rintro _ rfl
    exact ⟨[], c, rfl, unblank⟩
  stops _ _ _ := trivial

theorem Piece.bare_some1 {allowed : Char → Bool}
    (unblank : ∀ c, allowed c = true → Text.isBlank c = false) : (some1 allowed).Bare where
  ends text fits := by
    obtain ⟨nonempty, chars⟩ := some1_fits_iff.mp fits
    exact Text.endsBare_of_unblank (fun c member => unblank c (chars c member)) nonempty
  stops c s blank := by
    apply word_stops
    rw [← Bool.not_eq_true]
    intro inside
    rw [unblank c inside] at blank
    cases blank

namespace Pattern

/-- A pattern of two parts takes with the second what the first leaves. -/
theorem take?_parts (front later : Pattern) (s : List Char) :
    take? (front ++ later) s = (take? front s).bind fun (texts, rest) =>
      (take? later rest).map fun (texts', rest') => (texts ++ texts', rest') := by
  induction front generalizing s with
  | nil => simp [take?]
  | cons piece front ih =>
    rw [List.cons_append, take?, take?]
    cases piece.take? s with
    | none => rfl
    | some text =>
      dsimp only
      rw [ih, Option.bind_map, Option.map_bind]
      congr 1
      funext match'
      simp [Function.comp_def]

theorem take?_blanks (s : List Char) :
    take? [.blanks] s = some ([Text.indent s], Text.trimStart s) := by
  have fits : Piece.blanks.Fits (Text.indent s) := Text.blanks_indent s
  have stops : Piece.blanks.Stops (Text.trimStart s) := by
    intro c first
    have stop := List.head?_dropWhile_not Text.isBlank s
    rw [show (s.dropWhile Text.isBlank).head? = some c from first] at stop
    simpa using stop
  have taken : take? [.blanks] (Text.indent s ++ Text.trimStart s) =
      some ([Text.indent s], Text.trimStart s) := take?_cons_of_fits fits stops
  rwa [Text.indent_append_trimStart] at taken

section Remark

variable (front : Pattern) {last : Piece} (bare : last.Bare)
include bare

theorem endsBare_of_takes {texts : List (List Char)} {rest : List Char}
    (takes : Pattern.Takes (front ++ [last]) texts rest) : Text.EndsBare texts.flatten := by
  induction front generalizing texts with
  | nil =>
    obtain _ | ⟨fits, -, _ | _⟩ := takes
    simpa using bare.ends _ fits
  | cons piece front ih =>
    obtain _ | ⟨-, -, takes⟩ := takes
    exact (ih takes).append _

/-- A pattern that never takes a slash, and ends in no blank, takes the same before a remark. -/
theorem take?_remark (avoids : List.all (front ++ [last]) (Piece.avoids '/') = true) (s : List Char)
    (remark : Text.Remark) :
    take? (front ++ [last]) (s ++ remark.text) =
      (take? (front ++ [last]) s).map fun (texts, rest) => (texts, rest ++ remark.text) := by
  have nonempty (text : List Char) (fits : last.Fits text) : text ≠ [] := by
    obtain ⟨before, c, rfl, -⟩ := bare.ends text fits
    simp
  obtain ⟨c, later, first, blank⟩ := remark.exists_first
  cases taken : take? (front ++ [last]) s with
  | some match' =>
    obtain ⟨texts, rest⟩ := match'
    obtain ⟨rfl, takes⟩ := take?_eq_some_iff.mp taken
    have goesOn := takes.append nonempty (first ▸ bare.stops c later blank)
    rw [List.append_assoc]
    exact take?_of_takes goesOn
  | none =>
    rw [Option.map_none, Option.eq_none_iff_forall_ne_some]
    rintro ⟨texts, rest⟩ taken'
    obtain ⟨same, takes⟩ := take?_eq_some_iff.mp taken'
    obtain ⟨between, rfl, rfl⟩ :=
      remark.prefix_of_bare same (endsBare_of_takes front bare takes) (not_mem_of_avoids avoids takes)
    rw [take?_of_takes takes.of_append] at taken
    cases taken

end Remark

end Pattern

namespace Shape

section Remark

variable (line : List Char) (remark : Text.Remark)

theorem openCall_remark : openCall.take? (line ++ remark.text) =
    (openCall.take? line).map fun (texts, rest) => (texts, rest ++ remark.text) :=
  Pattern.take?_remark [.name, .blanks] (Piece.bare_literal rfl) (by decide) line remark

theorem plainHead?_remark : plainHead? (line ++ remark.text) = plainHead? line := by
  have taken : plainHead.take? (line ++ remark.text) =
      (plainHead.take? line).map fun (texts, rest) => (texts, rest ++ remark.text) :=
    Pattern.take?_remark [containerName, .blanks] (Piece.bare_literal rfl) (by decide) line remark
  rw [plainHead?, plainHead?, taken]
  rcases plainHead.take? line with _ | ⟨_ | ⟨name, _ | ⟨gap, _ | ⟨brace, _ | _⟩⟩⟩, rest⟩ <;> rfl

theorem implementingHead?_remark : implementingHead? (line ++ remark.text) = implementingHead? line := by
  have taken : implementingHead.take? (line ++ remark.text) =
      (implementingHead.take? line).map fun (texts, rest) => (texts, rest ++ remark.text) :=
    Pattern.take?_remark [containerName, .blanks, .literal [':'], .blanks,
      .word Char.isUpper (fun _ => false), .some1 isClauseChar] (Piece.bare_literal rfl) (by decide) line
      remark
  rw [implementingHead?, implementingHead?, taken]
  rcases implementingHead.take? line with _ | ⟨_ | ⟨name, _ | ⟨gap, _ | ⟨colon, _ | ⟨gap', _ |
    ⟨capital, _ | ⟨clause, _ | ⟨brace, _ | _⟩⟩⟩⟩⟩⟩⟩, rest⟩ <;> rfl

/-- The head of a container is read in front of a remark. -/
theorem containerHead?_remark : containerHead? (line ++ remark.text) = containerHead? line := by
  rw [containerHead?, containerHead?, plainHead?_remark, implementingHead?_remark]

/-- A field is read in front of a remark, unless the remark has an opening parenthesis. -/
theorem field?_remark (spared : '(' ∈ remark.note → field? line = none) :
    field? (line ++ remark.text) = field? line := by
  have taken : fieldHead.take? (line ++ remark.text) =
      (fieldHead.take? line).map fun (texts, rest) => (texts, rest ++ remark.text) :=
    Pattern.take?_remark [.name, .blanks, .literal [':'], .blanks]
      (Piece.bare_some1 fun _ => isBlank_of_isTypeChar) (by decide) line remark
  by_cases called : '(' ∈ line ++ remark.text
  · have refused : field? (line ++ remark.text) = none := by
      rw [field?, if_pos (List.contains_iff_mem.mpr called)]
    rw [refused]
    rw [List.mem_append, remark.mem_text_iff rfl (by decide)] at called
    rcases called with inLine | inNote
    · rw [field?, if_pos (List.contains_iff_mem.mpr inLine)]
    · exact (spared inNote).symm
  · have called' : '(' ∉ line := fun inLine => called (List.mem_append_left _ inLine)
    rw [field?, field?, if_neg (mt List.contains_iff_mem.mp called),
      if_neg (mt List.contains_iff_mem.mp called'), taken]
    rcases fieldHead.take? line with _ | ⟨_ | ⟨name, _ | ⟨gap, _ | ⟨colon, _ | ⟨gap', _ |
      ⟨type, _ | _⟩⟩⟩⟩⟩, rest⟩ <;> rfl

theorem body?_remark {s : List Char} (nonempty : s ≠ []) (column : Nat) :
    body? column (s ++ remark.text) = body? column s := by
  obtain ⟨c, later, first, blank⟩ := remark.exists_first
  have other : c ≠ '>' := Lexical.ne_of_class blank rfl
  rcases s with _ | ⟨a, _ | ⟨b, s⟩⟩
  · exact absurd rfl nonempty
  · rw [first]
    by_cases arrow : a = '='
    · subst arrow
      simp [body?, other]
    · by_cases brace : a = '\x7b'
      · subst brace
        rfl
      · simp [body?, arrow, brace]
  · by_cases arrow : a = '='
    · subst arrow
      by_cases second : b = '>'
      · subst second
        rfl
      · simp [body?, second]
    · by_cases brace : a = '\x7b'
      · subst brace
        rfl
      · simp [body?, arrow, brace]

/-- A declared result type without the blanks behind it. -/
def resultHead : Pattern := [.literal [':'], .blanks, .some1 isTypeChar]

theorem resultType_take?_resultHead (s : List Char) :
    resultType.take? s = (resultHead.take? s).map fun (texts, rest) =>
      (texts ++ [Text.indent rest], Text.trimStart rest) := by
  rw [show resultType = resultHead ++ [.blanks] from rfl, Pattern.take?_parts]
  cases resultHead.take? s with
  | none => rfl
  | some match' =>
    rw [Option.bind_some]
    dsimp only
    rw [Pattern.take?_blanks]
    rfl

theorem resultAndBody?_remark {s : List Char} (nonempty : s ≠ []) (column : Nat) :
    resultAndBody? column (s ++ remark.text) = resultAndBody? column s := by
  have taken : resultHead.take? (s ++ remark.text) =
      (resultHead.take? s).map fun (texts, rest) => (texts, rest ++ remark.text) :=
    Pattern.take?_remark [.literal [':'], .blanks] (Piece.bare_some1 fun _ => isBlank_of_isTypeChar)
      (by decide) s remark
  rw [resultAndBody?, resultAndBody?, resultType_take?_resultHead, resultType_take?_resultHead, taken]
  cases parts : resultHead.take? s with
  | none => exact congrArg (Option.map _) (body?_remark remark nonempty column)
  | some match' =>
    obtain ⟨texts, rest⟩ := match'
    obtain ⟨colon, gap, type, rfl⟩ := List.length_eq_three.mp (Pattern.length_of_take? parts)
    rcases remark.trimStart_cases rest with ⟨empty, slashes⟩ | ⟨more, gap', later⟩
    · simp [empty, slashes, body?]
    · simp [gap', later, body?_remark remark more]

/-- Parameters with the parenthesis that closes them and the blanks behind it. -/
def closing : Pattern := [.run (· != ')'), .literal [')'], .blanks]

theorem closing_take? {parameters : List Char} (inside : ')' ∉ parameters) (s : List Char) :
    closing.take? (parameters ++ ')' :: s) =
      some ([parameters, [')'], Text.indent s], Text.trimStart s) := by
  have stops : (Piece.run (· != ')')).Stops (')' :: s) := Piece.run_stops (by simp)
  have closes : Pattern.take? [.literal [')'], .blanks] ([')'] ++ s) =
      some ([[')'], Text.indent s], Text.trimStart s) := by
    rw [Pattern.take?_cons_of_fits (show (Piece.literal [')']).Fits [')'] from rfl) trivial,
      Pattern.take?_blanks]
    rfl
  rw [closing, Pattern.take?_cons_of_fits (Piece.run_ne_fits_iff.mpr inside) stops,
    show ')' :: s = [')'] ++ s from rfl, closes]
  rfl

theorem closing_take?_of_not_mem {s : List Char} (absent : ')' ∉ s) : closing.take? s = none := by
  rw [Option.eq_none_iff_forall_ne_some]
  rintro ⟨texts, rest⟩ taken
  obtain ⟨rfl, takes⟩ := Pattern.take?_eq_some_iff.mp taken
  obtain _ | ⟨-, -, _ | ⟨closes, -, -⟩⟩ := takes
  obtain rfl := closes
  simp at absent

theorem heading_take?_parts (s : List Char) :
    heading.take? s = (openCall.take? s).bind fun (texts, rest) =>
      (closing.take? rest).map fun (texts', rest') => (texts ++ texts', rest') :=
  Pattern.take?_parts openCall closing s

section OpenCall

variable {line remark}
variable {name gap opening rest : List Char} (opens : openCall.take? line = some ([name, gap, opening], rest))
include opens

/-- A word that opens control flow calls nothing. -/
theorem callable?_of_control (control : opensControlFlow (String.ofList name) = true) :
    callable? line = none := by
  rw [callable?, heading_take?_parts, opens, Option.bind_some]
  dsimp only
  cases closes : closing.take? rest with
  | none => rfl
  | some match' =>
    obtain ⟨texts, rest'⟩ := match'
    obtain ⟨parameters, mark, gap', rfl⟩ := List.length_eq_three.mp (Pattern.length_of_take? closes)
    exact if_pos control

theorem callable?_of_unclosed (absent : ')' ∉ rest) : callable? line = none := by
  rw [callable?, heading_take?_parts, opens, Option.bind_some]
  dsimp only
  rw [closing_take?_of_not_mem absent]
  rfl

/-- A call that stays open is a wrapped head, unless its name opens control flow. -/
theorem control_of_not_wrapped (oneLine : '\n' ∉ line) (absent : ')' ∉ line)
    (refused : wrapped? line = none) : opensControlFlow (String.ofList name) = true := by
  have whole := Pattern.take?_append opens
  have inside : '\n' ∉ rest := fun newline => oneLine (whole ▸ List.mem_append_right _ newline)
  by_contra control
  rw [wrapped?, if_neg (mt List.contains_iff_mem.mp absent), opens] at refused
  simp [inside, control] at refused

theorem openCall_take?_append (more : List Char) :
    openCall.take? (line ++ more) = some ([name, gap, opening], rest ++ more) := by
  obtain ⟨whole, takes⟩ := Pattern.take?_eq_some_iff.mp opens
  have nonempty (text : List Char) (fits : (Piece.literal ['(']).Fits text) : text ≠ [] := by
    rintro rfl
    cases fits
  have front : Pattern.Takes ([.name, .blanks] ++ [.literal ['(']]) [name, gap, opening] (rest ++ more) :=
    takes.append nonempty trivial
  rw [whole, List.append_assoc]
  exact Pattern.take?_of_takes front

theorem closing_iff : ')' ∈ line ↔ ')' ∈ rest := by
  obtain ⟨whole, takes⟩ := Pattern.take?_eq_some_iff.mp opens
  have before := Pattern.not_mem_of_avoids (c := ')') (by decide) takes
  rw [whole, List.mem_append, or_iff_right before]

end OpenCall

/-- A callable is read in front of a remark, unless its parameters could close in the remark. -/
theorem callable?_remark (oneLine : '\n' ∉ line) (spared : ')' ∈ remark.note → wrapped? line = none) :
    callable? (line ++ remark.text) = callable? line := by
  cases opens : openCall.take? line with
  | none =>
    have opens' : openCall.take? (line ++ remark.text) = none := by rw [openCall_remark, opens]; rfl
    rw [callable?, callable?, heading_take?_parts, heading_take?_parts, opens, opens']
  | some match' =>
    obtain ⟨texts, rest⟩ := match'
    obtain ⟨name, gap, opening, rfl⟩ := List.length_eq_three.mp (Pattern.length_of_take? opens)
    have opens' : openCall.take? (line ++ remark.text) =
        some ([name, gap, opening], rest ++ remark.text) := by rw [openCall_remark, opens]; rfl
    by_cases inside : ')' ∈ rest
    · obtain ⟨parameters, s, rfl, absent⟩ := List.eq_append_cons_of_mem inside
      rw [List.append_assoc, List.cons_append] at opens'
      rw [callable?, callable?, heading_take?_parts, heading_take?_parts, opens, opens',
        Option.bind_some, Option.bind_some]
      dsimp only
      rw [closing_take? absent, closing_take? absent]
      rcases remark.trimStart_cases s with ⟨empty, slashes⟩ | ⟨more, gap', later⟩
      · simp [empty, slashes, resultAndBody?, resultType, Pattern.take?, Piece.take?, Text.startsWith,
          Text.afterPrefix?, body?]
      · simp [gap', later, resultAndBody?_remark remark more]
    · rw [callable?_of_unclosed opens inside]
      by_cases inNote : ')' ∈ remark.note
      · have control := control_of_not_wrapped opens oneLine (mt (closing_iff opens).mp inside) (spared inNote)
        exact callable?_of_control opens' control
      · refine callable?_of_unclosed opens' ?_
        rw [List.mem_append, remark.mem_text_iff rfl (by decide)]
        exact fun either => either.elim inside inNote

/-- What is no wrapped head in front of a remark is none with it. -/
theorem wrapped?_remark (oneLine : '\n' ∉ line) (refused : wrapped? line = none) :
    wrapped? (line ++ remark.text) = none := by
  by_cases closes : ')' ∈ line ++ remark.text
  · rw [wrapped?, if_pos (List.contains_iff_mem.mpr closes)]
  · rw [wrapped?, if_neg (mt List.contains_iff_mem.mp closes), openCall_remark]
    cases opens : openCall.take? line with
    | none => rfl
    | some match' =>
      obtain ⟨texts, rest⟩ := match'
      obtain ⟨name, gap, opening, rfl⟩ := List.length_eq_three.mp (Pattern.length_of_take? opens)
      have absent : ')' ∉ line := fun inLine => closes (List.mem_append_left _ inLine)
      simp [control_of_not_wrapped opens oneLine absent refused]

/-- No result type has a slash. -/
theorem lastResult?_of_slash {s : List Char} (slash : '/' ∈ s) : lastResult? s = none := by
  cases reads : lastResult? s with
  | none => rfl
  | some result =>
    rw [← Text.indent_append_trimStart s, List.mem_append] at slash
    have inText : '/' ∈ Text.trimStart s :=
      slash.resolve_left fun inGap => by cases Text.blanks_indent s _ inGap
    unfold lastResult? at reads
    split at reads
    · rename_i empty
      rw [empty] at inText
      cases inText
    · rename_i rest starts
      rw [starts] at inText
      have inRest : '/' ∈ rest := (List.mem_cons.mp inText).resolve_left (by decide)
      rw [← Text.indent_append_trimStart rest, List.mem_append] at inRest
      have inType : '/' ∈ Text.trimStart rest :=
        inRest.resolve_left fun inGap => by cases Text.blanks_indent rest _ inGap
      dsimp only at reads
      split at reads
      · cases reads
      · rename_i plain
        rw [Bool.not_eq_true, Bool.or_eq_false_iff, Bool.not_eq_false', List.all_eq_true] at plain
        cases plain.2 _ inType
    · cases reads

/-- Whatever stands before it, a parenthesis at the end of a line closes parameters. -/
theorem parametersAndResult?_closed {s : List Char} (oneLine : '\n' ∉ s) :
    (parametersAndResult? (s ++ [')'])).isSome = true := by
  induction s with
  | nil => rfl
  | cons c s ih =>
    obtain ⟨other, later⟩ := List.ne_and_not_mem_of_not_mem_cons oneLine
    rw [List.cons_append]
    by_cases closes : c = ')'
    · subst closes
      rw [parametersAndResult?]
      split
      · rfl
      · rw [Option.isSome_map]
        exact ih later
    · rw [parametersAndResult?, Option.isSome_map]
      · exact ih later
      · exact closes
      · exact Ne.symm other

/-- A line with a remark is no signature line, unless its parameters could close in the remark. -/
theorem signature?_remark (oneLine : '\n' ∉ line)
    (spared : ')' ∈ remark.note → signature? (line ++ [')']) = none) :
    signature? (line ++ remark.text) = none := by
  by_cases refused :
      (Text.occursIn ['=', '>'] (line ++ remark.text) || (line ++ remark.text).contains '\x7b') = true
  · rw [signature?, if_pos refused]
  · rw [signature?, if_neg refused, openCall_remark]
    cases opens : openCall.take? line with
    | none => rfl
    | some match' =>
      obtain ⟨texts, rest⟩ := match'
      obtain ⟨name, gap, opening, rfl⟩ := List.length_eq_three.mp (Pattern.length_of_take? opens)
      have whole := Pattern.take?_append opens
      have single : '\n' ∉ rest := fun newline => oneLine (whole ▸ List.mem_append_right _ newline)
      rw [Option.map_some]
      dsimp only
      split
      · rfl
      · rename_i plain
        rw [Option.map_eq_none_iff, Option.eq_none_iff_forall_ne_some]
        rintro ⟨parameters, result⟩ reads
        obtain ⟨behind, cut, last⟩ := parametersAndResult?_some reads
        by_cases inNote : ')' ∈ remark.note
        · have closed := spared inNote
          have arrowless : Text.occursIn ['=', '>'] (line ++ [')']) = false := by
            refine Text.occursIn_pair_append ?_ rfl (by decide) (by decide)
            rw [← Bool.not_eq_true]
            exact fun arrow => refused (by rw [Text.occursIn_append_left arrow]; rfl)
          have braceless : '\x7b' ∉ line ++ [')'] := by
            intro brace
            have inLine : '\x7b' ∈ line := by simpa using brace
            exact refused (by rw [List.contains_iff_mem.mpr (List.mem_append_left _ inLine), Bool.or_true])
          rw [signature?, arrowless, Bool.false_or, if_neg (mt List.contains_iff_mem.mp braceless),
            openCall_take?_append opens [')']] at closed
          dsimp only at closed
          rw [if_neg plain, Option.map_eq_none_iff] at closed
          have closes := parametersAndResult?_closed single
          rw [closed] at closes
          cases closes
        · have absent : ')' ∉ remark.text := mt (remark.mem_text_iff rfl (by decide)).mp inNote
          have slash : '/' ∈ behind := by
            rcases List.append_eq_append_iff.mp cut with ⟨more, -, note⟩ | ⟨more, -, note⟩
            · exact absurd (note ▸ List.mem_append_right more List.mem_cons_self) absent
            · rcases List.cons_eq_append_iff.mp note with ⟨-, note⟩ | ⟨more, -, note⟩
              · exact absurd (note ▸ List.mem_cons_self) absent
              · exact note ▸ List.mem_append_right more remark.slash_mem
          rw [lastResult?_of_slash slash] at last
          cases last

theorem constantValue?_isSome {s : List Char} (nonempty : s ≠ []) (oneLine : '\n' ∉ s) :
    (constantValue? s).isSome = true := by
  unfold constantValue?
  split
  · rw [List.getLast?_eq_some_getLast nonempty]
    dsimp only
    rw [if_neg fun (newline : s.getLast nonempty = '\n') => oneLine (newline ▸ List.getLast_mem nonempty)]
    rfl
  · have single : '\n' ∉ Text.trimStart s :=
      fun newline => oneLine ((List.dropWhile_suffix _).mem newline)
    rw [if_neg (mt List.contains_iff_mem.mp single)]
    rfl

/-- A constant with a value is read in front of a remark, which is taken for a part of the value. -/
theorem constant?_remark (oneLine : '\n' ∉ line)
    (valued : ∀ texts, constantHead.take? line ≠ some (texts, [])) :
    Option.Rel (fun c c' => c'.name = c.name ∧ c'.nameAt = c.nameAt) (constant? line)
      (constant? (line ++ remark.text)) := by
  have taken' : constantHead.take? (line ++ remark.text) =
      (constantHead.take? line).map fun (texts, rest) => (texts, rest ++ remark.text) :=
    Pattern.take?_remark [.literal ['c', 'o', 'n', 's', 't'], .some1 Text.isBlank, constantName, .blanks]
      (Piece.bare_literal rfl) (by decide) line remark
  rw [constant?, constant?, taken']
  cases taken : constantHead.take? line with
  | none => exact .none
  | some match' =>
    obtain ⟨texts, rest⟩ := match'
    obtain ⟨whole, takes⟩ := Pattern.take?_eq_some_iff.mp taken
    obtain _ | ⟨-, -, _ | ⟨-, -, _ | ⟨-, -, _ | ⟨-, -, _ | ⟨-, -, _ | _⟩⟩⟩⟩⟩ := takes
    have nonempty : rest ≠ [] := by
      rintro rfl
      exact valued _ taken
    have single : '\n' ∉ rest := fun newline => oneLine (whole ▸ List.mem_append_right _ newline)
    have single' : '\n' ∉ rest ++ remark.text := by
      rw [List.mem_append, not_or]
      exact ⟨single, remark.newline_not_mem⟩
    obtain ⟨value, reads⟩ := Option.isSome_iff_exists.mp (constantValue?_isSome nonempty single)
    obtain ⟨value', reads'⟩ := Option.isSome_iff_exists.mp
      (constantValue?_isSome (List.append_ne_nil_of_left_ne_nil nonempty remark.text) single')
    rw [Option.map_some]
    dsimp only
    rw [reads, reads']
    exact .some ⟨rfl, rfl⟩

end Remark

end Shape

end SymbolIndex
