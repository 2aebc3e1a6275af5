import SymbolIndex.Call
import SymbolIndex.Diagnostic
import SymbolIndex.Outline
import SymbolIndex.Proofs.Declarations
import SymbolIndex.Proofs.Definitions

/-! Which terminator ends the lines of a document plays no part. A carriage return before a newline is
cut off with it, so lines have the same characters; it is blank, so patterns that run over lines take
it where they take the newline; and it leaves nothing behind the newline, so a block is closed by the
same brace. -/
namespace SymbolIndex

open Document

namespace Text

/-- The text with a carriage return before every newline. -/
def withReturns (s : List Char) : List Char :=
  s.flatMap fun c => if c = '\n' then ['\r', '\n'] else [c]

theorem withReturns_newline (s : List Char) :
    withReturns ('\n' :: s) = '\r' :: '\n' :: withReturns s := rfl

theorem withReturns_cons {c : Char} (other : c ≠ '\n') (s : List Char) :
    withReturns (c :: s) = c :: withReturns s := by
  simp [withReturns, other]

theorem withReturns_append (a b : List Char) :
    withReturns (a ++ b) = withReturns a ++ withReturns b :=
  List.flatMap_append

theorem withReturns_of_one_line {s : List Char} (oneLine : '\n' ∉ s) : withReturns s = s := by
  induction s with
  | nil => rfl
  | cons c s ih =>
    obtain ⟨other, later⟩ := List.ne_and_not_mem_of_not_mem_cons oneLine
    rw [withReturns_cons (Ne.symm other), ih later]

theorem count_withReturns (s : List Char) : (withReturns s).count '\n' = s.count '\n' := by
  induction s with
  | nil => rfl
  | cons c s ih =>
    by_cases newline : c = '\n'
    · subst newline
      rw [withReturns_newline, List.count_cons_of_ne (by decide), List.count_cons_self, ih,
        List.count_cons_self]
    · rw [withReturns_cons newline, List.count_cons, List.count_cons, ih]

/-- What follows the first characters of a line is the same but for the returns. -/
theorem drop_withReturns {a : List Char} (oneLine : '\n' ∉ a) (b : List Char) :
    (withReturns (a ++ b)).drop a.length = withReturns b := by
  rw [withReturns_append, withReturns_of_one_line oneLine, List.drop_left]

end Text

/-- A return before a newline takes up no column that is left behind the newline. -/
theorem Position.after_withReturns (p : Position) (s : List Char) :
    p.after (Text.withReturns s) = p.after s := by
  induction s generalizing p with
  | nil => rfl
  | cons c s ih =>
    by_cases newline : c = '\n'
    · subst newline
      exact ih _
    · rw [Text.withReturns_cons newline]
      exact ih _

namespace Lexical

/-- Returns before newlines change neither what a text counts for nor the context that it leaves. -/
theorem scan_withReturns {context : Lexical} (marked : context.Marked) (s : List Char) :
    (context.scan (Text.withReturns s)).2 = (context.scan s).2 ∧
      context.after (Text.withReturns s) = context.after s := by
  induction s generalizing context with
  | nil => exact ⟨rfl, rfl⟩
  | cons c s ih =>
    obtain ⟨counts, leaves⟩ := ih (marked.next c)
    by_cases newline : c = '\n'
    · subst newline
      rw [Text.withReturns_newline, scan_cons_blank _ rfl, scan_cons_blank _ rfl, scan_cons_blank _ rfl,
        after_cons, after_cons, after_cons, marked.blank_next_newline rfl]
      exact ⟨counts, leaves⟩
    · rw [Text.withReturns_cons newline, scan_cons, scan_cons, after_cons, after_cons, counts, leaves]
      exact ⟨rfl, rfl⟩

/-- Returns before newlines do not close a block. -/
theorem closing?_withReturns {context : Lexical} (marked : context.Marked) {depth : Int}
    {index : Nat} {s : List Char} (stays : closing? context depth index s = none) (index' : Nat) :
    closing? context depth index' (Text.withReturns s) = none := by
  induction s generalizing context depth index index' with
  | nil => rfl
  | cons c s ih =>
    by_cases newline : c = '\n'
    · subst newline
      rw [closing?_cons_blank _ _ _ rfl] at stays
      rw [Text.withReturns_newline, closing?_cons_blank _ _ _ rfl, closing?_cons_blank _ _ _ rfl,
        marked.blank_next_newline rfl]
      exact ih (marked.next '\n') stays _
    · rw [closing?] at stays
      split at stays
      · cases stays
      · rename_i remains
        rw [Text.withReturns_cons newline, closing?, if_neg remains]
        exact ih (marked.next c) stays _

end Lexical

/-- A block is closed by the same brace. -/
theorem closingBrace?_withReturns (s : List Char) :
    (closingBrace? (Text.withReturns s)).map (fun index => (Text.withReturns s).take (index + 1)) =
      (closingBrace? s).map fun index => Text.withReturns (s.take (index + 1)) := by
  have marked : Lexical.start.Marked := trivial
  cases closes : closingBrace? s with
  | none =>
    have stays : closingBrace? (Text.withReturns s) = none := Lexical.closing?_withReturns marked closes 0
    rw [stays]
    rfl
  | some found =>
    obtain ⟨u, v, rfl, place, before, ⟨tail, inCode⟩, level⟩ := Lexical.closing?_some closes
    rw [Nat.zero_add] at place
    subst place
    obtain ⟨counts, leaves⟩ := Lexical.scan_withReturns marked u
    have text : Text.withReturns (u ++ '\x7d' :: v) =
        Text.withReturns u ++ '\x7d' :: Text.withReturns v := by
      rw [Text.withReturns_append, Text.withReturns_cons (by decide)]
    have found : closingBrace? (Text.withReturns (u ++ '\x7d' :: v)) =
        some (0 + (Text.withReturns u).length) := by
      rw [text]
      exact Lexical.closing?_brace (Lexical.closing?_withReturns marked before 0)
        (leaves.trans inCode) (by rw [counts]; exact level) _
    rw [found, text, Nat.zero_add, Option.map_some, Option.map_some, List.take_length_add_append,
      List.take_length_add_append, Text.withReturns_append]
    rfl

namespace Line

/-- The same line of a document with returns. -/
def withReturns (l : Line) : Line := { l with onward := Text.withReturns l.onward }

/-- A block that opens on the line is the same but for the returns in it. -/
theorem block_withReturns {d : Document} {l : Line} (member : l ∈ d.lines) {lead rest : List Char}
    (trimmed : l.trimmed = lead ++ rest) :
    l.withReturns.block lead.length = Text.withReturns (l.block lead.length) := by
  obtain ⟨tail, -, onward⟩ := upTo_column member trimmed
  have width : l.indent + lead.length = (Text.indent l.content ++ lead).length :=
    List.length_append.symm
  have oneLine : '\n' ∉ Text.indent l.content ++ lead := by
    obtain ⟨-, -, single⟩ := content_append member
    obtain ⟨blanks, whole, -⟩ := Text.exists_trim_append l.content
    rw [show Text.trim l.content = lead ++ rest from trimmed] at whole
    intro newline
    apply single
    rw [whole, ← List.append_assoc]
    exact List.mem_append_left _ (List.mem_append_left _ newline)
  have below : l.onward.drop (l.indent + lead.length) = rest ++ tail := by
    rw [onward, width, List.drop_left]
  have below' : l.withReturns.onward.drop (l.withReturns.indent + lead.length) =
      Text.withReturns (rest ++ tail) := by
    show (Text.withReturns l.onward).drop (l.indent + lead.length) = _
    rw [onward, width, Text.drop_withReturns oneLine]
  have closes := closingBrace?_withReturns (rest ++ tail)
  rw [block, block, below, below']
  cases found : closingBrace? (rest ++ tail) with
  | none =>
    rw [found, Option.map_none, Option.map_eq_none_iff] at closes
    rw [closes]
  | some index =>
    rw [found, Option.map_some] at closes
    obtain ⟨index', found', taken⟩ := Option.map_eq_some_iff.mp closes
    rw [found']
    exact taken

theorem blockStop_withReturns {d : Document} {l : Line} (member : l ∈ d.lines) {kind : Kind}
    {braceAt : Nat} (body : l.bodyBrace? kind = some braceAt) :
    l.withReturns.blockStop braceAt = l.blockStop braceAt := by
  obtain ⟨lead, rest, trimmed, rfl⟩ := brace_of_bodyBrace? body
  have after := Position.after_withReturns ⟨l.number, l.indent + lead.length⟩ (l.block lead.length)
  rw [← block_withReturns member trimmed] at after
  exact after

/-- With returns a line declares the same, at the same place. -/
theorem withReturns_matches {d : Document} {l : Line} (member : l ∈ d.lines) :
    l.Matches (fun _ site site' => True → site' = id site) l.withReturns := by
  apply matches_of_bodies
  · rfl
  · rfl
  · exact fun _ _ _ _ => rfl
  · intro kind braceAt name body _
    exact congrArg (l.site 0 name) (blockStop_withReturns member body)

end Line

namespace Document

/-- The document with a carriage return before every newline. -/
def withReturns (d : Document) : Document := ⟨Text.withReturns d.chars⟩

theorem linesFrom_withReturns (number : Nat) {s : List Char} (free : '\r' ∉ s) :
    linesFrom number (Text.withReturns s) = (linesFrom number s).map Line.withReturns := by
  have kept {raw : List Char} (free : '\r' ∉ raw) : chomp raw = raw := by
    rw [chomp, if_neg]
    exact fun last => free (List.mem_of_getLast? last)
  induction s using lineInduction generalizing number with
  | last raw oneLine =>
    rw [Text.withReturns_of_one_line oneLine, linesFrom_of_one_line oneLine, List.map_singleton]
    simp [lineOf, Line.withReturns, Text.withReturns_of_one_line oneLine]
  | line raw s oneLine ih =>
    have text : Text.withReturns (raw ++ '\n' :: s) = (raw ++ ['\r']) ++ '\n' :: Text.withReturns s := by
      rw [Text.withReturns_append, Text.withReturns_of_one_line oneLine, Text.withReturns_newline,
        List.append_assoc]
      rfl
    have single : '\n' ∉ raw ++ ['\r'] := by simpa using oneLine
    have freeRaw : '\r' ∉ raw := fun inside => free (List.mem_append_left _ inside)
    have freeLater : '\r' ∉ s := fun inside =>
      free (List.mem_append_right _ (List.mem_cons_of_mem _ inside))
    have ended : chomp (raw ++ ['\r']) = raw := by simp [chomp]
    rw [text, linesFrom_line_append single, linesFrom_line_append oneLine, List.map_cons,
      ih (number + 1) freeLater]
    simp [lineOf, Line.withReturns, ended, kept freeRaw, Text.withReturns_append,
      Text.withReturns_of_one_line oneLine, Text.withReturns_newline]

theorem lines_withReturns {d : Document} (free : '\r' ∉ d.chars) :
    d.withReturns.lines = d.lines.map Line.withReturns := by
  rw [lines_eq_linesFrom, lines_eq_linesFrom]
  exact linesFrom_withReturns 0 free

theorem model_withReturns {d : Document} (free : '\r' ∉ d.chars) :
    Model.ofDocument d.withReturns = Model.ofDocument d := by
  have lines : List.Forall₂ (Line.Matches fun _ site site' => True → site' = id site) d.lines
      d.withReturns.lines := by
    rw [lines_withReturns free, List.forall₂_map_right_iff, List.forall₂_same]
    exact fun l member => Line.withReturns_matches member
  obtain ⟨-, symbols⟩ :=
    Reading.symbols_match (r := .start) (Reading.Matches.refl_of_free rfl) lines
  have same := eq_map_mapSites_of_matches symbols fun _ _ => ⟨trivial, fun _ _ => trivial⟩
  have still : Symbol.mapSites id = id := funext Symbol.mapSites_id
  rw [still, List.map_id] at same
  exact congrArg Model.mk same

end Document

namespace Text

theorem flatten_withReturns (texts : List (List Char)) :
    (texts.map withReturns).flatten = withReturns texts.flatten := by
  induction texts with
  | nil => rfl
  | cons text texts ih =>
    rw [List.map_cons, List.flatten_cons, List.flatten_cons, ih, withReturns_append]

theorem takeWhile_withReturns {p : Char → Bool} (alike : p '\r' = p '\n') (s : List Char) :
    (withReturns s).takeWhile p = withReturns (s.takeWhile p) := by
  induction s with
  | nil => rfl
  | cons c s ih =>
    by_cases newline : c = '\n'
    · subst newline
      rw [withReturns_newline]
      cases takes : p '\n' with
      | true =>
        rw [List.takeWhile_cons_of_pos (alike.trans takes), List.takeWhile_cons_of_pos takes,
          List.takeWhile_cons_of_pos takes, ih, withReturns_newline]
      | false =>
        have stops : ¬ p '\r' = true := by simp [alike, takes]
        have stops' : ¬ p '\n' = true := by simp [takes]
        rw [List.takeWhile_cons_of_neg stops, List.takeWhile_cons_of_neg stops']
        rfl
    · rw [withReturns_cons newline]
      by_cases takes : p c = true
      · rw [List.takeWhile_cons_of_pos takes, List.takeWhile_cons_of_pos takes, ih,
          withReturns_cons newline]
      · rw [List.takeWhile_cons_of_neg takes, List.takeWhile_cons_of_neg takes]
        rfl

/-- A text of one line that has no return is found where it was. -/
theorem afterPrefix?_withReturns {start : List Char} (oneLine : '\n' ∉ start) (free : '\r' ∉ start)
    (s : List Char) : afterPrefix? start (withReturns s) = (afterPrefix? start s).map withReturns := by
  induction start generalizing s with
  | nil => rfl
  | cons a start ih =>
    obtain ⟨notNewline, oneLine⟩ := List.ne_and_not_mem_of_not_mem_cons oneLine
    obtain ⟨notReturn, free⟩ := List.ne_and_not_mem_of_not_mem_cons free
    cases s with
    | nil => rfl
    | cons c s =>
      by_cases newline : c = '\n'
      · subst newline
        simp [withReturns_newline, afterPrefix?, Ne.symm notNewline, Ne.symm notReturn]
      · rw [withReturns_cons newline, afterPrefix?, afterPrefix?, ih oneLine free]
        split <;> rfl

end Text

namespace Piece

/-- A piece that takes a return just where it takes a newline. -/
def alike : Piece → Bool
  | literal text => !text.contains '\n' && !text.contains '\r'
  | run allowed => allowed '\r' == allowed '\n'
  | word first allowed => !first '\n' && !first '\r' && allowed '\r' == allowed '\n'

theorem take?_withReturns {piece : Piece} (alike : piece.alike = true) (s : List Char) :
    piece.take? (Text.withReturns s) = (piece.take? s).map Text.withReturns := by
  cases piece with
  | literal text =>
    obtain ⟨oneLine, free⟩ : '\n' ∉ text ∧ '\r' ∉ text := by simpa [Piece.alike] using alike
    rw [take?, take?, Text.startsWith, Text.startsWith, Text.afterPrefix?_withReturns oneLine free,
      Option.isSome_map]
    split
    · rw [Option.map_some, Text.withReturns_of_one_line oneLine]
    · rfl
  | run allowed =>
    have same : allowed '\r' = allowed '\n' := by simpa [Piece.alike] using alike
    rw [take?, take?, Text.takeWhile_withReturns same, Option.map_some]
  | word first allowed =>
    obtain ⟨⟨notNewline, notReturn⟩, same⟩ :
        (first '\n' = false ∧ first '\r' = false) ∧ allowed '\r' = allowed '\n' := by
      simpa [Piece.alike] using alike
    cases s with
    | nil => rfl
    | cons c s =>
      by_cases newline : c = '\n'
      · subst newline
        rw [Text.withReturns_newline, take?, take?, notReturn, notNewline]
        rfl
      · rw [Text.withReturns_cons newline, take?, take?, Text.takeWhile_withReturns same]
        split
        · rw [Option.map_some, Text.withReturns_cons newline]
        · rfl

end Piece

namespace Pattern

/-- The pattern takes what it took, with the returns. -/
def Blind (pattern : Pattern) : Prop := ∀ s, pattern.take? (Text.withReturns s) =
  (pattern.take? s).map fun (texts, rest) => (texts.map Text.withReturns, Text.withReturns rest)

theorem Blind.cons {later : Pattern} (blind : later.Blind) {piece : Piece} (alike : piece.alike = true) :
    Blind (piece :: later) := by
  intro s
  rw [take?, take?, Piece.take?_withReturns alike]
  cases takes : piece.take? s with
  | none => rfl
  | some text =>
    have behind : (Text.withReturns s).drop (Text.withReturns text).length =
        Text.withReturns (s.drop text.length) := by
      have whole := Piece.take?_append takes
      have cut : Text.withReturns s =
          Text.withReturns text ++ Text.withReturns (s.drop text.length) := by
        rw [← Text.withReturns_append, whole]
      rw [cut, List.drop_left]
    rw [Option.map_some]
    dsimp only
    rw [behind, blind, Option.map_map, Option.map_map]
    rfl

theorem blind_of_alike {pattern : Pattern} (alike : pattern.all Piece.alike = true) :
    pattern.Blind := by
  induction pattern with
  | nil => exact fun s => rfl
  | cons piece later ih =>
    rw [List.all_cons, Bool.and_eq_true] at alike
    exact (ih alike.2).cons alike.1

theorem take?_run_mark {allowed : Char → Bool} {text rest : List Char} {c : Char}
    (inside : ∀ d ∈ text, allowed d = true) (stop : allowed c = false) (mark : Char) :
    take? [.run allowed, .literal [mark]] (text ++ c :: rest) =
      if c = mark then some ([text, [mark]], rest) else none := by
  have fits : (Piece.run allowed).Fits text := inside
  rw [take?_cons_of_fits fits (Piece.run_stops stop)]
  by_cases same : c = mark
  · subst same
    simp [take?, Piece.take?, Text.startsWith, Text.afterPrefix?]
  · simp [take?, Piece.take?, Text.startsWith, Text.afterPrefix?, same, Ne.symm same]

/-- A run within a line may take the return at the end of the line, but no mark follows there. -/
theorem blind_run_mark {allowed : Char → Bool} {mark : Char} (within : allowed '\n' = false)
    (oneLine : mark ≠ '\n') (free : mark ≠ '\r') : Blind [.run allowed, .literal [mark]] := by
  intro s
  have inside : ∀ d ∈ s.takeWhile allowed, allowed d = true := fun d => List.mem_takeWhile_imp
  have single : '\n' ∉ s.takeWhile allowed := by
    intro newline
    have never := inside _ newline
    rw [within] at never
    cases never
  have whole : s.takeWhile allowed ++ s.dropWhile allowed = s := List.takeWhile_append_dropWhile
  have ends := List.head?_dropWhile_not allowed s
  generalize s.takeWhile allowed = text at inside single whole
  generalize s.dropWhile allowed = rest at whole ends
  subst whole
  rw [Text.withReturns_append, Text.withReturns_of_one_line single]
  cases rest with
  | nil =>
    have fits : (Piece.run allowed).Fits text := inside
    have stops : (Piece.run allowed).Stops [] := by
      intro c none
      cases none
    rw [Text.withReturns_of_one_line List.not_mem_nil, take?_cons_of_fits fits stops]
    rfl
  | cons c rest =>
    have stop : allowed c = false := ends
    rw [take?_run_mark inside stop]
    by_cases newline : c = '\n'
    · subst newline
      rw [if_neg (Ne.symm oneLine), Option.map_none, Text.withReturns_newline]
      cases takes : allowed '\r' with
      | false => rw [take?_run_mark inside takes, if_neg (Ne.symm free)]
      | true =>
        -- The run takes the return too, and stops at a newline that is no mark either.
        have inside' : ∀ d ∈ text ++ ['\r'], allowed d = true :=
          List.forall_mem_append.mpr ⟨inside, by simpa using takes⟩
        have line : text ++ '\r' :: '\n' :: Text.withReturns rest =
            (text ++ ['\r']) ++ '\n' :: Text.withReturns rest := by simp
        rw [line, take?_run_mark inside' within, if_neg (Ne.symm oneLine)]
    · rw [Text.withReturns_cons newline, take?_run_mark inside stop]
      split
      · have marked : Text.withReturns [mark] = [mark] :=
          Text.withReturns_of_one_line (by simpa using Ne.symm oneLine)
        simp [Text.withReturns_of_one_line single, marked]
      · rfl

end Pattern

namespace Definition

variable {form : Form} {name : List Char}

/-- Every way to declare a name is blind to returns, in front of the name and behind it. -/
theorem blind_of_mem_formsFor (member : form ∈ formsFor name) :
    form.lead.Blind ∧ ∀ tail ∈ form.tails, tail.Blind := by
  have alike : ∀ form ∈ functionForms ++ valueForms, form.lead.all Piece.alike = true ∧
      ∀ tail ∈ form.tails, tail.all Piece.alike = true := by decide +kernel
  unfold formsFor at member
  rcases List.mem_append.mp member with listed | container
  · obtain ⟨lead, tails⟩ := alike form listed
    exact ⟨Pattern.blind_of_alike lead, fun tail isTail => Pattern.blind_of_alike (tails tail isTail)⟩
  · split at container
    · obtain rfl := List.mem_singleton.mp container
      refine ⟨Pattern.blind_of_alike rfl, fun tail isTail => ?_⟩
      simp only [containerForm, List.mem_cons, List.not_mem_nil, or_false] at isTail
      rcases isTail with rfl | rfl
      · exact Pattern.blind_of_alike rfl
      · have clause : Pattern.Blind [.run fun c => c != '\x7b' && c != '\n', brace] :=
          Pattern.blind_run_mark rfl (by decide) (by decide)
        exact (clause.cons rfl).cons rfl
    · cases container

private theorem findSome?_congr {α β : Type} {f g : α → Option β} {entries : List α}
    (same : ∀ a ∈ entries, f a = g a) : entries.findSome? f = entries.findSome? g := by
  induction entries with
  | nil => rfl
  | cons a later ih =>
    obtain ⟨here, others⟩ := List.forall_mem_cons.mp same
    rw [List.findSome?_cons, List.findSome?_cons, here, ih others]

/-- A form matches where it matched, over as many lines. -/
theorem Form.match?_withReturns (member : form ∈ formsFor name) (word : isWord name = true)
    (s : List Char) : form.match? name (Text.withReturns s) = form.match? name s := by
  obtain ⟨leads, tails⟩ := blind_of_mem_formsFor member
  obtain ⟨-, chars⟩ := isWord_iff.mp word
  have oneLine : '\n' ∉ name := fun inside => Bool.noConfusion (chars _ inside)
  have free : '\r' ∉ name := fun inside => Bool.noConfusion (chars _ inside)
  unfold match?
  rw [leads]
  cases taken : form.lead.take? s with
  | none => rfl
  | some split =>
    obtain ⟨lead, rest⟩ := split
    dsimp only [Option.map_some]
    rw [Text.afterPrefix?_withReturns oneLine free]
    cases Text.afterPrefix? name rest with
    | none => rfl
    | some rest =>
      dsimp only [Option.map_some]
      have single : '\n' ∉ lead.flatten :=
        Pattern.not_mem_of_avoids (oneLine_of_mem_formsFor member) (Pattern.takes_of_take? taken)
      have kept : lead.map Text.withReturns = lead := by
        refine (List.map_congr_left fun text inside => ?_).trans (List.map_id lead)
        apply Text.withReturns_of_one_line
        exact fun newline => single (List.mem_flatten.mpr ⟨text, inside, newline⟩)
      rw [kept]
      apply findSome?_congr
      intro tail isTail
      rw [tails tail isTail, Option.map_map]
      cases tail.take? rest with
      | none => rfl
      | some split =>
        obtain ⟨texts, behind⟩ := split
        have breaks : (texts.map Text.withReturns).flatten.count '\n' = texts.flatten.count '\n' := by
          rw [Text.flatten_withReturns, Text.count_withReturns]
        exact congrArg (fun breaks => some (Match.mk (Pattern.width lead) breaks)) breaks

/-- A search over the lines of a document finds the same places in it with returns. -/
theorem Form.matchesIn_withReturns (member : form ∈ formsFor name) (word : isWord name = true)
    (skipped : Nat) (lines : List Line) :
    form.matchesIn name skipped (lines.map Line.withReturns) = form.matchesIn name skipped lines := by
  induction lines generalizing skipped with
  | nil => rfl
  | cons l lines ih =>
    cases skipped with
    | succ skipped => exact ih skipped
    | zero =>
      have same : form.match? name l.withReturns.onward = form.match? name l.onward :=
        match?_withReturns member word l.onward
      rw [List.map_cons, matchesIn, matchesIn, same]
      cases form.match? name l.onward with
      | none => exact ih 0
      | some m => exact congrArg (_ :: ·) (ih m.breaks)

end Definition

namespace Document

variable {d : Document} (free : '\r' ∉ d.chars)
include free

theorem definitions_withReturns (name : List Char) :
    d.withReturns.definitions name = d.definitions name := by
  unfold definitions
  cases word : isWord name with
  | false => rfl
  | true =>
    have found : ∀ form ∈ Definition.formsFor name,
        form.matchesIn name 0 d.withReturns.lines = form.matchesIn name 0 d.lines := by
      intro form member
      rw [lines_withReturns free, Definition.Form.matchesIn_withReturns member word]
    rw [if_pos rfl, if_pos rfl]
    refine List.foldl_ext _ _ _ fun known form member => ?_
    rw [found form member]

theorem references_withReturns (name : List Char) :
    d.withReturns.references name = d.references name := by
  rw [references, references, lines_withReturns free, List.flatMap_map]
  rfl

theorem line?_withReturns (number : Nat) :
    d.withReturns.line? number = (d.line? number).map Line.withReturns := by
  rw [line?, line?, lines_withReturns free, List.getElem?_map]

theorem withoutDeclarations_withReturns (name : List Char) (spans : List Span) :
    d.withReturns.withoutDeclarations name spans = d.withoutDeclarations name spans := by
  refine List.filter_congr fun span _ => ?_
  have line := line?_withReturns free span.start.line
  rw [List.getElem?_toArray, List.getElem?_toArray]
  rw [line?, line?] at line
  rw [line]
  cases d.lines[span.start.line]? <;> rfl

theorem referencesTo_withReturns (name : List Char) (keep : Bool) :
    d.withReturns.referencesTo name keep = d.referencesTo name keep := by
  rw [referencesTo, referencesTo, references_withReturns free, withoutDeclarations_withReturns free]

theorem wordAt?_withReturns (p : Position) : d.withReturns.wordAt? p = d.wordAt? p := by
  rw [wordAt?, wordAt?, line?_withReturns free]
  cases d.line? p.line <;> rfl

theorem callHelp?_withReturns (p : Position) : d.withReturns.callHelp? p = d.callHelp? p := by
  have text : d.withReturns.textBefore? p = d.textBefore? p := by
    rw [textBefore?, textBefore?, line?_withReturns free]
    cases d.line? p.line <;> rfl
  rw [callHelp?, callHelp?, text, model_withReturns free]

end Document

/-- A document and the same document with carriage returns before its newlines have the same model,
outline and diagnostics, and whatever is looked up in them, by name or by position, is found at the
same places. -/
theorem blind_to_terminators (d : Document) (free : '\r' ∉ d.chars) :
    (Model.ofDocument d.withReturns = Model.ofDocument d ∧ d.withReturns.outline = d.outline ∧
      d.withReturns.diagnostics = d.diagnostics) ∧
    (∀ name, d.withReturns.definitions name = d.definitions name ∧
      d.withReturns.references name = d.references name ∧
      ∀ keep, d.withReturns.referencesTo name keep = d.referencesTo name keep) ∧
    ∀ p, d.withReturns.wordAt? p = d.wordAt? p ∧
      d.withReturns.definitionsAt p = d.definitionsAt p ∧
      (∀ keep, d.withReturns.referencesAt p keep = d.referencesAt p keep) ∧
      d.withReturns.callHelp? p = d.callHelp? p := by
  have model := model_withReturns free
  refine ⟨⟨model, ?_, ?_⟩, fun name => ⟨?_, ?_, fun keep => ?_⟩, fun p => ⟨?_, ?_, fun keep => ?_, ?_⟩⟩
  · rw [outline, outline, model]
  · rw [diagnostics, diagnostics, model]
  · exact definitions_withReturns free name
  · exact references_withReturns free name
  · exact referencesTo_withReturns free name keep
  · exact wordAt?_withReturns free p
  · rw [definitionsAt, definitionsAt, wordAt?_withReturns free]
    cases d.wordAt? p with
    | none => rfl
    | some word => exact definitions_withReturns free word.1
  · rw [referencesAt, referencesAt, wordAt?_withReturns free]
    cases d.wordAt? p with
    | none => rfl
    | some word => exact referencesTo_withReturns free word.1 keep
  · exact callHelp?_withReturns free p

/-- A class whose method has a brace in a comment, and a function whose parameters run over two
lines. -/
def crate : Document :=
  .ofString "Crate : Box \x7b\n  lid() \x7b\n    \"\x7b\" // \x7d\n  \x7d\n\x7d\narea(a,\n  b) => a * b\n"

/-- With returns the class of `crate` ends where it did, and so does its missing interface, and the
function is found where it was. -/
theorem blind_to_terminators_of_crate :
    '\r' ∉ crate.chars ∧ '\r' ∈ crate.withReturns.chars ∧
      (Model.ofDocument crate.withReturns).symbols.map (fun s => (s.name, s.site.span)) =
        [("Crate", ⟨⟨0, 0⟩, ⟨4, 1⟩⟩)] ∧
      crate.withReturns.diagnostics.map Diagnostic.span = [⟨⟨0, 0⟩, ⟨0, 13⟩⟩] ∧
      crate.withReturns.definitions "area".toList = [⟨.function, ⟨⟨5, 0⟩, ⟨5, 4⟩⟩⟩] := by
  have free : '\r' ∉ crate.chars := by decide +kernel
  obtain ⟨⟨model, -, diagnostics⟩, names, -⟩ := blind_to_terminators crate free
  rw [model, diagnostics, (names "area".toList).1]
  exact ⟨free, by decide +kernel, by decide +kernel, by decide +kernel, by decide +kernel⟩

end SymbolIndex
