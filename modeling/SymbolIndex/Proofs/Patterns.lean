import Mathlib.Data.List.TakeWhile
import SymbolIndex.Pattern
import SymbolIndex.Proofs.Occurrence

/-! What patterns match, said without reading anything: a piece takes a text that fits it, up to a
character with which it cannot go on. `Pattern.take?_eq_some_iff` is both directions at once, so
heads that are written in a known way are read back and heads that are read have a known form. -/
namespace SymbolIndex

namespace Piece

/-- The texts that a piece can take. -/
def Fits : Piece → List Char → Prop
  | literal text, taken => taken = text
  | run allowed, taken => ∀ c ∈ taken, allowed c = true
  | word first allowed, taken =>
    ∃ c later, taken = c :: later ∧ first c = true ∧ ∀ c ∈ later, allowed c = true

/-- The texts before which a piece stops. -/
def Stops : Piece → List Char → Prop
  | literal _, _ => True
  | run allowed, rest | word _ allowed, rest => ∀ c, rest.head? = some c → allowed c = false

theorem some1_fits_iff {allowed : Char → Bool} {text : List Char} :
    (some1 allowed).Fits text ↔ text ≠ [] ∧ ∀ c ∈ text, allowed c = true := by
  constructor
  · rintro ⟨c, later, rfl, first, others⟩
    exact ⟨List.cons_ne_nil c later, List.forall_mem_cons.mpr ⟨first, others⟩⟩
  · rintro ⟨nonempty, chars⟩
    obtain ⟨c, later, rfl⟩ := List.exists_cons_of_ne_nil nonempty
    exact ⟨c, later, rfl, List.forall_mem_cons.mp chars⟩

theorem ne_nil_of_word {first allowed : Char → Bool} {text : List Char}
    (fits : (word first allowed).Fits text) : text ≠ [] := by
  obtain ⟨c, later, rfl, -⟩ := fits
  exact List.cons_ne_nil c later

/-- A run up to a character takes what is without it. -/
theorem run_ne_fits_iff {c : Char} {text : List Char} : (run (· != c)).Fits text ↔ c ∉ text := by
  constructor
  · intro fits member
    simpa using fits c member
  · intro absent d member
    rw [bne_iff_ne]
    rintro rfl
    exact absent member

theorem run_stops {allowed : Char → Bool} {c : Char} {rest : List Char}
    (other : allowed c = false) : (run allowed).Stops (c :: rest) := by
  rintro _ ⟨⟩
  exact other

theorem word_stops {first allowed : Char → Bool} {c : Char} {rest : List Char}
    (other : allowed c = false) : (word first allowed).Stops (c :: rest) := by
  rintro _ ⟨⟩
  exact other

private theorem takeWhile_of_stop {p : Char → Bool} {text rest : List Char}
    (inside : ∀ c ∈ text, p c = true) (stop : ∀ c, rest.head? = some c → p c = false) :
    (text ++ rest).takeWhile p = text := by
  rw [List.takeWhile_append_of_pos inside]
  cases rest with
  | nil => simp
  | cons c rest => simp [stop c rfl]

private theorem stop_takeWhile (p : Char → Bool) {s text rest : List Char}
    (taken : s.takeWhile p = text) (whole : s = text ++ rest) :
    ∀ c, rest.head? = some c → p c = false := by
  have dropped : rest = s.dropWhile p := by
    have both := List.takeWhile_append_dropWhile (p := p) (l := s)
    rw [taken, whole] at both
    exact (List.append_cancel_left both).symm.trans (by rw [← whole])
  intro c first
  rw [dropped] at first
  have stop := List.head?_dropWhile_not p s
  rw [first] at stop
  exact stop

theorem take?_of_fits {piece : Piece} {text rest : List Char} (fits : piece.Fits text)
    (stops : piece.Stops rest) : piece.take? (text ++ rest) = some text := by
  cases piece with
  | literal expected =>
    obtain rfl : text = expected := fits
    rw [take?, if_pos (Text.startsWith_self_append text rest)]
  | run allowed => exact congrArg some (takeWhile_of_stop fits stops)
  | word first allowed =>
    obtain ⟨c, later, rfl, starts, goes⟩ := fits
    rw [List.cons_append, take?, if_pos starts, takeWhile_of_stop goes stops]

theorem fits_of_take? {piece : Piece} {s text : List Char} (taken : piece.take? s = some text) :
    piece.Fits text ∧ ∀ rest, s = text ++ rest → piece.Stops rest := by
  cases piece with
  | literal expected =>
    rw [take?] at taken
    split at taken
    · exact ⟨(Option.some.inj taken).symm, fun _ _ => trivial⟩
    · cases taken
  | run allowed =>
    obtain rfl := Option.some.inj taken
    exact ⟨fun c member => List.mem_takeWhile_imp member,
      fun rest whole => stop_takeWhile allowed rfl whole⟩
  | word first allowed =>
    cases s with
    | nil => cases taken
    | cons c s =>
      rw [take?] at taken
      split at taken
      · rename_i starts
        obtain rfl := Option.some.inj taken
        refine ⟨⟨c, _, rfl, starts, fun c member => List.mem_takeWhile_imp member⟩, ?_⟩
        intro rest whole
        exact stop_takeWhile allowed rfl (List.cons.inj whole).2
      · cases taken

/-- A piece that never takes a character. -/
def avoids (c : Char) : Piece → Bool
  | literal text => !text.contains c
  | run allowed => !allowed c
  | word first allowed => !first c && !allowed c

theorem not_mem_of_avoids {c : Char} {piece : Piece} (avoids : piece.avoids c = true)
    {text : List Char} (fits : piece.Fits text) : c ∉ text := by
  intro member
  cases piece with
  | literal expected =>
    obtain rfl : text = expected := fits
    simp [Piece.avoids, member] at avoids
  | run allowed =>
    rw [Piece.avoids, fits _ member] at avoids
    cases avoids
  | word first allowed =>
    obtain ⟨d, later, rfl, starts, goes⟩ := fits
    rcases List.mem_cons.mp member with rfl | inside
    · simp [Piece.avoids, starts] at avoids
    · simp [Piece.avoids, goes _ inside] at avoids

theorem Stops.of_append {piece : Piece} {s more : List Char} (stops : piece.Stops (s ++ more)) :
    piece.Stops s := by
  cases s with
  | nil => cases piece <;> first | exact trivial | exact nofun
  | cons c s => cases piece <;> exact stops

theorem Stops.append {piece : Piece} {s : List Char} (stops : piece.Stops s) (nonempty : s ≠ [])
    (more : List Char) : piece.Stops (s ++ more) := by
  cases s with
  | nil => exact absurd rfl nonempty
  | cons c s => cases piece <;> exact stops

end Piece

namespace Pattern

/-- The texts that a pattern takes, one for each piece, before the given rest. -/
inductive Takes : Pattern → List (List Char) → List Char → Prop where
  | nil {rest : List Char} : Takes [] [] rest
  | cons {piece : Piece} {later : Pattern} {text rest : List Char} {texts : List (List Char)}
      (fits : piece.Fits text) (stops : piece.Stops (texts.flatten ++ rest))
      (takes : Takes later texts rest) : Takes (piece :: later) (text :: texts) rest

/-- After a piece that takes its text the pattern goes on behind it. -/
theorem take?_cons_of_fits {piece : Piece} {later : Pattern} {text rest : List Char}
    (fits : piece.Fits text) (stops : piece.Stops rest) :
    take? (piece :: later) (text ++ rest) =
      (take? later rest).map fun (texts, left) => (text :: texts, left) := by
  rw [take?, Piece.take?_of_fits fits stops]
  simp

/-- What follows a name decides whether more than the name is taken. -/
theorem take?_of_other {piece : Piece} {name gap rest : List Char} {c d : Char}
    (fits : piece.Fits name) (stops : piece.Stops (gap ++ c :: rest)) (blank : Piece.blanks.Fits gap)
    (unblank : Text.isBlank c = false) (other : c ≠ d) (later : Pattern) :
    take? (piece :: .blanks :: .literal [d] :: later) (name ++ (gap ++ c :: rest)) = none := by
  have between : Piece.blanks.Stops (c :: rest) := Piece.run_stops unblank
  rw [take?_cons_of_fits fits stops, take?_cons_of_fits blank between]
  simp [take?, Piece.take?, Text.startsWith, Text.afterPrefix?, Ne.symm other]

theorem take?_of_takes {pattern : Pattern} {texts : List (List Char)} {rest : List Char}
    (takes : pattern.Takes texts rest) : pattern.take? (texts.flatten ++ rest) = some (texts, rest) := by
  induction takes with
  | nil => rfl
  | cons fits stops takes ih =>
    rw [List.flatten_cons, List.append_assoc, take?_cons_of_fits fits stops, ih]
    rfl

theorem takes_of_take? {pattern : Pattern} {s rest : List Char} {texts : List (List Char)}
    (taken : pattern.take? s = some (texts, rest)) : pattern.Takes texts rest := by
  induction pattern generalizing s texts with
  | nil =>
    obtain ⟨rfl, rfl⟩ : [] = texts ∧ s = rest := by simpa [take?] using taken
    exact .nil
  | cons piece later ih =>
    unfold take? at taken
    split at taken
    · cases taken
    · rename_i text takes
      obtain ⟨⟨texts', rest'⟩, takenLater, same⟩ := Option.map_eq_some_iff.mp taken
      obtain ⟨rfl, rfl⟩ : text :: texts' = texts ∧ rest' = rest := by simpa using same
      obtain ⟨fits, stops⟩ := Piece.fits_of_take? takes
      refine .cons fits (stops _ ?_) (ih takenLater)
      rw [take?_append takenLater, Piece.take?_append takes]

/-- A pattern is matched exactly by the texts that fit its pieces, each piece stopping before the
next. -/
theorem take?_eq_some_iff {pattern : Pattern} {s rest : List Char} {texts : List (List Char)} :
    pattern.take? s = some (texts, rest) ↔
      s = texts.flatten ++ rest ∧ pattern.Takes texts rest := by
  constructor
  · intro taken
    exact ⟨(take?_append taken).symm, takes_of_take? taken⟩
  · rintro ⟨rfl, takes⟩
    exact take?_of_takes takes

theorem isSome_take?_iff {pattern : Pattern} {s : List Char} : (pattern.take? s).isSome = true ↔
    ∃ texts rest, s = texts.flatten ++ rest ∧ pattern.Takes texts rest := by
  simp [Option.isSome_iff_exists, take?_eq_some_iff]

/-- A pattern in two parts takes what the first takes and, behind it, what the second does. -/
theorem takes_append_iff {front behind : Pattern} {texts : List (List Char)} {rest : List Char} :
    Takes (front ++ behind) texts rest ↔ ∃ first second, texts = first ++ second ∧
      front.Takes first (second.flatten ++ rest) ∧ behind.Takes second rest := by
  induction front generalizing texts with
  | nil =>
    constructor
    · intro takes
      exact ⟨[], texts, rfl, .nil, takes⟩
    · rintro ⟨first, second, rfl, _ | _, takes⟩
      exact takes
  | cons piece front ih =>
    constructor
    · rintro (_ | ⟨fits, stops, takes⟩)
      obtain ⟨first, second, rfl, leads, follows⟩ := ih.mp takes
      rw [List.flatten_append, List.append_assoc] at stops
      exact ⟨_ :: first, second, rfl, .cons fits stops leads, follows⟩
    · rintro ⟨_, second, rfl, _ | ⟨fits, stops, leads⟩, follows⟩
      rw [← List.append_assoc, ← List.flatten_append] at stops
      exact .cons fits stops (ih.mpr ⟨_, second, rfl, leads, follows⟩)

theorem Takes.length_eq {pattern : Pattern} {texts : List (List Char)} {rest : List Char}
    (takes : pattern.Takes texts rest) : texts.length = pattern.length := by
  induction takes with
  | nil => rfl
  | cons _ _ _ ih => rw [List.length_cons, List.length_cons, ih]

theorem takes_append_append_iff {front behind : Pattern} {first second : List (List Char)}
    {rest : List Char} (lengths : second.length = behind.length) :
    Takes (front ++ behind) (first ++ second) rest ↔
      front.Takes first (second.flatten ++ rest) ∧ behind.Takes second rest := by
  rw [takes_append_iff]
  constructor
  · rintro ⟨first', second', same, leads, follows⟩
    obtain ⟨rfl, rfl⟩ := List.append_inj' same (lengths.trans follows.length_eq.symm)
    exact ⟨leads, follows⟩
  · rintro ⟨leads, follows⟩
    exact ⟨first, second, rfl, leads, follows⟩

/-- A pattern takes a text in one way only. -/
theorem Takes.unique {pattern : Pattern} {texts texts' : List (List Char)} {s rest rest' : List Char}
    (takes : pattern.Takes texts rest) (whole : s = texts.flatten ++ rest)
    (taken : pattern.take? s = some (texts', rest')) : texts' = texts ∧ rest' = rest := by
  rw [whole, take?_of_takes takes] at taken
  obtain ⟨rfl, rfl⟩ := Prod.mk.inj (Option.some.inj taken)
  exact ⟨rfl, rfl⟩

/-- What a pattern that begins with a character takes begins with it. -/
theorem Takes.begins {c : Char} {later : Pattern} {texts : List (List Char)} {rest : List Char}
    (takes : Takes (.literal [c] :: later) texts rest) : ∃ more, texts.flatten ++ rest = c :: more := by
  obtain _ | ⟨marked, -, -⟩ := takes
  rename_i marks texts
  obtain rfl : marks = [c] := marked
  exact ⟨texts.flatten ++ rest, rfl⟩

theorem not_mem_of_avoids {c : Char} {pattern : Pattern} (avoids : pattern.all (Piece.avoids c) = true)
    {texts : List (List Char)} {rest : List Char} (takes : pattern.Takes texts rest) :
    c ∉ texts.flatten := by
  induction takes with
  | nil => exact List.not_mem_nil
  | cons fits _ _ ih =>
    rw [List.all_cons, Bool.and_eq_true] at avoids
    rw [List.flatten_cons, List.mem_append, not_or]
    exact ⟨Piece.not_mem_of_avoids avoids.1 fits, ih avoids.2⟩

/-- What the pattern takes ends in a character of some sort. -/
def Ends (pattern : Pattern) (P : Char → Prop) : Prop := ∀ texts rest, pattern.Takes texts rest →
  ∃ c, texts.flatten.getLast? = some c ∧ P c

theorem Ends.cons {later : Pattern} {P : Char → Prop} (ends : later.Ends P) (piece : Piece) :
    Ends (piece :: later) P := by
  rintro _ rest (_ | ⟨-, -, takes⟩)
  obtain ⟨c, last, holds⟩ := ends _ rest takes
  exact ⟨c, by rw [List.flatten_cons, List.getLast?_append, last]; rfl, holds⟩

/-- What a pattern takes it also takes from a text that ends earlier, behind it. -/
theorem Takes.of_append {pattern : Pattern} {texts : List (List Char)} {rest more : List Char}
    (takes : pattern.Takes texts (rest ++ more)) : pattern.Takes texts rest := by
  induction pattern generalizing texts with
  | nil =>
    cases takes
    exact .nil
  | cons piece later ih =>
    obtain _ | ⟨fits, stops, takes⟩ := takes
    rw [← List.append_assoc] at stops
    exact .cons fits stops.of_append (ih takes)

theorem Takes.ne_nil {front : Pattern} {last : Piece} {texts : List (List Char)} {rest : List Char}
    (nonempty : ∀ text, last.Fits text → text ≠ [])
    (takes : Pattern.Takes (front ++ [last]) texts rest) : texts.flatten ++ rest ≠ [] := by
  induction front generalizing texts with
  | nil =>
    obtain _ | ⟨fits, -, _ | _⟩ := takes
    simp [nonempty _ fits]
  | cons piece front ih =>
    obtain _ | ⟨fits, -, takes⟩ := takes
    rw [List.flatten_cons, List.append_assoc]
    exact List.append_ne_nil_of_right_ne_nil _ (ih takes)

/-- What a pattern takes it also takes from a text that goes on, if its last piece, which is never
empty, stops there. -/
theorem Takes.append {front : Pattern} {last : Piece} {texts : List (List Char)} {rest more : List Char}
    (nonempty : ∀ text, last.Fits text → text ≠ []) (stops : last.Stops more)
    (takes : Pattern.Takes (front ++ [last]) texts rest) :
    Pattern.Takes (front ++ [last]) texts (rest ++ more) := by
  induction front generalizing texts with
  | nil =>
    obtain _ | ⟨fits, stops', _ | _⟩ := takes
    refine .cons fits ?_ .nil
    cases rest with
    | nil => exact stops
    | cons c rest => exact stops'.append (List.cons_ne_nil c rest) more
  | cons piece front ih =>
    obtain _ | ⟨fits, stops', takes⟩ := takes
    have goesOn := stops'.append (takes.ne_nil nonempty) more
    rw [List.append_assoc] at goesOn
    exact .cons fits goesOn (ih takes)

end Pattern

end SymbolIndex
