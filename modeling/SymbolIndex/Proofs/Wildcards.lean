import Mathlib.Data.List.Forall2
import SymbolIndex.Bytewise.Wildcard
import SymbolIndex.Proofs.ByteScan

/-! Wildcards. A pattern covers a name if the name falls into parts, one for each byte of the pattern, that
these bytes stand for. A comparison that goes along both and remembers the last star alone finds every
such name: between two stars a pattern takes exactly as many bytes as it has, so whatever an earlier star
could give up, the last one can reach. Each step moves the star's run or the place in the pattern on, so
there are no more steps than the product of the two lengths. -/
namespace SymbolIndex

namespace Glob

/-- The same byte, or the other case of the same ASCII letter. -/
def SameLetter (p b : UInt8) : Prop :=
  p = b ∨ 65 ≤ p ∧ p ≤ 90 ∧ b = p + 32 ∨ 65 ≤ b ∧ b ≤ 90 ∧ p = b + 32

/-- The parts of a name that a byte of a pattern stands for. -/
inductive Stands : UInt8 → List UInt8 → Prop where
  | run (part : List UInt8) : Stands star part
  | any (b : UInt8) : Stands questionMark [b]
  | letter {p b : UInt8} (noStar : p ≠ star) (noMark : p ≠ questionMark) (same : SameLetter p b) :
      Stands p [b]

/-- A name falls into parts that the bytes of a pattern stand for, one after the other. -/
def Covers (pattern name : List UInt8) : Prop :=
  ∃ parts : List (List UInt8), name = parts.flatten ∧ List.Forall₂ Stands pattern parts

theorem lowerByte_eq_iff {p b : UInt8} : lowerByte p = lowerByte b ↔ SameLetter p b := by
  simp only [lowerByte, SameLetter, Bool.and_eq_true, decide_eq_true_eq, ← UInt8.toNat_inj,
    UInt8.le_iff_toNat_le]
  have := p.toNat_lt
  have := b.toNat_lt
  split <;> split <;> simp only [UInt8.toNat_add, UInt8.reduceToNat] at * <;> omega

/-- A byte that is no star stands for the bytes that the comparison lets it stand for. -/
theorem standsFor_iff {p b : UInt8} (noStar : p ≠ star) : standsFor p b = true ↔ Stands p [b] := by
  rw [standsFor, Bool.or_eq_true, beq_iff_eq, beq_iff_eq, lowerByte_eq_iff]
  constructor
  · rintro (rfl | same)
    · exact .any b
    · by_cases mark : p = questionMark
      · exact mark ▸ .any b
      · exact .letter noStar mark same
  · rintro (_ | _ | ⟨-, -, same⟩)
    · exact absurd rfl noStar
    · exact .inl rfl
    · exact .inr same

theorem covers_nil_iff {name : List UInt8} : Covers [] name ↔ name = [] := by
  constructor
  · rintro ⟨parts, rfl, none⟩
    cases none
    rfl
  · rintro rfl
    exact ⟨[], rfl, .nil⟩

theorem covers_star_iff {later name : List UInt8} :
    Covers (star :: later) name ↔ ∃ run rest, name = run ++ rest ∧ Covers later rest := by
  constructor
  · rintro ⟨_, rfl, stands⟩
    obtain _ | ⟨-, others⟩ := stands
    rename_i run parts
    exact ⟨run, parts.flatten, rfl, parts, rfl, others⟩
  · rintro ⟨run, _, rfl, parts, rfl, others⟩
    exact ⟨run :: parts, rfl, .cons (.run run) others⟩

theorem covers_cons_iff {p : UInt8} (noStar : p ≠ star) {later name : List UInt8} :
    Covers (p :: later) name ↔
      ∃ b rest, name = b :: rest ∧ standsFor p b = true ∧ Covers later rest := by
  constructor
  · rintro ⟨_, rfl, stands⟩
    obtain _ | ⟨first, others⟩ := stands
    rename_i part parts
    obtain ⟨b, rfl⟩ : ∃ b, part = [b] := by
      cases first with
      | run => exact absurd rfl noStar
      | any b => exact ⟨b, rfl⟩
      | letter => exact ⟨_, rfl⟩
    exact ⟨b, parts.flatten, rfl, (standsFor_iff noStar).mpr first, parts, rfl, others⟩
  · rintro ⟨b, _, rfl, stands, parts, rfl, others⟩
    exact ⟨[b] :: parts, rfl, .cons ((standsFor_iff noStar).mp stands) others⟩

/-- A star stands for nothing, or for one more byte of what is left. -/
theorem covers_star_cons_iff {later : List UInt8} {b : UInt8} {name : List UInt8} :
    Covers (star :: later) (b :: name) ↔ Covers later (b :: name) ∨ Covers (star :: later) name := by
  rw [covers_star_iff, covers_star_iff]
  constructor
  · rintro ⟨run, rest, whole, covers⟩
    cases run with
    | nil =>
      obtain rfl : b :: name = rest := whole
      exact .inl covers
    | cons c run => exact .inr ⟨run, rest, (List.cons.inj whole).2, covers⟩
  · rintro (covers | ⟨run, rest, rfl, covers⟩)
    · exact ⟨[], b :: name, rfl, covers⟩
    · exact ⟨b :: run, rest, rfl, covers⟩

/-- What is left of a pattern at the end of a name has to be stars. -/
theorem covers_end_iff {pattern : List UInt8} :
    Covers pattern [] ↔ pattern.all (· == star) = true := by
  induction pattern with
  | nil => simp [covers_nil_iff]
  | cons p later ih =>
    rw [List.all_cons, Bool.and_eq_true, beq_iff_eq, ← ih]
    constructor
    · intro covers
      by_cases isStar : p = star
      · subst isStar
        obtain ⟨run, rest, whole, covers⟩ := covers_star_iff.mp covers
        obtain ⟨-, rfl⟩ := List.append_eq_nil_iff.mp whole.symm
        exact ⟨rfl, covers⟩
      · obtain ⟨b, rest, whole, -⟩ := (covers_cons_iff isStar).mp covers
        cases whole
    · rintro ⟨rfl, covers⟩
      exact covers_star_iff.mpr ⟨[], [], rfl, covers⟩

/-- Bytes of a pattern without a star take as many bytes of a name. -/
theorem Covers.split {between later name : List UInt8} (plain : star ∉ between)
    (covers : Covers (between ++ later) name) :
    ∃ taken rest, name = taken ++ rest ∧ taken.length = between.length ∧ Covers later rest := by
  induction between generalizing name with
  | nil => exact ⟨[], name, rfl, rfl, covers⟩
  | cons p between ih =>
    obtain ⟨other, plain⟩ := List.ne_and_not_mem_of_not_mem_cons plain
    obtain ⟨b, rest, rfl, -, covers⟩ := (covers_cons_iff (Ne.symm other)).mp covers
    obtain ⟨taken, rest, rfl, size, covers⟩ := ih plain covers
    exact ⟨b :: taken, rest, rfl, congrArg (· + 1) size, covers⟩

/-- For every rest of a pattern, longest first, whether it matches a name. -/
def answers (pattern name : List UInt8) : List Bool :=
  name.foldr (fun b row => nextRow b pattern row) (emptyRow pattern)

/-- Behind the answer for a whole pattern stand those for the pattern without its first byte. -/
theorem tail_answers (p : UInt8) (later name : List UInt8) :
    (answers (p :: later) name).tail = answers later name := by
  induction name with
  | nil => rfl
  | cons b name ih => exact congrArg (nextRow b later) ih

theorem matchesBytes_star_cons (later : List UInt8) (b : UInt8) (name : List UInt8) :
    matchesBytes (star :: later) (b :: name) =
      (matchesBytes later (b :: name) || matchesBytes (star :: later) name) := by
  have row : answers (star :: later) (b :: name) =
      ((nextRow b later (answers (star :: later) name).tail).head?.getD false ||
        (answers (star :: later) name).head?.getD false) ::
          nextRow b later (answers (star :: later) name).tail := by
    show nextRow b (star :: later) _ = _
    rw [nextRow, if_pos rfl]
    rfl
  have answer := congrArg (·.head?.getD false) row
  rw [tail_answers] at answer
  exact answer

theorem matchesBytes_cons_cons {p : UInt8} (noStar : p ≠ star) (later : List UInt8) (b : UInt8)
    (name : List UInt8) :
    matchesBytes (p :: later) (b :: name) = (standsFor p b && matchesBytes later name) := by
  have row : answers (p :: later) (b :: name) =
      (standsFor p b && (answers (p :: later) name).tail.head?.getD false) ::
        nextRow b later (answers (p :: later) name).tail := by
    show nextRow b (p :: later) _ = _
    rw [nextRow, if_neg noStar]
    rfl
  have answer := congrArg (·.head?.getD false) row
  rw [tail_answers] at answer
  exact answer

theorem matchesBytes_end (pattern : List UInt8) :
    matchesBytes pattern [] = pattern.all (· == star) := by
  induction pattern with
  | nil => rfl
  | cons p later ih =>
    rw [List.all_cons, ← ih]
    rfl

/-- The rows of answers tell just which names a pattern covers. -/
theorem matchesBytes_iff (pattern name : List UInt8) :
    matchesBytes pattern name = true ↔ Covers pattern name := by
  induction name generalizing pattern with
  | nil => rw [matchesBytes_end, covers_end_iff]
  | cons b name ihName =>
    induction pattern with
    | nil =>
      rw [covers_nil_iff]
      exact iff_of_false Bool.false_ne_true (List.cons_ne_nil b name)
    | cons p later ihPattern =>
      by_cases isStar : p = star
      · subst isStar
        rw [matchesBytes_star_cons, Bool.or_eq_true, ihPattern, ihName, covers_star_cons_iff]
      · rw [matchesBytes_cons_cons isStar, Bool.and_eq_true, ihName, covers_cons_iff isStar]
        constructor
        · rintro ⟨stands, covers⟩
          exact ⟨b, name, rfl, stands, covers⟩
        · rintro ⟨_, _, ⟨⟩, stands, covers⟩
          exact ⟨stands, covers⟩

end Glob

namespace Bytewise

open Glob

namespace Comparison

section Run

variable {pattern name : List UInt8} {c : Comparison}

/-- What the indices of a comparison say of the two texts: between the last star and the place in the
pattern there is no other star, and the name has been compared as far behind the star's bytes. -/
structure Sound (pattern name : List UInt8) (c : Comparison) : Prop where
  inPattern : c.patternAt ≤ pattern.length
  inName : c.nameAt ≤ name.length
  behindStar : ∀ place stop, c.lastStar = some (place, stop) → ∃ between, star ∉ between ∧
    pattern.drop place = star :: (between ++ pattern.drop c.patternAt) ∧
    c.nameAt = stop + between.length

/-- There is a way left to cover the name: from here on, or with more bytes for the last star. -/
def Open (pattern name : List UInt8) (c : Comparison) : Prop :=
  Covers (pattern.drop c.patternAt) (name.drop c.nameAt) ∨
    ∃ place stop, c.lastStar = some (place, stop) ∧
      ∃ k, stop < k ∧ k ≤ name.length ∧ Covers (pattern.drop (place + 1)) (name.drop k)

/-- Where the bytes of the last star end; as long as there is none, the beginning. -/
def starStop (c : Comparison) : Nat := (c.lastStar.map Prod.snd).getD 0

/-- A bound for the steps that are left. -/
def left (pattern name : List UInt8) (c : Comparison) : Nat :=
  (name.length - c.starStop) * (pattern.length + 1) + (pattern.length - c.patternAt)

theorem sound_start : start.Sound pattern name where
  inPattern := Nat.zero_le _
  inName := Nat.zero_le _
  behindStar := nofun

theorem open_start_iff : start.Open pattern name ↔ Covers pattern name := by
  constructor
  · rintro (covers | ⟨_, _, ⟨⟩, -⟩)
    exact covers
  · exact .inl

theorem left_start_lt : start.left pattern name < (name.length + 1) * (pattern.length + 1) := by
  rw [left, Nat.succ_mul]
  show name.length * (pattern.length + 1) + pattern.length < _
  omega

/-- With more bytes for the last star, what is left of the pattern begins behind where it begins now. -/
theorem Sound.covers_behind (sound : c.Sound pattern name) {place stop k : Nat}
    (last : c.lastStar = some (place, stop)) (further : stop < k)
    (covers : Covers (pattern.drop (place + 1)) (name.drop k)) :
    ∃ k', c.nameAt < k' ∧ Covers (pattern.drop c.patternAt) (name.drop k') ∧
      (k ≤ name.length → k' ≤ name.length) := by
  obtain ⟨between, plain, text, same⟩ := sound.behindStar place stop last
  rw [drop_of_drop text] at covers
  obtain ⟨taken, rest, whole, size, covers⟩ := covers.split plain
  refine ⟨k + taken.length, by omega, ?_, ?_⟩
  · rwa [← List.drop_drop, whole, List.drop_left]
  · intro inside
    have lengths := congrArg List.length whole
    rw [List.length_drop, List.length_append] at lengths
    omega

/-- Where the name ends, more bytes for the last star help nothing. -/
theorem Sound.open_end_iff (sound : c.Sound pattern name) (ended : ¬ c.nameAt < name.length) :
    c.Open pattern name ↔ (pattern.drop c.patternAt).all (· == star) = true := by
  have nothing : name.drop c.nameAt = [] := List.drop_eq_nil_of_le (Nat.le_of_not_lt ended)
  rw [← covers_end_iff, Open, nothing, or_iff_left]
  rintro ⟨place, stop, last, k, further, inside, covers⟩
  obtain ⟨k', beyond, -, within⟩ := sound.covers_behind last further covers
  have := within inside
  omega

/-- A star covers any bytes of a name from a place on and what its later pattern covers behind them. -/
theorem covers_star_drop_iff {later : List UInt8} {place : Nat} (inName : place ≤ name.length) :
    Covers (star :: later) (name.drop place) ↔
      ∃ k, place ≤ k ∧ k ≤ name.length ∧ Covers later (name.drop k) := by
  rw [covers_star_iff]
  constructor
  · rintro ⟨run, rest, whole, covers⟩
    have lengths := congrArg List.length whole
    rw [List.length_drop, List.length_append] at lengths
    refine ⟨place + run.length, Nat.le_add_right _ _, by omega, ?_⟩
    rwa [← List.drop_drop, whole, List.drop_left]
  · rintro ⟨k, reaches, -, covers⟩
    refine ⟨(name.drop place).take (k - place), name.drop k, ?_, covers⟩
    have onward : name.drop k = (name.drop place).drop (k - place) := by
      rw [List.drop_drop, Nat.add_sub_cancel' reaches]
    rw [onward, List.take_append_drop]

/-- A step of a comparison keeps what is known of it and which answer is left, and comes nearer to the
end. -/
structure Follows (pattern name : List UInt8) (c next : Comparison) : Prop where
  sound : next.Sound pattern name
  keeps : next.Open pattern name ↔ c.Open pattern name
  less : next.left pattern name < c.left pattern name

/-- A star needs no way back past it: whatever an earlier one could take, this one takes as well. -/
theorem Sound.follows_star (sound : c.Sound pattern name) {later : List UInt8}
    (here : pattern.drop c.patternAt = star :: later) :
    Follows pattern name c
      { c with patternAt := c.patternAt + 1, lastStar := some (c.patternAt, c.nameAt) } where
  sound := by
    refine ⟨lt_length_of_drop here, sound.inName, ?_⟩
    rintro _ _ ⟨⟩
    exact ⟨[], List.not_mem_nil, here.trans (congrArg _ (drop_of_drop here).symm), rfl⟩
  keeps := by
    have onward := drop_of_drop here
    have cover : Covers (star :: later) (name.drop c.nameAt) ↔
        ∃ k, c.nameAt ≤ k ∧ k ≤ name.length ∧ Covers later (name.drop k) :=
      covers_star_drop_iff sound.inName
    unfold Open
    rw [here, onward, cover]
    constructor
    · rintro (covers | ⟨_, _, ⟨⟩, k, further, inside, covers⟩)
      · exact .inl ⟨c.nameAt, Nat.le_refl _, sound.inName, covers⟩
      · exact .inl ⟨k, Nat.le_of_lt further, inside, onward ▸ covers⟩
    · rintro (⟨k, reaches, inside, covers⟩ | ⟨place, stop, last, k, further, inside, covers⟩)
      · rcases Nat.eq_or_lt_of_le reaches with rfl | further
        · exact .inl covers
        · exact .inr ⟨_, _, rfl, k, further, inside, onward.symm ▸ covers⟩
      · -- The bytes between the two stars follow what the earlier one takes, so this one is reached
        -- no earlier than now, and can itself take all that comes before.
        obtain ⟨k', beyond, covers, within⟩ := sound.covers_behind last further covers
        rw [here, covers_star_drop_iff (within inside)] at covers
        obtain ⟨k'', reaches, inside, covers⟩ := covers
        exact .inr ⟨_, _, rfl, k'', Nat.lt_of_lt_of_le beyond reaches, inside, onward.symm ▸ covers⟩
  less := by
    have stops : c.starStop ≤ c.nameAt := by
      unfold starStop
      cases last : c.lastStar with
      | none => exact Nat.zero_le _
      | some pair =>
        obtain ⟨between, -, -, same⟩ := sound.behindStar pair.1 pair.2 last
        exact same ▸ Nat.le_add_right _ _
    have fewer := Nat.mul_le_mul_right (pattern.length + 1) (Nat.sub_le_sub_left stops name.length)
    have inside := lt_length_of_drop here
    unfold left
    show (name.length - c.nameAt) * _ + (pattern.length - (c.patternAt + 1)) < _
    omega

/-- A byte that the pattern stands for goes with its place in the pattern. -/
theorem Sound.follows_byte (sound : c.Sound pattern name) {p b : UInt8} {later rest : List UInt8}
    (here : pattern.drop c.patternAt = p :: later) (there : name.drop c.nameAt = b :: rest)
    (noStar : p ≠ star) (stands : standsFor p b = true) :
    Follows pattern name c { c with nameAt := c.nameAt + 1, patternAt := c.patternAt + 1 } where
  sound := by
    refine ⟨lt_length_of_drop here, lt_length_of_drop there, ?_⟩
    intro place stop last
    obtain ⟨between, plain, text, same⟩ := sound.behindStar place stop last
    refine ⟨between ++ [p], by simp [plain, Ne.symm noStar], ?_, by simp [same, Nat.add_assoc]⟩
    rw [text, here, drop_of_drop here, List.append_assoc, List.singleton_append]
  keeps := by
    unfold Open
    rw [here, there, drop_of_drop here, drop_of_drop there, covers_cons_iff noStar]
    apply or_congr_left
    constructor
    · intro covers
      exact ⟨b, rest, rfl, stands, covers⟩
    · rintro ⟨_, _, ⟨⟩, -, covers⟩
      exact covers
  less := by
    have inside := lt_length_of_drop here
    unfold left
    show (name.length - c.starStop) * _ + (pattern.length - (c.patternAt + 1)) < _
    omega

/-- Where the pattern does not cover the name from here on, the last star has to take more. -/
theorem Sound.follows_retry (sound : c.Sound pattern name) (inside : c.nameAt < name.length)
    (refused : ¬ Covers (pattern.drop c.patternAt) (name.drop c.nameAt)) {next : Comparison}
    (retried : c.retry = some next) : Follows pattern name c next := by
  obtain ⟨⟨place, stop⟩, last, rfl⟩ := Option.map_eq_some_iff.mp retried
  obtain ⟨between, -, text, same⟩ := sound.behindStar place stop last
  have inPattern := lt_length_of_drop text
  refine ⟨⟨inPattern, by show stop + 1 ≤ _; omega, ?_⟩, ?_, ?_⟩
  · rintro _ _ ⟨⟩
    exact ⟨[], List.not_mem_nil, text.trans (congrArg _ (drop_of_drop text).symm), rfl⟩
  · unfold Open
    rw [or_iff_right refused, last]
    constructor
    · rintro (covers | ⟨_, _, ⟨⟩, k, further, within, covers⟩)
      · exact ⟨place, stop, rfl, stop + 1, Nat.lt_succ_self _, by omega, covers⟩
      · exact ⟨place, stop, rfl, k, Nat.lt_of_succ_lt further, within, covers⟩
    · rintro ⟨_, _, ⟨⟩, k, further, within, covers⟩
      rcases Nat.eq_or_lt_of_le further with rfl | beyond
      · exact .inl covers
      · exact .inr ⟨place, stop + 1, rfl, k, beyond, within, covers⟩
  · have stops : c.starStop = stop := by rw [starStop, last]; rfl
    have one : name.length - stop = name.length - (stop + 1) + 1 := by omega
    unfold left
    rw [stops, one, Nat.succ_mul]
    show (name.length - (stop + 1)) * _ + (pattern.length - (place + 1)) < _
    omega

/-- Where there is no star to go back to, the name is not covered. -/
theorem not_open_of_refused
    (refused : ¬ Covers (pattern.drop c.patternAt) (name.drop c.nameAt)) (none : c.retry = none) :
    ¬ c.Open pattern name := by
  rintro (covers | ⟨place, stop, last, -⟩)
  · exact refused covers
  · rw [retry, last] at none
    cases none

/-- A step back to the last star goes on, or there is none and the name is not covered. -/
theorem Sound.goes_back (sound : c.Sound pattern name) (inside : c.nameAt < name.length)
    (refused : ¬ Covers (pattern.drop c.patternAt) (name.drop c.nameAt))
    (retries : c.advance pattern name = .ok c.retry) :
    (∃ next, c.advance pattern name = .ok (some next) ∧ Follows pattern name c next) ∨
      c.advance pattern name = .ok none ∧ ¬ c.Open pattern name := by
  rw [retries]
  cases retried : c.retry with
  | none => exact .inr ⟨rfl, not_open_of_refused refused retried⟩
  | some next => exact .inl ⟨next, rfl, sound.follows_retry inside refused retried⟩

/-- Before the end of the name a comparison goes on, or knows that the pattern does not cover it. -/
theorem Sound.advance (sound : c.Sound pattern name) (inside : c.nameAt < name.length) :
    (∃ next, c.advance pattern name = .ok (some next) ∧ Follows pattern name c next) ∨
      c.advance pattern name = .ok none ∧ ¬ c.Open pattern name := by
  have there : name.drop c.nameAt = name[c.nameAt] :: name.drop (c.nameAt + 1) :=
    List.drop_eq_getElem_cons inside
  cases read : pattern[c.patternAt]? with
  | none =>
    have spent : pattern.drop c.patternAt = [] := List.drop_eq_nil_of_le (List.getElem?_eq_none_iff.mp read)
    apply sound.goes_back inside
    · rw [spent, there, covers_nil_iff]
      exact List.cons_ne_nil _ _
    · rw [Comparison.advance, read]
  | some p =>
    obtain ⟨later, here⟩ : ∃ later, pattern.drop c.patternAt = p :: later := by
      obtain ⟨within, rfl⟩ := List.getElem?_eq_some_iff.mp read
      exact ⟨_, List.drop_eq_getElem_cons within⟩
    by_cases isStar : p = star
    · subst isStar
      refine .inl ⟨_, ?_, sound.follows_star here⟩
      rw [Comparison.advance, read]
      exact if_pos rfl
    · have reads : c.advance pattern name = if standsFor p name[c.nameAt] then
          .ok (some { c with nameAt := c.nameAt + 1, patternAt := c.patternAt + 1 }) else .ok c.retry := by
        rw [Comparison.advance, read]
        dsimp only
        rw [if_neg isStar, itemAt_of_drop there, ok_bind]
        split <;> rfl
      by_cases stands : standsFor p name[c.nameAt] = true
      · exact .inl ⟨_, reads.trans (if_pos stands), sound.follows_byte here there isStar stands⟩
      · apply sound.goes_back inside
        · rw [here, there, covers_cons_iff isStar]
          rintro ⟨_, _, ⟨⟩, stands', -⟩
          exact stands stands'
        · exact reads.trans (if_neg stands)

end Run

end Comparison

/-- A comparison with enough steps comes to an end, reads nothing out of range, and tells whether there
was a way to cover the name. -/
theorem compareFrom_eq {pattern name : List UInt8} {c : Comparison} {steps : Nat}
    (sound : c.Sound pattern name) (enough : c.left pattern name < steps) :
    ∃ answer, compareFrom pattern name steps c = .ok answer ∧
      (answer = true ↔ c.Open pattern name) := by
  induction steps generalizing c with
  | zero => exact absurd enough (Nat.not_lt_zero _)
  | succ steps ih =>
    rw [compareFrom]
    by_cases inside : c.nameAt < name.length
    · rw [if_pos inside]
      rcases sound.advance inside with ⟨next, goesOn, follows⟩ | ⟨stops, lost⟩
      · have fewer : next.left pattern name < steps :=
          Nat.lt_of_lt_of_le follows.less (Nat.le_of_lt_succ enough)
        obtain ⟨answer, comes, tells⟩ := ih follows.sound fewer
        refine ⟨answer, ?_, tells.trans follows.keeps⟩
        rw [goesOn]
        exact comes
      · refine ⟨false, ?_, iff_of_false Bool.false_ne_true lost⟩
        rw [stops]
        rfl
    · rw [if_neg inside]
      exact ⟨_, if_pos sound.inPattern, (sound.open_end_iff inside).symm⟩

end Bytewise

/-- A pattern matches just the names that fall into parts, one for each of its bytes: any run for a star,
one byte for a question mark, and for any other byte that one up to the case of ASCII letters. The
comparison that goes back to the last star only comes to the same answer within as many steps as the
lengths of both, each and one more, multiply to, and more steps change nothing. -/
theorem Glob.wildcards_exact :
    (∀ pattern name : List UInt8,
      (Glob.matchesBytes pattern name = true ↔ Glob.Covers pattern name) ∧
      ∀ more, Bytewise.compareFrom pattern name
        ((name.length + 1) * (pattern.length + 1) + more) .start =
          .ok (Glob.matchesBytes pattern name)) ∧
    ∀ name pattern : String, Glob.isMatch name pattern = true ↔
      Glob.Covers pattern.toUTF8.data.toList name.toUTF8.data.toList := by
  refine ⟨?_, fun name pattern => Glob.matchesBytes_iff _ _⟩
  intro pattern name
  refine ⟨Glob.matchesBytes_iff pattern name, ?_⟩
  intro more
  have start : Bytewise.Comparison.start.left pattern name < (name.length + 1) * (pattern.length + 1) :=
    Bytewise.Comparison.left_start_lt
  have enough := Nat.lt_add_right more start
  obtain ⟨answer, comes, tells⟩ := Bytewise.compareFrom_eq Bytewise.Comparison.sound_start enough
  rw [Bytewise.Comparison.open_start_iff, ← Glob.matchesBytes_iff] at tells
  rw [comes, Bool.eq_iff_iff.mpr tells]

/-- The first `ab` behind the star is not the one that ends the name, and the case of letters does not
count. -/
example : Glob.isMatch "abab.AB" "*ab?ab" = true ∧ Glob.isMatch "abab.abc" "*ab?ab" = false := by
  decide +kernel

end SymbolIndex
