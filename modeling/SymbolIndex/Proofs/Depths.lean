import SymbolIndex.Proofs.BlockComments

/-! The depth of braces, kept line by line and counted over the text. Reading changes its depth by the
balance of a line that is code and leaves it alone on any other. That is what the braces of the line
amount to in a scan of the whole text, as long as the line does not mix comments with code in a way
that a scan of the line on its own cannot tell apart. -/
namespace SymbolIndex

open Writing (Filler)

instance (l : Line) (inComment : Bool) : Decidable (l.IsCode inComment) :=
  inferInstanceAs (Decidable (_ ∧ _))

namespace Lexical

/-- Half of an opener is nothing if the other half does not follow. -/
theorem scan_slash {s : List Char} (noLine : s.head? ≠ some '/') (noBlock : s.head? ≠ some '*') :
    ((code .slash).scan s).2 = (start.scan s).2 := by
  cases s with
  | nil => rfl
  | cons c s =>
    have slash : c ≠ '/' := fun same => noLine (congrArg some same)
    have star : c ≠ '*' := fun same => noBlock (congrArg some same)
    have same : (code .slash).next c = start.next c := by simp [start, next, slash, star]
    rw [scan_cons, scan_cons, same]
    rfl

/-- A closing mark behind inert characters is inert too, unless a comment begins right behind it. -/
theorem scan_closeMark {lead rest : List Char} (inert : Inert lead) (noLine : rest.head? ≠ some '/')
    (noBlock : rest.head? ≠ some '*') :
    (start.scan (lead ++ '*' :: '/' :: rest)).2 = (start.scan rest).2 := by
  obtain ⟨⟨tail, noSlash, inCode⟩, zero⟩ := after_inert plain_ne_slash inert
  have star : (code tail).next '*' = start := by simp [next, noSlash, isQuoteMark, tailOf, start]
  have slash : start.next '/' = code .slash := rfl
  rw [scan_append, start, inCode, zero, scan_cons, star, scan_cons, slash, scan_slash noLine noBlock]
  simp [weight, start]

end Lexical

theorem braceBalance_of_filler {line : List Char} (oneLine : '\n' ∉ line) (filler : Filler line) :
    braceBalance line = 0 := by
  rw [← braceBalance_trim]
  cases filler with
  | inl empty => rw [empty]; rfl
  | inr comment => exact braceBalance_of_comment (fun inside => oneLine (Text.mem_of_mem_trim inside)) comment

namespace Document

/-- The opening braces of a line less its closing braces, of those that stand in code in a scan of the
whole document. -/
def balanceOn (d : Document) (l : Line) : Int :=
  ((Lexical.start.after (d.above l)).scan l.content).2

/-- A line whose code can be scanned on its own, whatever comments are on it. -/
inductive Apart (d : Document) (l : Line) : Prop where
  /-- It neither starts in a block comment nor begins with one. -/
  | code (outside : d.inComment l = false)
      (unopened : Text.startsWith Comment.openMark l.trimmed = false)
  /-- Nothing but blanks and a comment follows the block comment that it starts in. -/
  | comment (nothing : Filler (d.codeOn l))
  /-- The block comment that it starts in ends without slashes, braces and quotes, and no other begins
  right behind it. -/
  | ending (inside : d.inComment l = true) (lead rest : List Char)
      (ends : l.trimmed = lead ++ '*' :: '/' :: rest) (inert : Lexical.Inert lead)
      (noLine : rest.head? ≠ some '/') (noBlock : rest.head? ≠ some '*')

section Apart

variable {d : Document} {l : Line}

/-- A line whose code can be scanned on its own is skipped only if it has no code. -/
theorem Apart.filler_of_skipped (apart : d.Apart l) (skipped : ¬ l.IsCode (d.inComment l)) :
    Filler (d.codeOn l) := by
  by_contra code
  apply skipped
  refine Line.isCode_iff.mpr ⟨code, fun outside => ?_⟩
  cases apart with
  | code _ unopened => exact unopened
  | comment nothing => exact absurd nothing code
  | ending inside => exact Bool.noConfusion (outside.symm.trans inside)

/-- Such a line may be scanned with the end of the comment that it starts in. -/
theorem Apart.balance_of_code (apart : d.Apart l) (code : ¬ Filler (d.codeOn l)) :
    braceBalance l.trimmed = braceBalance (d.codeOn l) := by
  cases apart with
  | code outside unopened =>
    have whole := Comment.inside?_eq_none.mpr ⟨outside, unopened⟩
    rw [codeOn, Comment.codeOf_of_outside whole]
  | comment nothing => exact absurd nothing code
  | ending inside lead rest ends inert noLine noBlock =>
    have slashless : '/' ∉ lead := fun member => (inert _ member).1 rfl
    have closes : Text.afterFirst? Comment.closeMark l.trimmed = some rest :=
      ends ▸ Text.afterFirst?_pair (by decide) slashless rest
    have starts : Comment.inside? true l.trimmed = some l.trimmed := rfl
    have behind : d.codeOn l = rest := by
      rw [codeOn, inside, Comment.codeOf_of_inside starts, closes]
      rfl
    rw [behind, ends]
    exact Lexical.scan_closeMark inert noLine noBlock

end Apart

end Document

namespace Reading

/-- What a line adds to the depth: the balance of its braces if it is code and else nothing. -/
def change (r : Reading) (l : Line) : Int :=
  if l.IsCode r.inComment then braceBalance l.trimmed else 0

/-- The depth that counts for the next line: that of the open container, if there is one. -/
def level (r : Reading) : Int :=
  match r.container with
  | some b => b.depth
  | none => r.depth

/-- Depths are never negative, and an open container is the only thing that is open. -/
structure Sound (r : Reading) : Prop where
  depth : 0 ≤ r.depth
  container : ∀ b, r.container = some b → 0 < b.depth ∧ r.depth = 0

theorem sound_start : start.Sound := ⟨Int.le_refl 0, nofun⟩

theorem Sound.level_nonneg {r : Reading} (sound : r.Sound) : 0 ≤ r.level := by
  unfold level
  split
  · rename_i b inside
    exact Int.le_of_lt (sound.container b inside).1
  · exact sound.depth

theorem level_of_free {r : Reading} (free : r.container = none) : r.level = r.depth := by
  rw [level, free]

theorem level_of_inside {r : Reading} {b : Container} (inside : r.container = some b) :
    r.level = b.depth := by
  rw [level, inside]

theorem Sound.note {r : Reading} (sound : r.Sound) (l : Line) :
    (r.note l).Sound ∧ (r.note l).level = r.level := by
  cases inside : r.container with
  | none =>
    rw [note_of_free inside]
    exact ⟨sound, rfl⟩
  | some b =>
    have noted : (r.note l).container = some (b.noting l) := by
      rw [Reading.note, inside]
      rfl
    refine ⟨⟨sound.depth, ?_⟩, by rw [level_of_inside noted, level_of_inside inside]; rfl⟩
    rw [noted]
    rintro _ ⟨⟩
    exact sound.container b inside

/-- A line changes the depth by what it adds, but not below zero. -/
theorem Sound.step {r : Reading} (sound : r.Sound) (l : Line) :
    (r.step l).1.Sound ∧ (r.step l).1.level = max 0 (r.level + r.change l) := by
  have skipped (comment : ¬ l.IsCode r.inComment) :
      (r.note l).level = max 0 (r.level + r.change l) := by
    rw [change, if_neg comment, (sound.note l).2, Int.add_zero, Int.max_eq_right sound.level_nonneg]
  have adds (code : l.IsCode r.inComment) : r.change l = braceBalance l.trimmed := if_pos code
  have nonneg : 0 ≤ max 0 (r.depth + braceBalance l.trimmed) := Int.le_max_left ..
  generalize next : r.step l = result
  cases next ▸ step_outcome r l with
  | blank empty => exact ⟨(sound.note l).1, skipped fun code => code.1 empty⟩
  | comment is =>
    have noted := sound.note l
    exact ⟨⟨noted.1.depth, noted.1.container⟩, skipped fun code => Bool.noConfusion (is.symm.trans code.2)⟩
  | nested code free | declared code free =>
    refine ⟨⟨nonneg, ?_⟩, ?_⟩
    · intro b inside
      exact absurd (free.symm.trans inside) nofun
    · rw [adds code, level_of_free free]
      exact level_of_free free
  | opened code free top head _ positive =>
    refine ⟨⟨sound.depth, ?_⟩, ?_⟩
    · rintro _ ⟨⟩
      exact ⟨positive, top⟩
    · rw [adds code, level_of_free free, top, Int.zero_add, Int.max_eq_right (Int.le_of_lt positive)]
      rfl
  | whole code free top head _ closes =>
    refine ⟨⟨sound.depth, sound.container⟩, ?_⟩
    rw [adds code, level_of_free free, top, Int.zero_add, Int.max_eq_left closes]
    exact (level_of_free free).trans top
  | grown code b inside positive =>
    refine ⟨⟨sound.depth, ?_⟩, ?_⟩
    · rintro _ ⟨⟩
      exact ⟨positive, (sound.container b inside).2⟩
    · rw [adds code, level_of_inside inside, Int.max_eq_right (Int.le_of_lt positive)]
      rfl
  | closed code b inside closes =>
    refine ⟨⟨sound.depth, nofun⟩, ?_⟩
    rw [adds code, level_of_inside inside, Int.max_eq_left closes]
    exact (sound.container b inside).2

theorem Sound.after {r : Reading} (sound : r.Sound) (lines : List Line) : (r.after lines).Sound := by
  induction lines generalizing r with
  | nil => exact sound
  | cons l later ih => exact ih (sound.step l).1

section Steps

variable {d : Document} {before after : List Line} {l : Line}
  (split : d.lines = before ++ l :: after) (closed : ∀ l' ∈ before, d.ClosedOn l')
include split closed

theorem balanceOn_eq : d.balanceOn l = braceBalance (d.codeOn l) := by
  rw [Document.balanceOn, (inComment_eq split closed).2, Comment.balance_of_code]
  rfl

/-- What reading counts on a line is what its braces amount to in a scan of the whole text. -/
theorem change_eq (apart : d.Apart l) : (start.after before).change l = d.balanceOn l := by
  have member : l ∈ d.lines := split ▸ List.mem_append_right _ List.mem_cons_self
  rw [balanceOn_eq split closed, change, (inComment_eq split closed).1]
  split
  · rename_i code
    exact apart.balance_of_code (Line.isCode_iff.mp code).1
  · rename_i skipped
    have oneLine : '\n' ∉ d.codeOn l := by
      obtain ⟨-, -, oneLine⟩ := Document.content_append member
      exact fun inside => oneLine (Text.mem_of_mem_trim (Comment.mem_of_mem_codeOf inside))
    exact (braceBalance_of_filler oneLine (apart.filler_of_skipped skipped)).symm

theorem level_after (apart : d.Apart l) : (start.after (before ++ [l])).level =
    max 0 ((start.after before).level + d.balanceOn l) := by
  rw [← change_eq split closed apart, after_append]
  exact ((sound_start.after before).step l).2

end Steps

end Reading

/-- Reading line by line keeps the depth of braces in step with a scan of the whole text. No line above
may leave a comment open that its code opened, and the line itself must keep comments and code
apart; then its braces change the depth as much as they do in that scan. -/
theorem depth_in_step {d : Document} {before after : List Line} {l : Line}
    (split : d.lines = before ++ l :: after) (closed : ∀ l' ∈ before, d.ClosedOn l')
    (apart : d.Apart l) :
    (Reading.start.after before).change l = d.balanceOn l ∧
      (Reading.start.after (before ++ [l])).level =
        max 0 ((Reading.start.after before).level + d.balanceOn l) :=
  ⟨Reading.change_eq split closed apart, Reading.level_after split closed apart⟩

/-- A document with a brace inside a comment and another behind it. -/
def resumed : Document :=
  .ofString "Pair \x7b\n  /* was\n  old() \x7b\n  now */ size() \x7b\n  \x7d\n\x7d"

/-- Of the braces of `resumed` only the one behind the comment counts on its line. -/
theorem depth_in_step_resumed :
    ∃ before l after, resumed.lines = before ++ l :: after ∧ resumed.balanceOn l = 1 ∧
      (Reading.start.after before).change l = resumed.balanceOn l ∧
      (Reading.start.after (before ++ [l])).level =
        max 0 ((Reading.start.after before).level + resumed.balanceOn l) := by
  have split : resumed.lines = resumed.lines.take 3 ++
      Document.lineOf 3 "  now */ size() \x7b".toList "\n  \x7d\n\x7d".toList ::
      resumed.lines.drop 4 := by decide +kernel
  have inert : Lexical.Inert ['n', 'o', 'w', ' '] := by simp [Lexical.Inert, Lexical.isQuoteMark]
  refine ⟨_, _, _, split, by decide +kernel, depth_in_step split (by decide +kernel) ?_⟩
  exact .ending (by decide +kernel) ['n', 'o', 'w', ' '] " size() \x7b".toList (by decide +kernel) inert
    (by decide +kernel) (by decide +kernel)

/-- Behind code an opener goes unseen, and a brace in its comment counts. -/
theorem depth_out_of_step :
    let d := Document.ofString "main() => 1 /* was\n\x7b */\nhelper() => 2\n"
    d.chars.any Lexical.isQuoteMark = false ∧
      ∃ l ∈ d.line? 1, (Reading.start.after (d.lines.take 1)).change l = 1 ∧ d.balanceOn l = 0 := by
  decide +kernel

end SymbolIndex
