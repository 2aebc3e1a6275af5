import Mathlib.Data.List.DropRight
import Mathlib.Data.List.Induction
import SymbolIndex.Call
import SymbolIndex.Lexical

/-! Calls read from the left. A text leaves a stack of frames, one for each parenthesis that is open, with
the name before it and the commas behind it. Reading from the end, past some groups and some commas, comes
to what the stack says without as many frames and with as many commas more, so the call around a cursor is
that of the innermost frame with a name. All that a stretch of text does to the stack is to close some
frames, count commas for the one behind them and open others; it does nothing exactly if its parentheses
are closed inside it and its commas stand in groups, and that is what a literal has to be like for a call
around it not to notice what is in it. -/
namespace SymbolIndex.Call

/-- The name that a text ends in, blanks behind it aside: the run of characters of names that stands
there. -/
def nameAtEnd? (text : List Char) : Option (List Char) :=
  match (Text.trimEnd text).rtakeWhile isCalleeChar with
  | [] => none
  | name => some name

/-- A parenthesis that is open. -/
structure Frame where
  /-- What stands before it, if that is a name. -/
  name : Option (List Char)
  /-- The commas behind it, those in groups inside it aside. -/
  commas : Nat
  deriving DecidableEq, Repr

/-- The stack with some commas more in its innermost frame, if it has one. -/
def addCommas (more : Nat) : List Frame → List Frame
  | [] => []
  | f :: outer => { f with commas := f.commas + more } :: outer

/-- The stack after a character that stands behind a text. -/
def nextFrames (before : List Char) (stack : List Frame) (c : Char) : List Frame :=
  if c = '(' then ⟨nameAtEnd? before, 0⟩ :: stack
  else if c = ')' then stack.tail
  else if c = ',' then addCommas 1 stack
  else stack

/-- The stack after a text that stands behind another. -/
def framesAfter (before : List Char) (stack : List Frame) : (text : List Char) → List Frame
  | [] => stack
  | c :: later => framesAfter (before ++ [c]) (nextFrames before stack c) later

/-- The parentheses that a text leaves open, innermost first. -/
def frames (text : List Char) : List Frame := framesAfter [] [] text

/-- The call of the innermost frame that has a name. -/
def innermost? (stack : List Frame) : Option Call :=
  stack.findSome? fun f => f.name.map (⟨·, f.commas⟩)

theorem addCommas_cons (more : Nat) (f : Frame) (outer : List Frame) :
    addCommas more (f :: outer) = { f with commas := f.commas + more } :: outer := rfl

theorem addCommas_zero (stack : List Frame) : addCommas 0 stack = stack := by
  cases stack <;> rfl

theorem addCommas_addCommas (more further : Nat) (stack : List Frame) :
    addCommas further (addCommas more stack) = addCommas (more + further) stack := by
  cases stack with
  | nil => rfl
  | cons f outer => simp [addCommas, Nat.add_assoc]

/-- Commas are not noticed behind the frame that they stand in. -/
theorem drop_addCommas (closed more : Nat) (stack : List Frame) :
    (addCommas more stack).drop (closed + 1) = stack.drop (closed + 1) := by
  cases stack <;> rfl

theorem framesAfter_append (before : List Char) (stack : List Frame) (a b : List Char) :
    framesAfter before stack (a ++ b) = framesAfter (before ++ a) (framesAfter before stack a) b := by
  induction a generalizing before stack with
  | nil => rw [List.nil_append, List.append_nil, framesAfter]
  | cons c a ih =>
    rw [List.cons_append, framesAfter, ih, framesAfter, List.append_assoc, List.singleton_append]

theorem frames_concat (text : List Char) (c : Char) :
    frames (text ++ [c]) = nextFrames text (frames text) c :=
  framesAfter_append [] [] text [c]

theorem calleeBefore?_reverse (text : List Char) : calleeBefore? text.reverse = nameAtEnd? text := by
  have run : (Text.trimEnd text).rtakeWhile isCalleeChar =
      ((Text.trimStart text.reverse).takeWhile isCalleeChar).reverse := by
    rw [List.rtakeWhile, Text.trimEnd, Text.dropEndWhile, List.reverse_reverse, Text.trimStart]
  rw [calleeBefore?, nameAtEnd?, run]
  cases (Text.trimStart text.reverse).takeWhile isCalleeChar with
  | nil => rfl
  | cons c later =>
    obtain ⟨first, name, shape⟩ :=
      List.exists_cons_of_ne_nil (mt List.reverse_eq_nil_iff.mp (List.cons_ne_nil c later))
    simp only [shape]

/-- What reading from the end finds, past some closed groups and some commas, stands on the stack. -/
theorem searchBack?_reverse (text : List Char) (closed commas : Nat) :
    searchBack? closed commas text.reverse =
      innermost? (addCommas commas ((frames text).drop closed)) := by
  induction text using List.reverseRecOn generalizing closed commas with
  | nil => simp [searchBack?, frames, framesAfter, addCommas, innermost?]
  | append_singleton text c ih =>
    rw [frames_concat, List.reverse_concat, searchBack?, nextFrames]
    by_cases closes : c = ')'
    · subst closes
      simp [ih]
    by_cases opens : c = '('
    · subst opens
      cases closed with
      | succ closed => simp [ih]
      | zero =>
        rw [calleeBefore?_reverse]
        cases named : nameAtEnd? text with
        | none => rw [if_neg closes, if_pos rfl, if_pos rfl, if_pos rfl, ih, addCommas_zero]; rfl
        | some name => simp [addCommas, innermost?]
    by_cases comma : c = ','
    · subst comma
      cases closed with
      | succ closed => simp [ih, drop_addCommas]
      | zero => simp [ih, addCommas_addCommas, Nat.add_comm]
    simp [closes, opens, comma, ih]

/-- Read from its end, a text has the call that it has read from its beginning. -/
theorem before?_eq_innermost (text : List Char) : before? text = innermost? (frames text) := by
  rw [before?, searchBack?_reverse, List.drop_zero, addCommas_zero]

/-- The call around a cursor is that of the innermost open parenthesis with a name, read from the left: an
opening parenthesis puts a frame on the stack, with the name before it if there is one, a closing one takes
a frame off, and a comma counts for the frame on top. Without such a frame there is no call. -/
theorem calls_of_frames (text : List Char) :
    before? text = (frames text).findSome? fun f => f.name.map (⟨·, f.commas⟩) :=
  before?_eq_innermost text

section Stretches

theorem innermost?_append (opened outer : List Frame) :
    innermost? (opened ++ outer) = (innermost? opened).or (innermost? outer) :=
  List.findSome?_append

/-- Whether a text closes the parentheses that it opens and, besides, as many more as the level says, and
has commas only where one of them is open. -/
def encloses : (level : Nat) → (text : List Char) → Bool
  | level, [] => level == 0
  | level, c :: later =>
    if c = '(' then encloses (level + 1) later
    else if c = ')' then level != 0 && encloses (level - 1) later
    else if c = ',' then level != 0 && encloses level later
    else encloses level later

/-- What a text does to any stack: it closes some frames, counts commas for the next and opens some others.
To enclose everything is to close what was open, and to do nothing else. -/
theorem exists_effect (before text : List Char) : ∃ opened closed commas,
    (∀ stack, framesAfter before stack text = opened ++ addCommas commas (stack.drop closed)) ∧
      ∀ level, encloses level text = true ↔ opened = [] ∧ level = closed ∧ commas = 0 := by
  induction text generalizing before with
  | nil =>
    refine ⟨[], 0, 0, fun stack => (addCommas_zero stack).symm, fun level => ?_⟩
    simp [encloses]
  | cons c later ih =>
    obtain ⟨opened, closed, commas, effect, encloses_iff⟩ := ih (before ++ [c])
    have step (stack : List Frame) : framesAfter before stack (c :: later) =
        opened ++ addCommas commas ((nextFrames before stack c).drop closed) := by
      rw [framesAfter, effect]
    by_cases opens : c = '('
    · -- A frame that is opened here is closed later on, or stays below what is opened there.
      subst opens
      cases closed with
      | succ closed =>
        refine ⟨opened, closed, commas, step, fun level => ?_⟩
        simp [encloses, encloses_iff]
      | zero =>
        refine ⟨opened ++ [⟨nameAtEnd? before, commas⟩], 0, 0, fun stack => ?_, fun level => ?_⟩
        · simp [step, nextFrames, addCommas_cons, addCommas_zero]
        · simp [encloses, encloses_iff]
    by_cases closes : c = ')'
    · subst closes
      refine ⟨opened, closed + 1, commas, fun stack => ?_, fun level => ?_⟩
      · simp [step, nextFrames]
      · cases level <;> simp [encloses, encloses_iff]
    by_cases comma : c = ','
    · subst comma
      cases closed with
      | succ closed =>
        refine ⟨opened, closed + 1, commas, fun stack => ?_, fun level => ?_⟩
        · simp [step, nextFrames, drop_addCommas]
        · cases level <;> simp [encloses, encloses_iff]
      | zero =>
        refine ⟨opened, 0, 1 + commas, fun stack => ?_, fun level => ?_⟩
        · simp [step, nextFrames, addCommas_addCommas]
        · cases level <;> simp [encloses, encloses_iff]
    refine ⟨opened, closed, commas, fun stack => ?_, fun level => ?_⟩
    · simp [step, nextFrames, opens, closes, comma]
    · simp [encloses, opens, closes, comma, encloses_iff]

/-- A name does not reach back over a mark that is neither a blank nor a character of names. -/
theorem nameAtEnd?_behind {mark : Char} (unnamed : isCalleeChar mark = false)
    (unblank : Text.isBlank mark = false) (before text : List Char) :
    nameAtEnd? (before ++ mark :: text) = nameAtEnd? text := by
  have stops (run : List Char) : (run ++ mark :: before.reverse).takeWhile isCalleeChar =
      run.takeWhile isCalleeChar := by
    have none : (mark :: before.reverse).takeWhile isCalleeChar = [] :=
      List.takeWhile_cons_of_neg (by simp [unnamed])
    rw [List.takeWhile_append, none, List.append_nil]
    split
    · rename_i whole
      exact ((List.takeWhile_prefix isCalleeChar).eq_of_length whole).symm
    · rfl
  have trims : Text.trimStart (text.reverse ++ mark :: before.reverse) =
      Text.trimStart text.reverse ++ mark :: before.reverse := by
    rw [Text.trimStart, Text.trimStart, List.dropWhile_append]
    split
    · rename_i blank
      rw [List.dropWhile_cons_of_neg (by simp [unblank]), List.isEmpty_iff.mp blank, List.nil_append]
    · rfl
  rw [← calleeBefore?_reverse, ← calleeBefore?_reverse, List.reverse_append, List.reverse_cons,
    List.append_assoc, List.singleton_append, calleeBefore?, calleeBefore?, trims, stops]

/-- What a text does to the stack does not depend on what stands before such a mark. -/
theorem framesAfter_behind {mark : Char} (unnamed : isCalleeChar mark = false)
    (unblank : Text.isBlank mark = false) (before read : List Char) (stack : List Frame)
    (text : List Char) :
    framesAfter (before ++ mark :: read) stack text = framesAfter read stack text := by
  induction text generalizing read stack with
  | nil => rfl
  | cons c later ih =>
    have next : nextFrames (before ++ mark :: read) stack c = nextFrames read stack c := by
      rw [nextFrames, nameAtEnd?_behind unnamed unblank, nextFrames]
    rw [framesAfter, next, List.append_assoc, List.cons_append, ih, framesAfter]

end Stretches

/-- A text without quote marks. -/
def Unquoted (text : List Char) : Prop := ∀ c ∈ text, Lexical.isQuoteMark c = false

instance (text : List Char) : Decidable (Unquoted text) := List.decidableBAll _ text

section Literals

variable {mark : Char} (quotes : Lexical.isQuoteMark mark = true)
include quotes

theorem bare_of_isQuoteMark : isCalleeChar mark = false ∧ Text.isBlank mark = false ∧
    mark ≠ '(' ∧ mark ≠ ')' ∧ mark ≠ ',' := by
  rw [Lexical.isQuoteMark, Bool.or_eq_true, beq_iff_eq, beq_iff_eq] at quotes
  rcases quotes with rfl | rfl <;> decide

/-- A literal does to the stack what it does alone, and so does what stands behind it. -/
theorem frames_literal (p b r : List Char) : frames (p ++ mark :: (b ++ mark :: r)) =
    framesAfter [] (framesAfter [] (frames p) b) r := by
  obtain ⟨unnamed, unblank, noOpening, noClosing, noComma⟩ := bare_of_isQuoteMark quotes
  have behind (before : List Char) (stack : List Frame) (text : List Char) :
      framesAfter before stack (mark :: text) = framesAfter [] stack text := by
    rw [framesAfter, nextFrames, if_neg noOpening, if_neg noClosing, if_neg noComma,
      framesAfter_behind unnamed unblank]
  rw [frames, framesAfter_append, behind, framesAfter_append, behind]
  rfl

/-- What a literal holds goes unnoticed if it encloses its parentheses and commas, and wherever a call is
open behind it. Any other literal is noticed in some call. -/
theorem literals_unnoticed (b : List Char) :
    (∀ p r, encloses 0 b = true ∨ (before? r).isSome = true →
      before? (p ++ mark :: (b ++ mark :: r)) = before? (p ++ mark :: mark :: r)) ∧
    (encloses 0 b = false → ∃ p r, Unquoted p ∧ Unquoted r ∧
      before? (p ++ mark :: (b ++ mark :: r)) ≠ before? (p ++ mark :: mark :: r)) := by
  obtain ⟨opened, closed, commas, effect, encloses_iff⟩ := exists_effect [] b
  have full (p r : List Char) : before? (p ++ mark :: (b ++ mark :: r)) =
      innermost? (framesAfter [] (opened ++ addCommas commas ((frames p).drop closed)) r) := by
    rw [before?_eq_innermost, frames_literal quotes, effect]
  have empty (p r : List Char) : before? (p ++ mark :: mark :: r) =
      innermost? (framesAfter [] (frames p) r) := by
    rw [before?_eq_innermost]
    exact congrArg innermost? (frames_literal quotes p [] r)
  constructor
  · rintro p r (enclosed | named)
    · obtain ⟨rfl, rfl, rfl⟩ := (encloses_iff 0).mp enclosed
      rw [full, empty, List.nil_append, List.drop_zero, addCommas_zero]
    · obtain ⟨opened', closed', commas', effect', -⟩ := exists_effect [] r
      have alone : before? r = innermost? opened' := by
        rw [before?_eq_innermost, frames, effect', List.drop_nil, addCommas, List.append_nil]
      rw [alone] at named
      rw [full, empty, effect', effect', innermost?_append, innermost?_append,
        Option.or_of_isSome named, Option.or_of_isSome named]
  · intro loose
    by_contra! unnoticed
    -- With nothing around it, in an open call, and where that call is closed right behind it, the literal
    -- shows all that it does to the stack.
    have called : frames ['f', '('] = [⟨some ['f'], 0⟩] := by decide
    have alone : innermost? opened = none := by
      have same := unnoticed [] [] nofun nofun
      have nothing : frames [] = [] := rfl
      rw [full, empty, nothing, List.drop_nil, addCommas, List.append_nil] at same
      exact same
    have inCall : innermost? (opened ++ addCommas commas (List.drop closed [⟨some ['f'], 0⟩])) =
        some ⟨['f'], 0⟩ := by
      have same := unnoticed ['f', '('] [] (by decide) nofun
      rw [full, empty, called] at same
      exact same
    have closing : innermost? (opened ++ addCommas commas (List.drop closed [⟨some ['f'], 0⟩])).tail =
        none := by
      have same := unnoticed ['f', '('] [')'] (by decide) (by decide)
      rw [full, empty, called] at same
      exact same
    rw [innermost?_append, alone, Option.none_or] at inCall
    cases closed with
    | succ closed =>
      rw [List.drop_succ_cons, List.drop_nil] at inCall
      cases inCall
    | zero =>
      obtain rfl : commas = 0 := by simpa [innermost?, addCommas] using inCall
      cases opened with
      | nil => exact Bool.noConfusion (loose.symm.trans ((encloses_iff 0).mpr ⟨rfl, rfl, rfl⟩))
      | cons f opened =>
        rw [List.cons_append, List.tail_cons, innermost?_append] at closing
        cases (Option.or_eq_none_iff.mp closing).2

end Literals

/-- A listing in a literal is enclosed, so behind it a call goes on with its next argument. -/
theorem literals_unnoticed_listing : Lexical.isQuoteMark '\x22' = true ∧
    before? "print(\x22max(a, b)\x22, ".toList = before? "print(\x22\x22, ".toList := by
  have quotes : Lexical.isQuoteMark '\x22' = true := by decide
  exact ⟨quotes, (literals_unnoticed quotes "max(a, b)".toList).1 "print(".toList ", ".toList
    (.inl (by decide))⟩

/-- A closing parenthesis in a literal closes the call that the literal stands in. -/
theorem literal_closes_call : before? "print(\x22)\x22".toList ≠ before? "print(\x22\x22".toList := by
  decide

end SymbolIndex.Call
