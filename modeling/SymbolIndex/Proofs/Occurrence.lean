import SymbolIndex.Text.Basic

/-! What a text begins with, what occurs in it and what it is split into. -/
namespace SymbolIndex.Text

theorem startsWith_self_append (start s : List Char) : startsWith start (start ++ s) = true := by
  induction start with
  | nil => rfl
  | cons a start ih => simpa [startsWith, afterPrefix?] using ih

theorem exists_of_startsWith {start s : List Char} (starts : startsWith start s = true) :
    ∃ rest, s = start ++ rest := by
  induction start generalizing s with
  | nil => exact ⟨s, rfl⟩
  | cons a start ih =>
    cases s with
    | nil => cases starts
    | cons c s =>
      by_cases same : a = c
      · subst same
        obtain ⟨rest, rfl⟩ := ih (s := s) (by simpa [startsWith, afterPrefix?] using starts)
        exact ⟨rest, rfl⟩
      · simp [startsWith, afterPrefix?, same] at starts

theorem startsWith_append {start s : List Char} (starts : startsWith start s = true)
    (more : List Char) : startsWith start (s ++ more) = true := by
  obtain ⟨rest, rfl⟩ := exists_of_startsWith starts
  rw [List.append_assoc]
  exact startsWith_self_append start (rest ++ more)

theorem occursIn_cons (part : List Char) (c : Char) (s : List Char) :
    occursIn part (c :: s) = (startsWith part (c :: s) || occursIn part s) := by
  rw [occursIn, afterFirst?, startsWith, occursIn]
  cases afterPrefix? part (c :: s) <;> rfl

theorem occursIn_of_startsWith {part s : List Char} (starts : startsWith part s = true) :
    occursIn part s = true := by
  cases s with
  | nil => exact starts
  | cons c s => rw [occursIn_cons, starts, Bool.true_or]

theorem occursIn_append_left {part a : List Char} (occurs : occursIn part a = true)
    (b : List Char) : occursIn part (a ++ b) = true := by
  induction a with
  | nil => exact occursIn_of_startsWith (startsWith_append occurs b)
  | cons c a ih =>
    rw [occursIn_cons, Bool.or_eq_true] at occurs
    rw [List.cons_append, occursIn_cons, Bool.or_eq_true]
    exact occurs.imp (fun starts => startsWith_append starts b) ih

theorem occursIn_append_right {part b : List Char} (occurs : occursIn part b = true)
    (a : List Char) : occursIn part (a ++ b) = true := by
  induction a with
  | nil => exact occurs
  | cons c a ih => rw [List.cons_append, occursIn_cons, ih, Bool.or_true]

/-- A text of two characters does not occur across a character that is neither of them. -/
theorem occursIn_pair_append {first second : Char} {a b : List Char} {c : Char}
    (left : occursIn [first, second] a = false) (right : occursIn [first, second] b = false)
    (other : c ≠ first) (another : c ≠ second) :
    occursIn [first, second] (a ++ c :: b) = false := by
  induction a with
  | nil =>
    rw [List.nil_append, occursIn_cons, right]
    simp [startsWith, afterPrefix?, Ne.symm other]
  | cons d a ih =>
    rw [occursIn_cons, Bool.or_eq_false_iff] at left
    rw [List.cons_append, occursIn_cons, ih left.2, Bool.or_false]
    have starts := left.1
    cases a with
    | nil => simp [startsWith, afterPrefix?, Ne.symm another]
    | cons e a => simpa [startsWith, afterPrefix?] using starts

theorem occursIn_pair_of_not_mem {first second : Char} {s : List Char} (absent : first ∉ s) :
    occursIn [first, second] s = false := by
  induction s with
  | nil => rfl
  | cons c s ih =>
    obtain ⟨other, later⟩ := List.ne_and_not_mem_of_not_mem_cons absent
    rw [occursIn_cons, ih later]
    simp [startsWith, afterPrefix?, other]

theorem afterPrefix?_pair {first second c : Char} {s rest : List Char}
    (found : afterPrefix? [first, second] (c :: s) = some rest) : c = first ∧ s = second :: rest := by
  by_cases same : first = c
  · cases s with
    | nil => simp [afterPrefix?] at found
    | cons d s =>
      by_cases again : second = d
      · simp_all [afterPrefix?]
      · simp [afterPrefix?, again] at found
  · simp [afterPrefix?, same] at found

theorem afterPrefix?_eq_some_iff {start s rest : List Char} :
    afterPrefix? start s = some rest ↔ s = start ++ rest := by
  induction start generalizing s with
  | nil => simp [afterPrefix?]
  | cons a start ih =>
    cases s with
    | nil => simp [afterPrefix?]
    | cons c s =>
      by_cases same : a = c
      · simp [afterPrefix?, same, ih]
      · simp [afterPrefix?, same, Ne.symm same]

theorem mem_of_mem_afterPrefix? {start s rest : List Char} {c : Char}
    (found : afterPrefix? start s = some rest) (member : c ∈ rest) : c ∈ s := by
  rw [afterPrefix?_eq_some_iff.mp found]
  exact List.mem_append_right start member

theorem exists_of_afterFirst? {part s rest : List Char} (found : afterFirst? part s = some rest) :
    ∃ lead, s = lead ++ (part ++ rest) := by
  induction s with
  | nil =>
    have whole : [] = part ++ rest := afterPrefix?_eq_some_iff.mp found
    exact ⟨[], whole⟩
  | cons c s ih =>
    rw [afterFirst?] at found
    split at found
    · rename_i behind starts
      obtain rfl := Option.some.inj found
      have whole : c :: s = part ++ behind := afterPrefix?_eq_some_iff.mp starts
      exact ⟨[], whole⟩
    · obtain ⟨lead, rfl⟩ := ih found
      exact ⟨c :: lead, rfl⟩

/-- The first occurrence is still the first when the text goes on. -/
theorem afterFirst?_append {part s rest : List Char} (found : afterFirst? part s = some rest)
    (more : List Char) : afterFirst? part (s ++ more) = some (rest ++ more) := by
  induction s with
  | nil =>
    obtain ⟨rfl, rfl⟩ := List.append_eq_nil_iff.mp (afterPrefix?_eq_some_iff.mp found).symm
    cases more <;> rfl
  | cons c s ih =>
    rw [afterFirst?] at found
    rw [List.cons_append, afterFirst?]
    cases starts : afterPrefix? part (c :: s) with
    | some behind =>
      rw [starts] at found
      obtain rfl := Option.some.inj found
      have goesOn : afterPrefix? part (c :: (s ++ more)) = some (behind ++ more) := by
        rw [afterPrefix?_eq_some_iff, ← List.append_assoc, ← afterPrefix?_eq_some_iff.mp starts]
        rfl
      rw [goesOn]
    | none =>
      rw [starts] at found
      have notHere : afterPrefix? part (c :: (s ++ more)) = none := by
        rw [Option.eq_none_iff_forall_ne_some]
        intro behind goesOn
        -- The text occurs further on, so it is short enough to begin here already.
        obtain ⟨lead, whole⟩ := exists_of_afterFirst? found
        have cut : c :: s ++ more = part ++ behind := afterPrefix?_eq_some_iff.mp goesOn
        rcases List.append_eq_append_iff.mp cut with ⟨z, longer, -⟩ | ⟨z, shorter, -⟩
        · have lengths := congrArg List.length longer
          have lengths' := congrArg List.length whole
          simp only [List.length_append, List.length_cons] at lengths lengths'
          omega
        · rw [afterPrefix?_eq_some_iff.mpr shorter] at starts
          cases starts
      rw [notHere]
      exact ih found

theorem mem_of_mem_afterFirst? {part s rest : List Char} {c : Char}
    (found : afterFirst? part s = some rest) (member : c ∈ rest) : c ∈ s := by
  obtain ⟨lead, rfl⟩ := exists_of_afterFirst? found
  exact List.mem_append_right lead (List.mem_append_right part member)

/-- The second character of a pair stands where the pair does, if not earlier. -/
theorem afterFirst?_pair {first second : Char} {lead : List Char} (different : first ≠ second)
    (absent : second ∉ lead) (rest : List Char) :
    afterFirst? [first, second] (lead ++ first :: second :: rest) = some rest := by
  induction lead with
  | nil => simp [afterFirst?, afterPrefix?]
  | cons c lead ih =>
    obtain ⟨-, later⟩ := List.ne_and_not_mem_of_not_mem_cons absent
    have notHere : afterPrefix? [first, second] (c :: (lead ++ first :: second :: rest)) = none := by
      cases here : afterPrefix? [first, second] (c :: (lead ++ first :: second :: rest)) with
      | none => rfl
      | some behind =>
        obtain ⟨-, next⟩ := afterPrefix?_pair here
        cases lead with
        | nil => exact absurd (List.cons.inj next).1 different
        | cons d lead => exact absurd (List.cons.inj next).1.symm (List.ne_of_not_mem_cons later)
    rw [List.cons_append, afterFirst?, notHere]
    exact ih later

/-- A beginning of a text without some character ends before the first one. -/
theorem prefix_of_not_mem {a b s t : List Char} {c : Char} (same : a ++ s = b ++ c :: t)
    (absent : c ∉ a) : ∃ z, b = a ++ z ∧ s = z ++ c :: t := by
  rcases List.append_eq_append_iff.mp same with ⟨z, whole, rest⟩ | ⟨z, rfl, rest⟩
  · exact ⟨z, whole, rest⟩
  · cases z with
    | nil => exact ⟨[], by simp, rest.symm⟩
    | cons d z =>
      obtain ⟨rfl, -⟩ := List.cons.inj rest
      exact absurd (List.mem_append_right b List.mem_cons_self) absent

/-- A run of characters of a class ends in one place only. -/
theorem run_unique {p : Char → Bool} {a a' s s' : List Char} {c c' : Char}
    (inside : ∀ d ∈ a, p d = true) (inside' : ∀ d ∈ a', p d = true) (stop : p c = false)
    (stop' : p c' = false) (same : a ++ c :: s = a' ++ c' :: s') : a = a' ∧ c = c' ∧ s = s' := by
  induction a generalizing a' with
  | nil =>
    cases a' with
    | nil => exact ⟨rfl, List.cons.inj same⟩
    | cons d a' =>
      obtain ⟨rfl, -⟩ := List.cons.inj same
      rw [inside' c List.mem_cons_self] at stop
      cases stop
  | cons d a ih =>
    cases a' with
    | nil =>
      obtain ⟨rfl, -⟩ := List.cons.inj same
      rw [inside d List.mem_cons_self] at stop'
      cases stop'
    | cons d' a' =>
      obtain ⟨rfl, later⟩ := List.cons.inj same
      obtain ⟨rfl, rest⟩ := ih (List.forall_mem_cons.mp inside).2 (List.forall_mem_cons.mp inside').2 later
      exact ⟨rfl, rest⟩

theorem occursIn_iff {part s : List Char} : occursIn part s = true ↔ ∃ a b, s = a ++ (part ++ b) := by
  constructor
  · intro occurs
    induction s with
    | nil =>
      obtain ⟨rest, whole⟩ := exists_of_startsWith (s := []) occurs
      exact ⟨[], rest, whole⟩
    | cons c s ih =>
      rw [occursIn_cons, Bool.or_eq_true] at occurs
      rcases occurs with starts | later
      · obtain ⟨rest, whole⟩ := exists_of_startsWith starts
        exact ⟨[], rest, whole⟩
      · obtain ⟨a, b, rfl⟩ := ih later
        exact ⟨c :: a, b, rfl⟩
  · rintro ⟨a, b, rfl⟩
    exact occursIn_append_right (occursIn_of_startsWith (startsWith_self_append part b)) a

/-- A text does not occur across a character that is not in it. -/
theorem occursIn_append_cons {part : List Char} {c : Char} (absent : c ∉ part) (a b : List Char) :
    occursIn part (a ++ c :: b) = (occursIn part a || occursIn part b) := by
  rw [Bool.eq_iff_iff, Bool.or_eq_true]
  constructor
  · intro occurs
    obtain ⟨u, v, whole⟩ := occursIn_iff.mp occurs
    rw [← List.append_assoc] at whole
    rcases List.append_eq_append_iff.mp whole with ⟨z, inside, rest⟩ | ⟨z, inside, -⟩
    · rcases List.cons_eq_append_iff.mp rest with ⟨rfl, -⟩ | ⟨z, rfl, later⟩
      · exact .inl (occursIn_iff.mpr ⟨u, [], by simpa using inside.symm⟩)
      · rcases List.append_eq_append_iff.mp inside with ⟨w, -, behind⟩ | ⟨w, -, behind⟩
        · exact absurd (behind ▸ List.mem_append_right w List.mem_cons_self) absent
        · rcases List.cons_eq_append_iff.mp behind with ⟨-, here⟩ | ⟨w, -, cut⟩
          · exact absurd (here ▸ List.mem_cons_self) absent
          · exact .inr (occursIn_iff.mpr ⟨w, v, by rw [later, cut, List.append_assoc]⟩)
    · exact .inl (occursIn_iff.mpr ⟨u, z, by rw [inside, List.append_assoc]⟩)
  · rintro (before | behind)
    · exact occursIn_append_left before _
    · have onward := occursIn_append_right behind (a ++ [c])
      rwa [List.append_assoc] at onward

theorem splitOn_cons_self (separator : Char) (s : List Char) :
    splitOn separator (separator :: s) = [] :: splitOn separator s := by
  rw [splitOn, List.foldr_cons, if_pos rfl, ← splitOn]

/-- Any other character belongs to the first part. -/
theorem splitOn_cons_of_ne {separator c : Char} (other : c ≠ separator) {s part : List Char}
    {later : List (List Char)} (parts : splitOn separator s = part :: later) :
    splitOn separator (c :: s) = (c :: part) :: later := by
  rw [splitOn, List.foldr_cons, ← splitOn, parts, if_neg other]

theorem splitOn_of_not_mem {separator : Char} {s : List Char} (absent : separator ∉ s) :
    splitOn separator s = [s] := by
  induction s with
  | nil => rfl
  | cons c s ih =>
    obtain ⟨other, later⟩ := List.ne_and_not_mem_of_not_mem_cons absent
    exact splitOn_cons_of_ne (Ne.symm other) (ih later)

/-- A separator divides a text, whatever separators there are before it. -/
theorem splitOn_append_cons (separator : Char) (a b : List Char) :
    splitOn separator (a ++ separator :: b) = splitOn separator a ++ splitOn separator b := by
  induction a with
  | nil => exact splitOn_cons_self separator b
  | cons c a ih =>
    by_cases same : c = separator
    · rw [same, List.cons_append, splitOn_cons_self, ih, splitOn_cons_self, List.cons_append]
    · obtain ⟨part, later, parts⟩ := List.exists_cons_of_ne_nil (splitOn_ne_nil separator a)
      rw [parts] at ih
      rw [splitOn_cons_of_ne same parts]
      exact splitOn_cons_of_ne same ih

theorem splitOn_append {separator : Char} {a : List Char} (absent : separator ∉ a) (b : List Char) :
    splitOn separator (a ++ separator :: b) = a :: splitOn separator b := by
  rw [splitOn_append_cons, splitOn_of_not_mem absent, List.singleton_append]

theorem intercalate_cons_cons (separator : Char) (part next : List Char) (later : List (List Char)) :
    [separator].intercalate (part :: next :: later) =
      part ++ separator :: [separator].intercalate (next :: later) := by
  rw [List.intercalate_cons_cons, List.append_assoc, List.singleton_append]

theorem intercalate_splitOn (separator : Char) (s : List Char) :
    [separator].intercalate (splitOn separator s) = s := by
  induction s with
  | nil => rfl
  | cons c s ih =>
    obtain ⟨part, later, parts⟩ := List.exists_cons_of_ne_nil (splitOn_ne_nil separator s)
    rw [parts] at ih
    by_cases same : c = separator
    · rw [same, splitOn_cons_self, parts, intercalate_cons_cons, ih, List.nil_append]
    · rw [splitOn_cons_of_ne same parts, List.intercalate_cons_cons_left, ih]

theorem splitOn_inj {separator : Char} {s t : List Char}
    (same : splitOn separator s = splitOn separator t) : s = t := by
  rw [← intercalate_splitOn separator s, same, intercalate_splitOn]

/-- Parts without a separator are told apart by the separators between them. -/
theorem splitOn_intercalate {separator : Char} {parts : List (List Char)} (nonempty : parts ≠ [])
    (free : ∀ part ∈ parts, separator ∉ part) :
    splitOn separator ([separator].intercalate parts) = parts := by
  induction parts with
  | nil => exact absurd rfl nonempty
  | cons part later ih =>
    obtain ⟨first, others⟩ := List.forall_mem_cons.mp free
    cases later with
    | nil =>
      rw [List.intercalate_singleton]
      exact splitOn_of_not_mem first
    | cons next later =>
      have onward := ih (List.cons_ne_nil next later) others
      rw [intercalate_cons_cons, splitOn_append first, onward]

end SymbolIndex.Text
