import Mathlib.Data.List.DropRight

/-!
Lists without the items at their two ends that a test drops, and texts taken apart into lines. What
is left of a list is known by what it does not begin or end with, and a line is known by the text
between two line feeds, but for a carriage return at its end.
-/

namespace TextLines

section

variable {Item : Type*}

def trim (drops : Item → Bool) (items : List Item) : List Item :=
  (items.dropWhile drops).rdropWhile drops

/-- Neither at the start nor at the end stands an item to drop. -/
structure Bare (drops : Item → Bool) (items : List Item) : Prop where
  first : ∀ item ∈ items.head?, drops item = false
  last : ∀ item ∈ items.getLast?, drops item = false

variable {drops : Item → Bool} {left middle right items : List Item}

theorem rdropWhile_append_of_all (all : ∀ item ∈ right, drops item = true) (items : List Item) :
    (items ++ right).rdropWhile drops = items.rdropWhile drops := by
  induction right using List.reverseRecOn with
  | nil => rw [List.append_nil]
  | append_singleton right item ih =>
      have lastDrops := all item (by simp)
      rw [← List.append_assoc, List.rdropWhile_concat_pos _ _ _ lastDrops]
      exact ih fun other member => all other (List.mem_append_left _ member)

theorem rdropWhile_of_last (last : ∀ item ∈ items.getLast?, drops item = false) :
    items.rdropWhile drops = items := by
  cases items using List.reverseRecOn with
  | nil => rfl
  | append_singleton rest item => exact List.rdropWhile_concat_neg _ _ _ (by simp [last item (by simp)])

theorem trim_between (bare : Bare drops middle) (leftDrops : ∀ item ∈ left, drops item = true)
    (rightDrops : ∀ item ∈ right, drops item = true) : trim drops (left ++ middle ++ right) = middle := by
  unfold trim
  rw [List.append_assoc, List.dropWhile_append_of_pos leftDrops]
  cases middle with
  | nil =>
      rw [List.nil_append, List.dropWhile_eq_nil_iff.mpr rightDrops]
      rfl
  | cons item rest =>
      have stays : (item :: rest ++ right).dropWhile drops = item :: rest ++ right :=
        List.dropWhile_cons_of_neg (by simp [bare.first item rfl])
      rw [stays, rdropWhile_append_of_all rightDrops, rdropWhile_of_last bare.last]

theorem bare_trim (drops : Item → Bool) (items : List Item) : Bare drops (trim drops items) := by
  constructor
  · intro item isFirst
    obtain ⟨rest, isTrimmed⟩ := List.head?_eq_some_iff.mp isFirst
    obtain ⟨dropped, isWhole⟩ := List.rdropWhile_prefix drops (items.dropWhile drops)
    have starts : items.dropWhile drops = item :: (rest ++ dropped) := by
      rw [← isWhole, ← List.cons_append, ← isTrimmed]
      rfl
    have kept := List.dropWhile_get_zero_not drops items (by simp [starts])
    simpa [starts] using kept
  · intro item isLast
    obtain ⟨nonempty, isItem⟩ := List.mem_getLast?_eq_getLast isLast
    have kept := List.rdropWhile_last_not drops (items.dropWhile drops) nonempty
    rw [Bool.not_eq_true] at kept
    exact isItem ▸ kept

theorem trim_eq_iff : trim drops items = middle ↔ Bare drops middle ∧ ∃ left right,
    items = left ++ middle ++ right ∧ (∀ item ∈ left, drops item = true) ∧
      ∀ item ∈ right, drops item = true := by
  constructor
  · rintro rfl
    refine ⟨bare_trim drops items, items.takeWhile drops, (items.dropWhile drops).rtakeWhile drops, ?_, ?_, ?_⟩
    · rw [trim, List.append_assoc, List.rdropWhile_append_rtakeWhile, List.takeWhile_append_dropWhile]
    · exact fun item member => List.mem_takeWhile_imp member
    · exact fun item member => List.mem_rtakeWhile_imp member
  · rintro ⟨bare, left, right, rfl, leftDrops, rightDrops⟩
    exact trim_between bare leftDrops rightDrops

theorem trim_append_of_all (all : ∀ item ∈ right, drops item = true) (items : List Item) :
    trim drops (items ++ right) = trim drops items := by
  obtain ⟨bare, start, finish, isWhole, startDrops, finishDrops⟩ := trim_eq_iff.mp (rfl : trim drops items = _)
  refine trim_eq_iff.mpr ⟨bare, start, finish ++ right, ?_, startDrops, ?_⟩
  · conv_lhs => rw [isWhole]
    rw [List.append_assoc]
  · intro item member
    exact (List.mem_append.mp member).elim (finishDrops item) (all item)

end

/-! Lines. -/

/-- A line that a line feed ends, with the carriage return before it taken off. -/
def endedLine (line : List Char) : List Char :=
  if line.getLast? = some '\r' then line.dropLast else line

def linesFrom (line : List Char) : List Char → List (List Char)
  | [] => if line.isEmpty then [] else [line]
  | char :: rest =>
      if char = '\n' then endedLine line :: linesFrom [] rest else linesFrom (line ++ [char]) rest

/-- Each line without the line feed, or the carriage return and line feed, that ends it. The last
line needs none. -/
def lines (text : List Char) : List (List Char) := linesFrom [] text

theorem endedLine_cases (line : List Char) : line = endedLine line ∨ line = endedLine line ++ ['\r'] := by
  unfold endedLine
  split
  · rename_i isReturn
    right
    exact (List.dropLast_append_getLast? '\r' isReturn).symm
  · exact Or.inl rfl

theorem modifyHead_nil_append (parts : List (List Char)) : parts.modifyHead ([] ++ ·) = parts := by
  cases parts <;> rfl

theorem mem_linesFrom_of_mem_splitOn {text : List Char} : ∀ {start line : List Char},
    line ∈ (text.splitOn '\n').modifyHead (start ++ ·) → line ≠ [] →
      ∃ read ∈ linesFrom start text, line = read ∨ line = read ++ ['\r'] := by
  induction text with
  | nil =>
      intro start line member nonempty
      rw [List.splitOn_nil, List.modifyHead_cons, List.append_nil, List.mem_singleton] at member
      subst member
      exact ⟨line, by simp [linesFrom, nonempty], Or.inl rfl⟩
  | cons char rest ih =>
      intro start line member nonempty
      rw [List.splitOn_cons_eq_if_modifyHead] at member
      by_cases isFeed : char = '\n'
      · simp only [isFeed, beq_self_eq_true, if_true, List.modifyHead_cons, List.append_nil,
          List.mem_cons] at member
        simp only [linesFrom, isFeed, if_true]
        rcases member with rfl | later
        · exact ⟨endedLine line, List.mem_cons_self, endedLine_cases line⟩
        · rw [← modifyHead_nil_append (rest.splitOn '\n')] at later
          obtain ⟨read, isRead, same⟩ := ih later nonempty
          exact ⟨read, List.mem_cons_of_mem _ isRead, same⟩
      · simp only [beq_iff_eq, isFeed, if_false, List.modifyHead_modifyHead] at member
        simp only [linesFrom, isFeed, if_false]
        refine ih ?_ nonempty
        simpa [Function.comp_def] using member

/-- Between two line feeds stands a line, perhaps with a carriage return, or nothing. -/
theorem mem_lines_of_mem_splitOn {text line : List Char} (member : line ∈ text.splitOn '\n')
    (nonempty : line ≠ []) : ∃ read ∈ lines text, line = read ∨ line = read ++ ['\r'] := by
  rw [← modifyHead_nil_append (text.splitOn '\n')] at member
  exact mem_linesFrom_of_mem_splitOn member nonempty

end TextLines
