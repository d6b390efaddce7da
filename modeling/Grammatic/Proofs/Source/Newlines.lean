import Grammatic.Source.Lines

/-!
# Newlines and where they stand

The newlines of a list of characters, as the increasing list of their positions (`mem_newlinesFrom`,
`increasing_newlinesFrom`), and how many of them lie before a place (`countP_newlinesFrom`). In an increasing list
bisection counts the entries before a position (`countBefore_eq`).
-/

namespace Grammatic.Source

variable {source : Source} {chars text : List Char} {position place : Nat}

/-! ## Newlines of a list of characters -/

theorem newlinesFrom_append (chars more : List Char) (position : Nat) :
    newlinesFrom (chars ++ more) position =
      newlinesFrom chars position ++ newlinesFrom more (position + chars.length) := by
  induction chars generalizing position with
  | nil => rfl
  | cons c chars ih =>
    simp only [List.cons_append, newlinesFrom, ih, List.length_cons, Nat.add_right_comm _ 1, Nat.add_assoc]
    split <;> rfl

theorem mem_newlinesFrom :
    place ∈ newlinesFrom chars position ↔ position ≤ place ∧ chars[place - position]? = some '\n' := by
  induction chars generalizing position with
  | nil => simp [newlinesFrom]
  | cons c chars ih =>
    have later : place ∈ newlinesFrom chars (position + 1) ↔
        place ≠ position ∧ position ≤ place ∧ (c :: chars)[place - position]? = some '\n' := by
      rw [ih]
      constructor
      · rintro ⟨le, isNewline⟩
        obtain ⟨more, rfl⟩ := Nat.exists_eq_add_of_le le
        refine ⟨by omega, by omega, ?_⟩
        rwa [show position + 1 + more - position = more + 1 by omega, List.getElem?_cons_succ,
          ← show position + 1 + more - (position + 1) = more by omega]
      · rintro ⟨other, le, isNewline⟩
        obtain ⟨more, rfl⟩ := Nat.exists_eq_add_of_lt (Nat.lt_of_le_of_ne le other.symm)
        refine ⟨by omega, ?_⟩
        rwa [show position + more + 1 - position = more + 1 by omega, List.getElem?_cons_succ,
          ← show position + more + 1 - (position + 1) = more by omega] at isNewline
    by_cases newline : c = '\n'
    · rw [newlinesFrom, if_pos newline, List.mem_cons, later]
      by_cases here : place = position
      · simp [here, newline]
      · simp [here]
    · rw [newlinesFrom, if_neg newline, later]
      refine and_iff_right_of_imp ?_
      rintro ⟨-, isNewline⟩ rfl
      simp [newline] at isNewline

theorem increasing_newlinesFrom (chars : List Char) (position : Nat) :
    (newlinesFrom chars position).Pairwise (· < ·) := by
  induction chars generalizing position with
  | nil => exact .nil
  | cons c chars ih =>
    rw [newlinesFrom]
    split
    next => exact .cons (fun _ mem => (mem_newlinesFrom.mp mem).1) (ih _)
    next => exact ih _

theorem length_newlinesFrom (chars : List Char) (position : Nat) :
    (newlinesFrom chars position).length = chars.count '\n' := by
  induction chars generalizing position with
  | nil => rfl
  | cons c chars ih =>
    rw [newlinesFrom, List.count_cons]
    by_cases newline : c = '\n'
    · simp [newline, ih]
    · simp [newline, ih]

theorem length_newlinesBetween (first last : Nat) :
    (source.newlinesBetween first last).length = ((source.chars.take last).drop first).count '\n' :=
  length_newlinesFrom _ _

/-- The newlines up to a place and those behind it are the newlines up to the last place. -/
theorem newlinesFrom_take_append {first last : Nat} (le : first ≤ last) (within : first ≤ source.length) :
    newlinesFrom (source.chars.take first) 0 ++ source.newlinesBetween first last =
      newlinesFrom (source.chars.take last) 0 := by
  have whole := List.take_append_drop first (source.chars.take last)
  rw [List.take_take, Nat.min_eq_left le] at whole
  have length : (source.chars.take first).length = first := List.length_take_of_le within
  have split := newlinesFrom_append (source.chars.take first) ((source.chars.take last).drop first) 0
  rw [whole, length, Nat.zero_add] at split
  exact split.symm

/-- Newlines up to a place, told by those up to an earlier one. -/
theorem count_take {first last : Nat} (le : first ≤ last) :
    (text.take last).count '\n' = (text.take first).count '\n' + ((text.take last).drop first).count '\n' := by
  have whole := List.take_append_drop first (text.take last)
  rw [List.take_take, Nat.min_eq_left le] at whole
  rw [← List.count_append, whole]

theorem mem_newlinesFrom_take (text : List Char) (scanned place : Nat) :
    place ∈ newlinesFrom (text.take scanned) 0 ↔ place < scanned ∧ text[place]? = some '\n' := by
  rw [mem_newlinesFrom, Nat.sub_zero, List.getElem?_take]
  by_cases less : place < scanned <;> simp [less]

/-- The newlines before a place are those of the characters before it. -/
theorem countP_newlinesFrom (text : List Char) (place : Nat) :
    (newlinesFrom text 0).countP (· < place) = (text.take place).count '\n' := by
  have all : ∀ entry ∈ newlinesFrom (text.take place) 0, entry < place := by
    intro entry mem
    obtain ⟨-, isNewline⟩ := mem_newlinesFrom.mp mem
    have := (List.getElem?_eq_some_iff.mp isNewline).1
    rw [List.length_take] at this
    omega
  have none : ∀ entry ∈ newlinesFrom (text.drop place) (0 + (text.take place).length), ¬ entry < place := by
    intro entry mem less
    obtain ⟨behind, isNewline⟩ := mem_newlinesFrom.mp mem
    have := (List.getElem?_eq_some_iff.mp isNewline).1
    rw [List.length_take] at behind
    rw [List.length_drop] at this
    omega
  have split := newlinesFrom_append (text.take place) (text.drop place) 0
  rw [List.take_append_drop] at split
  rw [split, List.countP_append, List.countP_eq_length.mpr (by simpa using all),
    List.countP_eq_zero.mpr (by simpa using none), length_newlinesFrom, Nat.add_zero]

/-! ## Bisection -/

/-- Bisection finds the place behind the entries that lie before a position. -/
theorem searchBefore_eq {entries : Array Nat} {answer steps low high : Nat}
    (tells : ∀ i < entries.size, position ≤ entries[i]?.getD 0 ↔ answer ≤ i) (least : low ≤ answer)
    (most : answer ≤ high) (inside : high ≤ entries.size) (enough : high - low < steps) :
    searchBefore entries position steps low high = answer := by
  induction steps generalizing low high with
  | zero => cases enough
  | succ steps ih =>
    rw [searchBefore]
    by_cases more : low < high
    · rw [if_pos more]
      dsimp only
      split
      next behind => exact ih least ((tells _ (by omega)).mp behind) (by omega) (by omega)
      next before =>
        have := mt (tells _ (by omega)).mpr before
        exact ih (by omega) most inside (by omega)
    · rw [if_neg more]
      omega

/-- In an increasing list the entries before a position stand at its beginning. -/
theorem le_getD_iff_countP_le {entries : List Nat} (increasing : entries.Pairwise (· < ·)) (position : Nat) :
    ∀ i < entries.length, position ≤ entries[i]?.getD 0 ↔ entries.countP (· < position) ≤ i := by
  induction entries with
  | nil => simp
  | cons entry entries ih =>
    obtain ⟨behind, increasing⟩ := List.pairwise_cons.mp increasing
    intro i less
    have later (i : Nat) (less : i < entries.length) := ih increasing i less
    rw [List.countP_cons]
    by_cases before : entry < position
    · cases i with
      | zero => simp [before]
      | succ i => simpa [before] using later i (Nat.lt_of_succ_lt_succ less)
    · have none : entries.countP (· < position) = 0 := by
        rw [List.countP_eq_zero]
        intro other mem
        have := behind other mem
        simp only [decide_eq_true_eq]
        omega
      rw [none] at later ⊢
      cases i with
      | zero => simp [before, Nat.not_lt.mp before]
      | succ i => simpa [before] using later i (Nat.lt_of_succ_lt_succ less)

theorem countBefore_eq {entries : Array Nat} (increasing : entries.toList.Pairwise (· < ·)) (position : Nat) :
    countBefore entries position = entries.toList.countP (· < position) := by
  apply searchBefore_eq
  · simpa using le_getD_iff_countP_le increasing position
  · exact Nat.zero_le _
  · exact List.countP_le_length
  · exact Nat.le_refl _
  · exact Nat.lt_succ_self _

end Grammatic.Source
