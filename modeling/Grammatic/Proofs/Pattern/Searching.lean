import Grammatic.Proofs.Pattern.Matching

/-!
# Where patterns are found

`Pattern.search` passes over characters until a pattern matches. It finds the leftmost place at which the
pattern matches (`search_eq_some_iff`), the end of the text included, and nothing if there is none
(`search_eq_none_iff`).

The places of a text are those that are some number of characters behind its start (`Cursor.skip`).
-/

namespace Grammatic

namespace Cursor

/-- The place some number of characters further on. -/
def skip (cursor : Cursor) (count : Nat) : Cursor :=
  ⟨(cursor.rest.take count).reverse ++ cursor.before, cursor.rest.drop count, cursor.position + count⟩

/-- A place in a text, by its position. -/
def place (text : List Char) (position : Nat) : Cursor := (start text).skip position

variable {cursor : Cursor} {count more : Nat} {text : List Char} {position : Nat}

@[simp] theorem rest_skip : (cursor.skip count).rest = cursor.rest.drop count := rfl

@[simp] theorem position_skip : (cursor.skip count).position = cursor.position + count := rfl

@[simp] theorem skip_zero : cursor.skip 0 = cursor := by
  simp [skip]

theorem skip_succ (before : List Char) (c : Char) (rest : List Char) (position count : Nat) :
    Cursor.skip ⟨before, c :: rest, position⟩ (count + 1) =
      Cursor.skip ⟨c :: before, rest, position + 1⟩ count := by
  simp only [skip, List.take_succ_cons, List.drop_succ_cons, List.reverse_cons, List.append_assoc,
    List.singleton_append, Nat.add_right_comm _ 1, Nat.add_assoc]

theorem skip_skip : (cursor.skip count).skip more = cursor.skip (count + more) := by
  simp only [skip, List.take_add, List.reverse_append, List.append_assoc, List.drop_drop, Nat.add_assoc]

@[simp] theorem rest_place : (Cursor.place text position).rest = text.drop position := rfl

@[simp] theorem position_place : (Cursor.place text position).position = position := Nat.zero_add _

@[simp] theorem place_zero : Cursor.place text 0 = start text := skip_zero

theorem skip_place : (Cursor.place text position).skip count = Cursor.place text (position + count) :=
  skip_skip

end Cursor

namespace Pattern

variable {flags : Flags} {p : Pattern} {cursor : Cursor} {skipped : Nat} {found : Match}

/-- What is found is the leftmost match. -/
theorem search_eq_some_iff :
    p.search flags cursor = some (skipped, found) ↔ skipped ≤ cursor.rest.length ∧
      p.matchAt flags (cursor.skip skipped) = some found ∧
        ∀ earlier < skipped, p.matchAt flags (cursor.skip earlier) = none := by
  obtain ⟨before, rest, position⟩ := cursor
  unfold search
  induction rest generalizing before position skipped with
  | nil =>
    simp only [searchFrom, Option.map_eq_some_iff, Prod.mk.injEq, List.length_nil, Nat.le_zero]
    constructor
    · rintro ⟨_, matched, rfl, rfl⟩
      exact ⟨rfl, by rwa [Cursor.skip_zero], by simp⟩
    · rintro ⟨rfl, matched, -⟩
      rw [Cursor.skip_zero] at matched
      exact ⟨found, matched, rfl, rfl⟩
  | cons c rest ih =>
    simp only [searchFrom]
    cases matched : p.matchAt flags ⟨before, c :: rest, position⟩ with
    | some first =>
      simp only [Option.some.injEq, Prod.mk.injEq]
      constructor
      · rintro ⟨rfl, rfl⟩
        exact ⟨Nat.zero_le _, by rwa [Cursor.skip_zero], by simp⟩
      · rintro ⟨-, later, none⟩
        cases skipped with
        | zero =>
          rw [Cursor.skip_zero, matched] at later
          exact ⟨rfl, Option.some.inj later⟩
        | succ skipped =>
          have := none 0 (Nat.succ_pos _)
          rw [Cursor.skip_zero, matched] at this
          cases this
    | none =>
      simp only [Option.map_eq_some_iff, Prod.exists, Prod.mk.injEq]
      constructor
      · rintro ⟨count, _, searched, rfl, rfl⟩
        obtain ⟨within, later, none⟩ := (ih _ _).mp searched
        refine ⟨Nat.succ_le_succ within, by rwa [Cursor.skip_succ], ?_⟩
        intro earlier less
        cases earlier with
        | zero => rwa [Cursor.skip_zero]
        | succ earlier =>
          rw [Cursor.skip_succ]
          exact none earlier (Nat.lt_of_succ_lt_succ less)
      · rintro ⟨within, later, none⟩
        cases skipped with
        | zero =>
          rw [Cursor.skip_zero, matched] at later
          cases later
        | succ skipped =>
          refine ⟨skipped, found, (ih _ _).mpr ⟨Nat.le_of_succ_le_succ within, ?_, ?_⟩, rfl, rfl⟩
          · rwa [Cursor.skip_succ] at later
          · intro earlier less
            have := none (earlier + 1) (Nat.succ_lt_succ less)
            rwa [Cursor.skip_succ] at this

/-- Nothing is found if the pattern matches nowhere, not even at the end of the text. -/
theorem search_eq_none_iff :
    p.search flags cursor = none ↔
      ∀ count ≤ cursor.rest.length, p.matchAt flags (cursor.skip count) = none := by
  obtain ⟨before, rest, position⟩ := cursor
  unfold search
  induction rest generalizing before position with
  | nil =>
    simp only [searchFrom, Option.map_eq_none_iff, List.length_nil, Nat.le_zero, forall_eq,
      Cursor.skip_zero]
  | cons c rest ih =>
    simp only [searchFrom]
    cases matched : p.matchAt flags ⟨before, c :: rest, position⟩ with
    | some first =>
      simp only [reduceCtorEq, false_iff]
      intro none
      have := none 0 (Nat.zero_le _)
      rw [Cursor.skip_zero, matched] at this
      cases this
    | none =>
      rw [Option.map_eq_none_iff, ih]
      constructor
      · intro none count within
        cases count with
        | zero => rwa [Cursor.skip_zero]
        | succ count =>
          rw [Cursor.skip_succ]
          exact none count (Nat.le_of_succ_le_succ within)
      · intro none count within
        have := none (count + 1) (Nat.succ_le_succ within)
        rwa [Cursor.skip_succ] at this

/-- A match at a place ends behind it, and inside the text. -/
theorem position_of_matchAt (matched : p.matchAt flags cursor = some found) :
    cursor.position ≤ found.cursor.position ∧
      found.cursor.position ≤ cursor.position + cursor.rest.length := by
  obtain ⟨text, takes⟩ := takes_of_matchAt matched
  have length := congrArg List.length takes.passes.1
  rw [List.length_append] at length
  have := takes.passes.2
  simp only at this length
  omega

end Pattern

end Grammatic
