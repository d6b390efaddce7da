/-!
# Sets of strings

Finite sets of strings, kept as strictly increasing lists by the order of code points. Two sets with
the same members are equal, and the list of a set is the order in which messages name its members.
-/

namespace Grammatic

/-- A finite set of strings. -/
structure StringSet where
  /-- The members in increasing order. -/
  toList : List String
  increasing : toList.Pairwise (· < ·) := by decide
  deriving DecidableEq, Repr

namespace StringSet

instance : Inhabited StringSet := ⟨[], .nil⟩

/-- The set without members. -/
def empty : StringSet := ⟨[], .nil⟩

/-- Puts a string into an increasing list, at its place. -/
def place (s : String) : List String → List String
  | [] => [s]
  | t :: rest => if s < t then s :: t :: rest else if s = t then t :: rest else t :: place s rest

theorem mem_place {s x : String} {list : List String} : x ∈ place s list ↔ x = s ∨ x ∈ list := by
  induction list with
  | nil => simp [place]
  | cons t rest ih =>
    unfold place
    split
    · simp
    · split
      · next h => subst h; simp
      · simp [ih]; grind

theorem increasing_place {s : String} {list : List String} (h : list.Pairwise (· < ·)) :
    (place s list).Pairwise (· < ·) := by
  induction list with
  | nil => simp [place]
  | cons t rest ih =>
    have below : ∀ x ∈ rest, t < x := fun x hx => (List.pairwise_cons.mp h).1 x hx
    unfold place
    split
    · next hst =>
      exact List.pairwise_cons.mpr ⟨fun x hx => by
        rcases List.mem_cons.mp hx with rfl | hx
        · exact hst
        · exact String.lt_trans hst (below x hx), h⟩
    · split
      · exact h
      · next hst hne =>
        refine List.pairwise_cons.mpr ⟨fun x hx => ?_, ih (List.pairwise_cons.mp h).2⟩
        rcases mem_place.mp hx with rfl | hx
        · exact Std.lt_of_le_of_ne hst (Ne.symm hne)
        · exact below x hx

/-- Increasing lists with the same members are equal: their heads are the least members. -/
theorem eq_of_increasing {xs ys : List String} (hx : xs.Pairwise (· < ·))
    (hy : ys.Pairwise (· < ·)) (same : ∀ s, s ∈ xs ↔ s ∈ ys) : xs = ys := by
  induction xs generalizing ys with
  | nil =>
    exact (List.eq_nil_iff_forall_not_mem.mpr fun s hs => by simpa using (same s).mpr hs).symm
  | cons x xs ih =>
    cases ys with
    | nil => exact absurd ((same x).mp List.mem_cons_self) List.not_mem_nil
    | cons y ys =>
      obtain ⟨belowX, hxs⟩ := List.pairwise_cons.mp hx
      obtain ⟨belowY, hys⟩ := List.pairwise_cons.mp hy
      have heads : x = y := by
        rcases List.mem_cons.mp ((same x).mp List.mem_cons_self) with h | hxy
        · exact h
        rcases List.mem_cons.mp ((same y).mpr List.mem_cons_self) with h | hyx
        · exact h.symm
        exact absurd (belowX y hyx) (String.lt_asymm (belowY x hxy))
      subst heads
      have notX : ∀ s ∈ xs, s ≠ x := fun s hs e => String.lt_irrefl x (e ▸ belowX s hs)
      have notY : ∀ s ∈ ys, s ≠ x := fun s hs e => String.lt_irrefl x (e ▸ belowY s hs)
      have tails : xs = ys := ih hxs hys fun s => by
        have := same s
        simp only [List.mem_cons] at this
        exact ⟨fun hs => (this.mp (.inr hs)).resolve_left (notX s hs),
          fun hs => (this.mpr (.inr hs)).resolve_left (notY s hs)⟩
      rw [tails]

/-- Puts a string into a set. -/
def insert (set : StringSet) (s : String) : StringSet :=
  ⟨place s set.toList, increasing_place set.increasing⟩

/-- The set of the strings in a list. -/
def ofList (list : List String) : StringSet :=
  list.foldl insert empty

/-- The set of the one-character strings of a text. -/
def ofCharacters (text : String) : StringSet :=
  ofList (text.toList.map Char.toString)

/-- The strings that are in either of two sets. -/
def union (a b : StringSet) : StringSet :=
  b.toList.foldl insert a

/-- Whether a string is in a set. -/
def contains (set : StringSet) (s : String) : Bool :=
  set.toList.contains s

/-- Whether a set has no members. -/
def isEmpty (set : StringSet) : Bool :=
  set.toList.isEmpty

instance : Membership String StringSet := ⟨fun set s => s ∈ set.toList⟩

@[simp] theorem mem_toList {set : StringSet} {s : String} : s ∈ set.toList ↔ s ∈ set := Iff.rfl

@[simp] theorem not_mem_empty (s : String) : s ∉ empty := List.not_mem_nil

@[simp] theorem contains_iff {set : StringSet} {s : String} : set.contains s = true ↔ s ∈ set := by
  simp [contains]

@[simp] theorem mem_insert {set : StringSet} {s x : String} :
    x ∈ set.insert s ↔ x = s ∨ x ∈ set :=
  mem_place

theorem mem_foldl_insert {list : List String} {set : StringSet} {x : String} :
    x ∈ list.foldl insert set ↔ x ∈ set ∨ x ∈ list := by
  induction list generalizing set with
  | nil => simp
  | cons s rest ih => simp [ih]; grind

@[simp] theorem mem_ofList {list : List String} {x : String} : x ∈ ofList list ↔ x ∈ list := by
  simp [ofList, mem_foldl_insert]

@[simp] theorem mem_union {a b : StringSet} {x : String} : x ∈ a.union b ↔ x ∈ a ∨ x ∈ b := by
  simp [union, mem_foldl_insert]

/-- Sets with the same members are equal. -/
theorem eq_of_mem_iff {a b : StringSet} (same : ∀ s, s ∈ a ↔ s ∈ b) : a = b := by
  obtain ⟨xs, hx⟩ := a
  obtain ⟨ys, hy⟩ := b
  simp only [StringSet.mk.injEq]
  exact eq_of_increasing hx hy same

end StringSet

end Grammatic
