import Grammatic.Proofs.Pattern.Spans

/-!
# Patterns that prefer their longest match

Greedy matching is not longest matching: a sequence prefers the longest match of its first part, and what is behind
it may then match less than it would elsewhere. But it prefers the longest of all if the second part cannot make
good behind a shorter match what the first part has lost (`PrefersLongest.seq`). A run of characters does, and an
optional part if what it is around does.
-/

namespace Grammatic

namespace Pattern

/-- Whatever else a pattern can match at a text, what it prefers is as long. -/
def PrefersLongest (flags : Flags) (p : Pattern) : Prop :=
  ∀ ⦃text count most⦄, count ∈ p.lengths flags text → p.first flags text = some most → count ≤ most

variable {flags : Flags} {p q : Pattern} {test : List Char → Bool} {text : List Char} {c : Char} {count most : Nat}

theorem mem_of_first (preferred : p.first flags text = some most) : most ∈ p.lengths flags text :=
  List.mem_of_mem_head? preferred

/-- What can match at all prefers a match. -/
theorem exists_first (mem : count ∈ p.lengths flags text) : ∃ most, p.first flags text = some most := by
  cases all : p.lengths flags text with
  | nil =>
    rw [all] at mem
    cases mem
  | cons most others => exact ⟨most, by rw [first, all]; rfl⟩

/-- A pattern that takes something has no match where it cannot begin. -/
theorem lengths_eq_nil_of_not_opens (plain : p.isPlain = true) (least : 0 < p.leastLength)
    (closed : p.opens flags c = false) : p.lengths flags (c :: text) = [] :=
  List.head?_eq_none_iff.mp (first_eq_none_of_not_opens plain least closed)

/-- What a pattern that takes something matches begins with a character that it can begin with. -/
theorem opens_of_mem_lengths (plain : p.isPlain = true) (least : 0 < p.leastLength)
    (mem : count ∈ p.lengths flags (c :: text)) : p.opens flags c = true := by
  refine Bool.of_not_eq_false fun closed => ?_
  rw [lengths_eq_nil_of_not_opens plain least closed] at mem
  cases mem

theorem mem_both {first second : List Char → List Nat} :
    count ∈ both first second text ↔ ∃ here ∈ first text, ∃ more ∈ second (text.drop here), here + more = count := by
  simp [both]

/-! ## One character and many -/

/-- What takes one character takes one, and the text passes its test. -/
theorem Steps.of_mem (steps : Steps flags p test) (mem : count ∈ p.lengths flags text) :
    count = 1 ∧ test text = true := by
  rw [steps text] at mem
  split at mem
  next passes => exact ⟨List.mem_singleton.mp mem, passes⟩
  next => cases mem

theorem PrefersLongest.of_steps (steps : Steps flags p test) : PrefersLongest flags p := by
  intro text count most mem preferred
  exact Nat.le_of_eq ((steps.of_mem mem).1.trans (steps.of_mem (mem_of_first preferred)).1.symm)

/-- Rounds of one character go no further than the characters pass the test. -/
theorem Steps.le_runLength (steps : Steps flags p test) (ends : test [] = false) {budget : Nat}
    (mem : count ∈ lengthsOfMore (p.lengths flags) true budget none text) : count ≤ runLength test text := by
  induction budget generalizing text count with
  | zero =>
    rw [List.mem_singleton.mp mem]
    exact Nat.zero_le _
  | succ budget ih =>
    rw [lengthsOfMore, if_pos rfl, if_neg (Option.some_ne_none 0).symm] at mem
    rcases List.mem_append.mp mem with mem | mem
    · obtain ⟨here, once, mem⟩ := List.mem_flatMap.mp mem
      obtain ⟨more, further, rfl⟩ := List.mem_map.mp mem
      obtain ⟨rfl, passes⟩ := steps.of_mem once
      rw [if_neg Nat.one_ne_zero] at further
      cases text with
      | nil => cases ends.symm.trans passes
      | cons c text =>
        have le := ih further
        rw [runLength, if_pos passes]
        simp only [List.drop_succ_cons, List.drop_zero] at le
        omega
    · rw [List.mem_singleton.mp mem]
      exact Nat.zero_le _

/-- Behind fewer characters than pass the test the next one passes it. -/
theorem test_of_lt_runLength (less : count < runLength test text) : test (text.drop count) = true := by
  induction text generalizing count with
  | nil => cases less
  | cons c text ih =>
    rw [runLength] at less
    split at less
    next passes =>
      cases count with
      | zero => exact passes
      | succ count => exact ih (Nat.lt_of_succ_lt_succ less)
    next => cases less

theorem PrefersLongest.repeated (steps : Steps flags p test) (ends : test [] = false) :
    PrefersLongest flags (.repeated true 0 none p) := by
  intro text count most mem preferred
  obtain rfl := Option.some.inj ((first_repeated steps ends).symm.trans preferred)
  obtain ⟨here, start, more, further, rfl⟩ := mem_both.mp mem
  obtain rfl := List.mem_singleton.mp start
  rw [Nat.zero_add]
  exact steps.le_runLength ends further

theorem PrefersLongest.repeated_one (steps : Steps flags p test) (ends : test [] = false) :
    PrefersLongest flags (.repeated true 1 none p) := by
  intro text count most mem preferred
  rw [first_repeated_one steps ends] at preferred
  split at preferred
  next passes =>
    obtain rfl := Option.some.inj preferred
    obtain ⟨here, required, more, further, rfl⟩ := mem_both.mp mem
    obtain ⟨one, once, rest, done, rfl⟩ := mem_both.mp required
    obtain ⟨rfl, -⟩ := steps.of_mem once
    obtain rfl := List.mem_singleton.mp done
    exact Nat.add_le_add_left (steps.le_runLength ends further) 1
  next => cases preferred

/-! ## Optional parts and sequences -/

theorem lengths_optional : (repeated true 0 (some 1) p).lengths flags text = p.lengths flags text ++ [0] := by
  -- after one round the limit is reached
  have last (budget : Nat) (text : List Char) : lengthsOfMore (p.lengths flags) true budget (some 0) text = [0] := by
    cases budget <;> rfl
  simp [lengths, both, lengthsOfRounds, lengthsOfMore, last]

theorem PrefersLongest.optional (longest : PrefersLongest flags p) :
    PrefersLongest flags (.repeated true 0 (some 1) p) := by
  intro text count most mem preferred
  rw [first, lengths_optional] at preferred
  rw [lengths_optional] at mem
  rcases List.mem_append.mp mem with mem | mem
  · obtain ⟨most', isFirst⟩ := exists_first mem
    rw [List.head?_append, ← first, isFirst] at preferred
    obtain rfl := Option.some.inj preferred
    exact longest mem isFirst
  · rw [List.mem_singleton.mp mem]
    exact Nat.zero_le _

/-- What an optional part prefers, if it is something, is what the part prefers. -/
theorem first_of_first_optional (preferred : (repeated true 0 (some 1) p).first flags text = some most)
    (some' : 0 < most) : p.first flags text = some most := by
  rw [first, lengths_optional] at preferred
  rw [first]
  cases all : p.lengths flags text with
  | nil =>
    rw [all] at preferred
    obtain rfl := Option.some.inj preferred
    exact absurd some' (Nat.lt_irrefl _)
  | cons first others =>
    rw [all] at preferred
    exact preferred

theorem mem_optional : count ∈ (repeated true 0 (some 1) p).lengths flags text ↔
    count ∈ p.lengths flags text ∨ count = 0 := by
  rw [lengths_optional, List.mem_append, List.mem_singleton]

/-- An optional part takes nothing where it cannot begin. -/
theorem eq_zero_of_mem_optional (plain : p.isPlain = true) (least : 0 < p.leastLength)
    (closed : p.opens flags c = false) (mem : count ∈ (repeated true 0 (some 1) p).lengths flags (c :: text)) :
    count = 0 := by
  refine (mem_optional.mp mem).resolve_left fun mem => ?_
  cases closed.symm.trans (opens_of_mem_lengths plain least mem)

/-- An optional character is passed over only where it stands. -/
theorem Steps.of_passed (steps : Steps flags p test)
    (preferred : (repeated true 0 (some 1) p).first flags text = some most) (less : count < most) :
    count = 0 ∧ most = 1 ∧ test text = true := by
  obtain ⟨rfl, passes⟩ := steps.of_mem (mem_of_first (first_of_first_optional preferred (Nat.zero_lt_of_lt less)))
  exact ⟨Nat.lt_one_iff.mp less, rfl, passes⟩

theorem first_seq_eq {more : Nat} (preferred : p.first flags text = some most)
    (behind : q.first flags (text.drop most) = some more) : (seq p q).first flags text = some (most + more) := by
  obtain ⟨counts, isFirst⟩ := List.head?_eq_some_iff.mp preferred
  obtain ⟨counts', isSecond⟩ := List.head?_eq_some_iff.mp behind
  rw [first, lengths, both, isFirst, List.flatMap_cons, isSecond]
  rfl

/-- A sequence prefers its longest match, if the second part behind a shorter match of the first one comes no further
than the longest match of the first one, and can only match there if it can match behind that, too. -/
theorem PrefersLongest.seq (longest : PrefersLongest flags p) (longest' : PrefersLongest flags q)
    (blocked : ∀ {text count most more}, p.first flags text = some most → count ∈ p.lengths flags text →
      count < most → more ∈ q.lengths flags (text.drop count) →
        count + more ≤ most ∧ ∃ more, q.first flags (text.drop most) = some more) :
    PrefersLongest flags (.seq p q) := by
  intro text total most mem preferred
  obtain ⟨here, mem', more, further, rfl⟩ := mem_both.mp mem
  obtain ⟨most', isFirst⟩ := exists_first mem'
  have le := longest mem' isFirst
  by_cases less : here < most'
  · obtain ⟨within, more', behind⟩ := blocked isFirst mem' less further
    obtain rfl := Option.some.inj ((first_seq_eq isFirst behind).symm.trans preferred)
    omega
  · obtain rfl : here = most' := Nat.le_antisymm le (Nat.le_of_not_lt less)
    obtain ⟨more', behind⟩ := exists_first further
    obtain rfl := Option.some.inj ((first_seq_eq isFirst behind).symm.trans preferred)
    exact Nat.add_le_add_left (longest' further behind) here

/-- Behind a pattern that takes one character the longest match of the second part is taken. -/
theorem PrefersLongest.seq_of_steps (steps : Steps flags p test) (longest : PrefersLongest flags q) :
    PrefersLongest flags (.seq p q) := by
  refine PrefersLongest.seq (.of_steps steps) longest fun {text count most more} preferred mem less _ => ?_
  have same := (steps.of_mem mem).1.trans (steps.of_mem (mem_of_first preferred)).1.symm
  exact absurd same (Nat.ne_of_lt less)

end Pattern

end Grammatic
