import Grammatic.Proofs.Pattern.Matching

/-!
# What patterns prefer

Of several alternatives the first is taken that leads to a match. An alternative that takes something, and
that cannot begin with the next character, leads to none, so it is passed over (`run_of_leads`). And a
greedy repetition of a set goes on to the end of the text, if the set contains all that is left and the
continuation succeeds there (`run_repeated_set`).

A choice of patterns matches as the first of them that does (`matchAt_choice`). For alternatives that are
groups this says which name is noted, because a group matches as what it is around (`matchAt_group`).
-/

namespace Grammatic

namespace Pattern

/-! ## The first alternative -/

/-- Whether a text that a pattern allows can begin with a character. -/
def opens (flags : Flags) (c : Char) : Pattern → Bool
  | .empty | .check _ | .ahead _ _ | .behind _ _ => false
  | .set s => s.contains flags c
  | .seq p q => p.opens flags c || (p.leastLength = 0 && q.opens flags c)
  | .alt p q => p.opens flags c || q.opens flags c
  | .group _ p | .repeated _ _ _ p | .atomic p => p.opens flags c
  | .under own p => p.opens own c

/-- Whether an alternative is the first that can begin with a character. -/
def leads (p : Pattern) (flags : Flags) (c : Char) (branch : Pattern) : Bool :=
  match p with
  | .alt p q => p = branch || (0 < p.leastLength && !p.opens flags c && q.leads flags c branch)
  | p => p = branch

variable {flags : Flags} {p branch : Pattern} {next : Continuation} {start result : Match} {c : Char}
  {rest text : List Char}

theorem exists_of_flatten_eq_cons {texts : List (List Char)} (same : texts.flatten = c :: text) :
    ∃ more, c :: more ∈ texts := by
  induction texts with
  | nil => cases same
  | cons first others ih =>
    cases first with
    | nil =>
      obtain ⟨more, mem⟩ := ih same
      exact ⟨more, List.mem_cons_of_mem _ mem⟩
    | cons d more =>
      obtain ⟨rfl, -⟩ := List.cons.inj same
      exact ⟨more, List.mem_cons_self⟩

theorem Allows.opens (allows : p.Allows flags (c :: text)) : p.opens flags c = true := by
  induction p generalizing flags text with
  | empty | check | ahead | behind => cases allows
  | set s =>
    obtain ⟨_, contains, same⟩ := allows
    obtain ⟨rfl, -⟩ := List.cons.inj same
    exact contains
  | seq p q ihp ihq =>
    obtain ⟨first, second, allows, allows', same⟩ := allows
    rw [Pattern.opens, Bool.or_eq_true, Bool.and_eq_true, decide_eq_true_eq]
    cases first with
    | nil =>
      obtain rfl : c :: text = second := same
      exact .inr ⟨Nat.le_zero.mp allows.leastLength_le, ihq allows'⟩
    | cons d more =>
      obtain ⟨rfl, -⟩ := List.cons.inj same
      exact .inl (ihp allows)
  | alt p q ihp ihq =>
    rw [Pattern.opens, Bool.or_eq_true]
    exact allows.imp ihp ihq
  | group _ p ih | atomic p ih | under _ p ih => exact ih allows
  | repeated greedy least most p ih =>
    obtain ⟨texts, -, -, all, same⟩ := allows
    obtain ⟨more, mem⟩ := exists_of_flatten_eq_cons same.symm
    exact ih (all _ mem)

/-- A pattern that takes something does not match where it cannot begin. -/
theorem run_eq_none_of_not_opens (least : 0 < p.leastLength) (closed : p.opens flags c = false)
    (begins : start.cursor.rest = c :: rest) : p.run flags next start = none := by
  cases ran : p.run flags next start with
  | none => rfl
  | some result =>
    obtain ⟨text, stop, takes, -⟩ := exists_of_run ran
    cases text with
    | nil => exact absurd takes.allows.leastLength_le (Nat.not_le.mpr least)
    | cons d more =>
      obtain ⟨rfl, -⟩ := List.cons.inj (begins.symm.trans takes.passes.1)
      cases closed.symm.trans takes.allows.opens

/-- A match of the first alternative that can begin with the next character is the match of all. -/
theorem run_of_leads (leads : p.leads flags c branch = true) (begins : start.cursor.rest = c :: rest)
    (ran : branch.run flags next start = some result) : p.run flags next start = some result := by
  induction p with
  | alt p q _ ihq =>
    simp only [Pattern.leads, Bool.or_eq_true, Bool.and_eq_true, decide_eq_true_eq,
      Bool.not_eq_true'] at leads
    rcases leads with rfl | ⟨⟨least, closed⟩, leads⟩
    · rw [run, ran]
      rfl
    · rw [run, run_eq_none_of_not_opens least closed begins]
      exact ihq leads
  | empty | set | check | seq | group | repeated | ahead | behind | atomic | under =>
    obtain rfl := of_decide_eq_true leads
    exact ran

/-! ## Greedy repetitions -/

/-- A set takes the next character if it contains it. -/
theorem run_set_cons {s : CharSet} {before : List Char} {position : Nat}
    {last : Option String} (contains : s.contains flags c = true) :
    run flags (.set s) next ⟨⟨before, c :: rest, position⟩, last⟩ =
      next ⟨⟨c :: before, rest, position + 1⟩, last⟩ := by
  simp only [run, Cursor.next?, contains, if_true]

theorem moreRounds_set {s : CharSet} {budget : Nat}
    (all : ∀ c ∈ start.cursor.rest, s.contains flags c = true)
    (enough : start.cursor.rest.length < budget)
    (done : next ⟨start.cursor.toEnd, start.lastGroup⟩ = some result) :
    moreRounds (run flags (.set s)) true next budget none start = some result := by
  obtain ⟨⟨before, rest, position⟩, last⟩ := start
  induction rest generalizing before position budget with
  | nil =>
    cases budget with
    | zero => cases enough
    | succ budget => exact done
  | cons c rest ih =>
    cases budget with
    | zero => cases enough
    | succ budget =>
      -- one more round is preferred to going on, and it leads to the end
      have contains : s.contains flags c = true := all c List.mem_cons_self
      have more : moreRounds (run flags (.set s)) true next budget none
          ⟨⟨c :: before, rest, position + 1⟩, last⟩ = some result := by
        apply ih
        · exact fun c mem => all c (List.mem_cons_of_mem _ mem)
        · exact Nat.lt_of_succ_lt_succ enough
        · rwa [Cursor.toEnd_next before]
      have moves : position + 1 ≠ position := Nat.succ_ne_self position
      simp only [moreRounds, run_set_cons contains, moves, reduceCtorEq, if_false, if_true,
        Option.map_none, more]
      rfl

/-- A greedy repetition of a set that contains all that is left goes to the end of the text. -/
theorem run_repeated_set {s : CharSet} (nonempty : start.cursor.rest ≠ [])
    (all : ∀ c ∈ start.cursor.rest, s.contains flags c = true)
    (done : next ⟨start.cursor.toEnd, start.lastGroup⟩ = some result) :
    (repeated true 1 none (.set s)).run flags next start = some result := by
  obtain ⟨⟨before, rest, position⟩, last⟩ := start
  obtain ⟨c, rest, rfl⟩ := List.exists_cons_of_ne_nil nonempty
  have contains : s.contains flags c = true := all c List.mem_cons_self
  simp only [run, rounds]
  apply (run_set_cons contains).trans
  apply moreRounds_set
  · exact fun c mem => all c (List.mem_cons_of_mem _ mem)
  · exact Nat.lt_succ_self _
  · rwa [Cursor.toEnd_next before]

/-! ## Choices of groups -/

section Maps

variable {round : Continuation → Continuation} {f : Match → Match}
  (maps : ∀ next start, round (fun reached => (next reached).map f) start = (round next start).map f)

include maps

/-- What can be changed behind one round can be changed behind a number of rounds. -/
theorem rounds_map (count : Nat) (next : Continuation) (start : Match) :
    rounds round count (fun reached => (next reached).map f) start = (rounds round count next start).map f := by
  induction count generalizing start with
  | zero => rfl
  | succ count ih => rw [rounds, rounds, funext ih, maps]

theorem moreRounds_map (greedy : Bool) (next : Continuation) (budget : Nat) (limit : Option Nat) (start : Match) :
    moreRounds round greedy (fun reached => (next reached).map f) budget limit start =
      (moreRounds round greedy next budget limit start).map f := by
  induction budget generalizing limit start with
  | zero => rfl
  | succ budget ih =>
    have another : (fun reached : Match =>
        if reached.cursor.position = start.cursor.position then (next reached).map f
        else moreRounds round greedy (fun reached => (next reached).map f) budget (limit.map (· - 1)) reached) =
        fun reached => (if reached.cursor.position = start.cursor.position then next reached
          else moreRounds round greedy next budget (limit.map (· - 1)) reached).map f := by
      funext reached
      split
      next => rfl
      next => exact ih _ reached
    simp only [moreRounds, another, maps, Option.orElse_eq_or]
    split <;> split <;> simp only [Option.map_or, Option.map_none]

end Maps

/-- A continuation that always goes on as another does can be changed behind the whole run. -/
theorem run_map (p : Pattern) (next : Continuation) (f : Match → Match) (start : Match) :
    p.run flags (fun reached => (next reached).map f) start = (p.run flags next start).map f := by
  induction p generalizing flags next start with
  | empty => rfl
  | set s =>
    simp only [run]
    split
    next => split <;> rfl
    next => rfl
  | check a =>
    simp only [run]
    split <;> rfl
  | seq p q ihp ihq => rw [run, run, funext (ihq next), ihp]
  | alt p q ihp ihq => rw [run, run, ihp, ihq, Option.orElse_eq_or, Option.orElse_eq_or, Option.map_or]
  | group name p ih => exact ih _ start
  | repeated greedy least most p ih => simp only [run, moreRounds_map ih, rounds_map ih]
  | ahead positive p | behind positive p =>
    cases positive <;> simp only [run] <;> split <;> rfl
  | atomic p => exact (Option.map_bind ..).symm
  | under own p ih => exact ih next start

/-- A group matches as the pattern in it, and notes its name. -/
theorem matchAt_group (name : Option String) (p : Pattern) (cursor : Cursor) :
    (group name p).matchAt flags cursor = (p.matchAt flags cursor).map fun found => ⟨found.cursor, name⟩ :=
  run_map p some (fun found => ⟨found.cursor, name⟩) _

/-- A choice matches as the first pattern that matches. -/
theorem matchAt_choice (patterns : List Pattern) (cursor : Cursor) :
    (choice patterns).matchAt flags cursor = patterns.findSome? fun p => p.matchAt flags cursor := by
  induction patterns with
  | nil => rfl
  | cons p rest ih =>
    rw [List.findSome?_cons]
    cases rest with
    | nil =>
      rw [choice, List.findSome?_nil]
      cases p.matchAt flags cursor <;> rfl
    | cons q rest =>
      rw [choice, matchAt, run, ← ih]
      · show Option.orElse (p.matchAt flags cursor) _ = _
        cases p.matchAt flags cursor <;> rfl
      · exact List.cons_ne_nil _ _

end Pattern

end Grammatic
