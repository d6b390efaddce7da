import Grammatic.Pattern.Match

/-!
# What patterns match

A match of a pattern takes a stretch of the text, and that stretch is one that the pattern allows by its
form: the sets in their order, the rounds of a repetition as often as its bounds say (`Allows`). Looks
ahead and behind and assertions take nothing, and what they ask for is left out, so a pattern allows more
texts than it ever takes.

Patterns are run with continuations, so this is said of each run that succeeds: it has come to a place,
behind a text that is allowed, where the continuation has succeeded (`exists_of_run`). The induction is on
the pattern, and `Rounds` carries the rounds of a repetition.
-/

namespace Grammatic

/-- A place lies behind another, with a text between them. -/
def Cursor.Passes (start : Cursor) (text : List Char) (stop : Cursor) : Prop :=
  start.rest = text ++ stop.rest ∧ stop.position = start.position + text.length

theorem Cursor.Passes.trans {start middle stop : Cursor} {text text' : List Char}
    (first : start.Passes text middle) (second : middle.Passes text' stop) :
    start.Passes (text ++ text') stop := by
  obtain ⟨rest, position⟩ := first
  obtain ⟨rest', position'⟩ := second
  refine ⟨by rw [rest, rest', List.append_assoc], ?_⟩
  rw [position', position, List.length_append, Nat.add_assoc]

/-- The place at the end of the text. -/
def Cursor.toEnd (cursor : Cursor) : Cursor :=
  ⟨cursor.rest.reverse ++ cursor.before, [], cursor.position + cursor.rest.length⟩

/-- The end is the same from the next place on. -/
theorem Cursor.toEnd_next (before : List Char) (c : Char) (rest : List Char) (position : Nat) :
    Cursor.toEnd ⟨c :: before, rest, position + 1⟩ = Cursor.toEnd ⟨before, c :: rest, position⟩ := by
  simp only [toEnd, List.reverse_cons, List.append_assoc, List.singleton_append, List.length_cons,
    Nat.add_right_comm _ 1, Nat.add_assoc]

namespace Pattern

/-- The texts that the form of a pattern allows. -/
def Allows (flags : Flags) : Pattern → List Char → Prop
  | .empty, text | .check _, text | .ahead _ _, text | .behind _ _, text => text = []
  | .set s, text => ∃ c, s.contains flags c = true ∧ text = [c]
  | .seq p q, text => ∃ first second, p.Allows flags first ∧ q.Allows flags second ∧
      text = first ++ second
  | .alt p q, text => p.Allows flags text ∨ q.Allows flags text
  | .group _ p, text | .atomic p, text => p.Allows flags text
  | .under own p, text => p.Allows own text
  | .repeated _ least most p, text => ∃ texts : List (List Char), least ≤ texts.length ∧
      (∀ bound ∈ most, texts.length ≤ max least bound) ∧ (∀ part ∈ texts, p.Allows flags part) ∧
        text = texts.flatten

/-- The names of the groups of a pattern. -/
def labels : Pattern → List String
  | .empty | .set _ | .check _ => []
  | .seq p q | .alt p q => p.labels ++ q.labels
  | .group name p => name.toList ++ p.labels
  | .repeated _ _ _ p | .ahead _ p | .behind _ p | .atomic p | .under _ p => p.labels

/-- The length of the shortest texts that the form of a pattern allows, or a lower bound of it. -/
def leastLength : Pattern → Nat
  | .empty | .check _ | .ahead _ _ | .behind _ _ => 0
  | .set _ => 1
  | .seq p q => p.leastLength + q.leastLength
  | .alt p q => min p.leastLength q.leastLength
  | .group _ p | .atomic p | .under _ p => p.leastLength
  | .repeated _ least _ p => least * p.leastLength

theorem mul_le_length_flatten {texts : List (List Char)} {least : Nat}
    (all : ∀ text ∈ texts, least ≤ text.length) : texts.length * least ≤ texts.flatten.length := by
  induction texts with
  | nil => simp
  | cons text rest ih =>
    have first := all text List.mem_cons_self
    have others := ih fun other mem => all other (List.mem_cons_of_mem _ mem)
    rw [List.flatten_cons, List.length_append, List.length_cons, Nat.succ_mul]
    omega

theorem Allows.leastLength_le {flags : Flags} {p : Pattern} {text : List Char}
    (allows : p.Allows flags text) : p.leastLength ≤ text.length := by
  induction p generalizing flags text with
  | empty | check | ahead | behind => exact Nat.zero_le _
  | set s =>
    obtain ⟨c, -, rfl⟩ := allows
    exact Nat.le_refl _
  | seq p q ihp ihq =>
    obtain ⟨first, second, allows, allows', rfl⟩ := allows
    rw [List.length_append]
    exact Nat.add_le_add (ihp allows) (ihq allows')
  | alt p q ihp ihq =>
    rcases allows with allows | allows
    · exact Nat.le_trans (Nat.min_le_left _ _) (ihp allows)
    · exact Nat.le_trans (Nat.min_le_right _ _) (ihq allows)
  | group _ p ih | atomic p ih | under _ p ih => exact ih allows
  | repeated greedy least most p ih =>
    obtain ⟨texts, atLeast, -, all, rfl⟩ := allows
    exact Nat.le_trans (Nat.mul_le_mul_right _ atLeast)
      (mul_le_length_flatten fun part mem => ih (all part mem))

/-- What one round at most allows is nothing, or what a round allows. -/
theorem Allows.optional_cases {flags : Flags} {greedy : Bool} {p : Pattern} {text : List Char}
    (allows : (repeated greedy 0 (some 1) p).Allows flags text) : text = [] ∨ p.Allows flags text := by
  obtain ⟨texts, -, few, all, rfl⟩ := allows
  have few : texts.length ≤ 1 := few 1 rfl
  match texts, few with
  | [], _ => exact .inl rfl
  | [part], _ =>
    right
    rw [List.flatten_singleton]
    exact all part List.mem_cons_self

/-- A pattern takes a text that it allows. The name that is noted behind it is that of one of its groups,
unless it was noted before. -/
structure Takes (flags : Flags) (p : Pattern) (text : List Char) (start stop : Match) : Prop where
  passes : start.cursor.Passes text stop.cursor
  allows : p.Allows flags text
  label : ∀ name, stop.lastGroup = some name → start.lastGroup = some name ∨ name ∈ p.labels

/-- Rounds of a pattern, one behind the other, and the texts that they take. -/
inductive Rounds (flags : Flags) (p : Pattern) : List (List Char) → Match → Match → Prop
  | none {m : Match} : Rounds flags p [] m m
  | round {text : List Char} {texts : List (List Char)} {start middle stop : Match}
      (takes : p.Takes flags text start middle) (more : Rounds flags p texts middle stop) :
      Rounds flags p (text :: texts) start stop

section Runs

variable {flags : Flags} {p : Pattern} {next : Continuation} {start stop result : Match}
  {texts texts' : List (List Char)}

theorem Rounds.append {middle : Match} (first : Rounds flags p texts start middle)
    (second : Rounds flags p texts' middle stop) : Rounds flags p (texts ++ texts') start stop := by
  induction first with
  | none => exact second
  | round takes _ ih => exact .round takes (ih second)

theorem Rounds.parts (rounds : Rounds flags p texts start stop) :
    start.cursor.Passes texts.flatten stop.cursor ∧ (∀ text ∈ texts, p.Allows flags text) ∧
      ∀ name, stop.lastGroup = some name → start.lastGroup = some name ∨ name ∈ p.labels := by
  induction rounds with
  | none => exact ⟨⟨rfl, rfl⟩, by simp, fun _ same => .inl same⟩
  | round takes _ ih =>
    obtain ⟨passes, allowed, label⟩ := ih
    refine ⟨takes.passes.trans passes, ?_, ?_⟩
    · intro part mem
      rcases List.mem_cons.mp mem with rfl | mem
      · exact takes.allows
      · exact allowed part mem
    · intro name same
      rcases label name same with same | mem
      · exact takes.label name same
      · exact .inr mem

/-- What takes no text leaves the place, and may have noted a group on the way. -/
theorem Takes.nothing {last : Option String} (allows : p.Allows flags [])
    (label : ∀ name, last = some name → start.lastGroup = some name ∨ name ∈ p.labels) :
    p.Takes flags [] start ⟨start.cursor, last⟩ :=
  ⟨⟨rfl, rfl⟩, allows, label⟩

theorem Takes.stays (allows : p.Allows flags []) : p.Takes flags [] start start :=
  .nothing allows fun _ same => .inl same

theorem Takes.seq {q : Pattern} {middle : Match} {text text' : List Char} (first : p.Takes flags text start middle)
    (second : q.Takes flags text' middle stop) : (Pattern.seq p q).Takes flags (text ++ text') start stop := by
  refine ⟨first.passes.trans second.passes, ⟨text, text', first.allows, second.allows, rfl⟩, fun name same => ?_⟩
  rw [labels, List.mem_append]
  rcases second.label name same with same | mem
  · exact (first.label name same).imp_right .inl
  · exact .inr (.inr mem)

theorem Takes.alt_left {q : Pattern} {text : List Char} (takes : p.Takes flags text start stop) :
    (Pattern.alt p q).Takes flags text start stop :=
  ⟨takes.passes, .inl takes.allows, fun name same => (takes.label name same).imp_right (List.mem_append_left _)⟩

theorem Takes.alt_right {q : Pattern} {text : List Char} (takes : q.Takes flags text start stop) :
    (Pattern.alt p q).Takes flags text start stop :=
  ⟨takes.passes, .inr takes.allows, fun name same => (takes.label name same).imp_right (List.mem_append_right _)⟩

theorem Takes.group {name : Option String} {text : List Char} (takes : p.Takes flags text start stop) :
    (Pattern.group name p).Takes flags text start ⟨stop.cursor, name⟩ := by
  refine ⟨takes.passes, takes.allows, ?_⟩
  rintro _ rfl
  exact .inr List.mem_cons_self

/-- As many rounds as the bounds of a repetition say are what it takes. -/
theorem Rounds.takes {greedy : Bool} {least : Nat} {most : Option Nat} (rounds : Rounds flags p texts start stop)
    (atLeast : least ≤ texts.length) (atMost : ∀ bound ∈ most, texts.length ≤ max least bound) :
    (Pattern.repeated greedy least most p).Takes flags texts.flatten start stop := by
  obtain ⟨passes, allowed, label⟩ := rounds.parts
  exact ⟨passes, ⟨texts, atLeast, atMost, allowed, rfl⟩, label⟩

/-- Where a way to run one round comes to a place behind a text that the pattern takes, a number of rounds
does. -/
theorem exists_of_rounds {round : Continuation → Continuation}
    (sound : ∀ {next start result}, round next start = some result →
      ∃ text stop, p.Takes flags text start stop ∧ next stop = some result) {n : Nat}
    (ran : rounds round n next start = some result) :
    ∃ texts stop, texts.length = n ∧ Rounds flags p texts start stop ∧ next stop = some result := by
  induction n generalizing start with
  | zero => exact ⟨[], start, rfl, .none, ran⟩
  | succ n ih =>
    obtain ⟨text, middle, takes, ran⟩ := sound ran
    obtain ⟨texts, stop, length, more, done⟩ := ih ran
    exact ⟨text :: texts, stop, by rw [List.length_cons, length], .round takes more, done⟩

theorem orElse_cases {first : Option Match} {other : Unit → Option Match}
    (found : first.orElse other = some result) : first = some result ∨ other () = some result := by
  cases first with
  | none => exact .inr found
  | some _ => exact .inl found

theorem exists_of_moreRounds {round : Continuation → Continuation}
    (sound : ∀ {next start result}, round next start = some result →
      ∃ text stop, p.Takes flags text start stop ∧ next stop = some result)
    {greedy : Bool} {budget : Nat} {limit : Option Nat}
    (ran : moreRounds round greedy next budget limit start = some result) :
    ∃ texts stop, (∀ bound ∈ limit, texts.length ≤ bound) ∧ Rounds flags p texts start stop ∧
      next stop = some result := by
  have stops (done : next start = some result) : ∃ texts stop,
      (∀ bound ∈ limit, texts.length ≤ bound) ∧ Rounds flags p texts start stop ∧
        next stop = some result :=
    ⟨[], start, fun _ _ => Nat.zero_le _, .none, done⟩
  induction budget generalizing start limit with
  | zero => exact stops ran
  | succ budget ih =>
    -- one more round, and behind it the continuation or further rounds
    have goes (ran : (if limit = some 0 then none
        else round (fun reached =>
          if reached.cursor.position = start.cursor.position then next reached
          else moreRounds round greedy next budget (limit.map (· - 1)) reached) start) = some result) :
        ∃ texts stop, (∀ bound ∈ limit, texts.length ≤ bound) ∧ Rounds flags p texts start stop ∧
          next stop = some result := by
      split at ran
      next => cases ran
      next more =>
        have bounded {texts : List (List Char)} {text : List Char}
            (few : ∀ bound ∈ limit.map (· - 1), texts.length ≤ bound) :
            ∀ bound ∈ limit, (text :: texts).length ≤ bound := by
          rintro bound rfl
          have := few (bound - 1) rfl
          have : bound ≠ 0 := by
            rintro rfl
            exact more rfl
          rw [List.length_cons]
          omega
        obtain ⟨text, middle, takes, ran⟩ := sound ran
        split at ran
        next =>
          refine ⟨[text], middle, bounded fun _ _ => Nat.zero_le _, .round takes .none, ran⟩
        next =>
          obtain ⟨texts, stop, few, more, done⟩ :=
            ih ran fun done => ⟨[], middle, fun _ _ => Nat.zero_le _, .none, done⟩
          exact ⟨text :: texts, stop, bounded few, .round takes more, done⟩
    unfold moreRounds at ran
    cases greedy with
    | true =>
      rcases orElse_cases ran with ran | ran
      · exact goes ran
      · exact stops ran
    | false =>
      rcases orElse_cases ran with ran | ran
      · exact stops ran
      · exact goes ran

/-- A look behind notes no group before it begins. -/
theorem lastGroup_startOf? {earlier : Match} (isStart : p.startOf? start = some earlier) :
    earlier.lastGroup = start.lastGroup := by
  obtain ⟨_, -, rfl⟩ := Option.map_eq_some_iff.mp isStart
  rfl

/-- A run that succeeds has come to a place behind a text that the pattern takes, where the continuation
succeeds. -/
theorem exists_of_run (ran : p.run flags next start = some result) :
    ∃ text stop, p.Takes flags text start stop ∧ next stop = some result := by
  induction p generalizing flags next start result with
  | empty => exact ⟨[], start, .stays rfl, ran⟩
  | set s =>
    obtain ⟨⟨before, rest, position⟩, last⟩ := start
    cases rest with
    | nil => cases ran
    | cons c rest =>
      simp only [run, Cursor.next?] at ran
      split at ran
      next contains =>
        refine ⟨[c], ⟨⟨c :: before, rest, position + 1⟩, last⟩, ⟨⟨rfl, rfl⟩, ⟨c, contains, rfl⟩, ?_⟩, ran⟩
        exact fun _ same => .inl same
      next => cases ran
  | check a =>
    simp only [run] at ran
    split at ran
    next => exact ⟨[], start, .stays rfl, ran⟩
    next => cases ran
  | seq p q ihp ihq =>
    obtain ⟨first, middle, takes, ran⟩ := ihp ran
    obtain ⟨second, stop, takes', done⟩ := ihq ran
    exact ⟨first ++ second, stop, takes.seq takes', done⟩
  | alt p q ihp ihq =>
    rcases orElse_cases ran with ran | ran
    · obtain ⟨text, stop, takes, done⟩ := ihp ran
      exact ⟨text, stop, takes.alt_left, done⟩
    · obtain ⟨text, stop, takes, done⟩ := ihq ran
      exact ⟨text, stop, takes.alt_right, done⟩
  | group name p ih =>
    obtain ⟨text, stop, takes, done⟩ := ih ran
    exact ⟨text, ⟨stop.cursor, name⟩, takes.group, done⟩
  | repeated greedy least most p ih =>
    obtain ⟨first, middle, length, required, ran⟩ := exists_of_rounds ih ran
    obtain ⟨second, stop, few, optional, done⟩ := exists_of_moreRounds ih ran
    refine ⟨_, stop, (required.append optional).takes ?_ ?_, done⟩
    · rw [List.length_append]
      omega
    · rintro bound rfl
      have := few (bound - least) rfl
      rw [List.length_append]
      omega
  | ahead positive p ih =>
    cases positive with
    | true =>
      simp only [run] at ran
      split at ran
      next reached found =>
        obtain ⟨text, stop, takes, same⟩ := ih found
        obtain rfl := Option.some.inj same
        exact ⟨[], ⟨start.cursor, stop.lastGroup⟩, .nothing rfl takes.label, ran⟩
      next => cases ran
    | false =>
      simp only [run] at ran
      split at ran
      next => cases ran
      next => exact ⟨[], start, .stays rfl, ran⟩
  | behind positive p ih =>
    cases positive with
    | true =>
      simp only [run] at ran
      split at ran
      next reached found =>
        obtain ⟨earlier, isEarlier, found⟩ := Option.bind_eq_some_iff.mp found
        obtain ⟨text, stop, takes, same⟩ := ih found
        obtain rfl := Option.some.inj same
        have label := takes.label
        rw [lastGroup_startOf? isEarlier] at label
        exact ⟨[], ⟨start.cursor, stop.lastGroup⟩, .nothing rfl label, ran⟩
      next => cases ran
    | false =>
      simp only [run] at ran
      split at ran
      next => cases ran
      next => exact ⟨[], start, .stays rfl, ran⟩
  | atomic p ih =>
    obtain ⟨reached, found, done⟩ := Option.bind_eq_some_iff.mp ran
    obtain ⟨text, stop, takes, same⟩ := ih found
    obtain rfl := Option.some.inj same
    exact ⟨text, stop, ⟨takes.passes, takes.allows, takes.label⟩, done⟩
  | under own p ih =>
    obtain ⟨text, stop, takes, done⟩ := ih ran
    exact ⟨text, stop, ⟨takes.passes, takes.allows, takes.label⟩, done⟩

/-- A match of a pattern at a place takes a text that the pattern allows. -/
theorem takes_of_matchAt {cursor : Cursor} {found : Match}
    (matched : p.matchAt flags cursor = some found) :
    ∃ text, p.Takes flags text ⟨cursor, none⟩ found := by
  obtain ⟨text, stop, takes, same⟩ := exists_of_run matched
  obtain rfl := Option.some.inj same
  exact ⟨text, takes⟩

end Runs

end Pattern

end Grammatic
