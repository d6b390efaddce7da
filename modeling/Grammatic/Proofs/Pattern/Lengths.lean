import Grammatic.Proofs.Pattern.Preference
import Grammatic.Proofs.Pattern.Searching

/-!
# The lengths of matches

A pattern without assertions, looks behind and groups looks at nothing but the characters behind a place. At each
text it has a list of lengths that it can match, in the order in which it prefers them (`lengths`), and a run tries
these lengths in turn (`run_eq`).

Without looks ahead and atomic parts the lengths at the start of a longer text are those at the start of the shorter
one and longer ones, in one order (`fits_lengths`). So a match of a whole text stays its match whatever comes behind
it, if the pattern never takes the next character (`firm_first`).
-/

namespace Grammatic

/-- A match some characters further on. -/
def Match.skip (m : Match) (count : Nat) : Match := ⟨m.cursor.skip count, m.lastGroup⟩

theorem Match.skip_skip {m : Match} {count more : Nat} : (m.skip count).skip more = m.skip (count + more) :=
  congrArg (Match.mk · m.lastGroup) Cursor.skip_skip

@[simp] theorem Match.skip_zero {m : Match} : m.skip 0 = m :=
  congrArg (Match.mk · m.lastGroup) Cursor.skip_zero

namespace Pattern

/-! ## Lists of lengths -/

/-- The lengths of one match and another one behind it. -/
def both (first second : List Char → List Nat) (text : List Char) : List Nat :=
  (first text).flatMap fun count => (second (text.drop count)).map (count + ·)

/-- The lengths of a number of rounds. -/
def lengthsOfRounds (round : List Char → List Nat) : Nat → List Char → List Nat
  | 0, _ => [0]
  | n + 1, text => both round (lengthsOfRounds round n) text

/-- The lengths of as many rounds as a limit allows. -/
def lengthsOfMore (round : List Char → List Nat) (greedy : Bool) : Nat → Option Nat → List Char → List Nat
  | 0, _, _ => [0]
  | budget + 1, limit, text =>
    let another := if limit = some 0 then [] else (round text).flatMap fun count =>
      (if count = 0 then [0]
        else lengthsOfMore round greedy budget (limit.map (· - 1)) (text.drop count)).map (count + ·)
    if greedy then another ++ [0] else 0 :: another

/-- The lengths that a pattern without assertions can match at the start of a text, in the order of preference. -/
def lengths (flags : Flags) : Pattern → List Char → List Nat
  | .empty, _ => [0]
  | .set s, text => if text.head?.any (s.contains flags) then [1] else []
  | .check _, _ | .behind _ _, _ => []
  | .seq p q, text => both (lengths flags p) (lengths flags q) text
  | .alt p q, text => lengths flags p text ++ lengths flags q text
  | .group _ p, text => lengths flags p text
  | .repeated greedy min max p, text =>
    both (lengthsOfRounds (lengths flags p) min) (fun text =>
      lengthsOfMore (lengths flags p) greedy (text.length + 1) (max.map (· - min)) text) text
  | .ahead positive p, text => if (lengths flags p text).isEmpty = positive then [] else [0]
  | .atomic p, text => (lengths flags p text).head?.toList
  | .under own p, text => lengths own p text

/-- Whether a pattern has no assertions, no looks behind and no groups. -/
def isPlain : Pattern → Bool
  | .empty | .set _ => true
  | .check _ | .behind _ _ | .group _ _ => false
  | .seq p q | .alt p q => p.isPlain && q.isPlain
  | .repeated _ _ _ p | .ahead _ p | .atomic p | .under _ p => p.isPlain

/-- The length of the match that a pattern prefers. -/
def first (flags : Flags) (p : Pattern) (text : List Char) : Option Nat := (p.lengths flags text).head?

variable {flags : Flags} {p q : Pattern} {next : Continuation} {start : Match} {text rest : List Char} {c : Char}

/-! ## Runs try the lengths -/

theorem findSome?_flatMap {α β γ : Type} {items : List α} {f : α → List β} {found : β → Option γ} :
    (items.flatMap f).findSome? found = items.findSome? fun item => (f item).findSome? found := by
  induction items with
  | nil => rfl
  | cons item items ih =>
    rw [List.flatMap_cons, List.findSome?_append, List.findSome?_cons, ih]
    cases (f item).findSome? found <;> rfl

theorem findSome?_congr {α β : Type} {items : List α} {found other : α → Option β}
    (same : ∀ item ∈ items, found item = other item) : items.findSome? found = items.findSome? other := by
  induction items with
  | nil => rfl
  | cons item items ih =>
    rw [List.findSome?_cons, List.findSome?_cons, same item List.mem_cons_self,
      ih fun item mem => same item (List.mem_cons_of_mem _ mem)]

theorem findSome?_both {first second : List Char → List Nat} {found : Nat → Option Match} :
    (both first second text).findSome? found = (first text).findSome? fun count =>
      (second (text.drop count)).findSome? fun more => found (count + more) := by
  simp only [both, findSome?_flatMap, List.findSome?_map, Function.comp_def]

/-- What a way to run one round tries, in their order, are the lengths that it has at a text. -/
def Tries (round : Continuation → Continuation) (lengths : List Char → List Nat) : Prop :=
  ∀ next start, round next start = (lengths start.cursor.rest).findSome? fun count => next (start.skip count)

section Tries

variable {round other : Continuation → Continuation} {lengths lengths' : List Char → List Nat}

theorem Tries.both (tries : Tries round lengths) (tries' : Tries other lengths') :
    Tries (fun next => round (other next)) (both lengths lengths') := by
  intro next start
  refine (tries _ start).trans ?_
  rw [findSome?_both]
  congr 1
  funext count
  refine (tries' next _).trans ?_
  simp only [Match.skip_skip]
  rfl

theorem Tries.rounds (tries : Tries round lengths) (count : Nat) :
    Tries (rounds round count) (lengthsOfRounds lengths count) := by
  induction count with
  | zero => exact fun next start => by simp [Pattern.rounds, lengthsOfRounds]
  | succ count ih => exact tries.both ih

theorem Tries.moreRounds (tries : Tries round lengths) (greedy : Bool) (budget : Nat) (limit : Option Nat) :
    Tries (fun next => moreRounds round greedy next budget limit)
      (lengthsOfMore lengths greedy budget limit) := by
  intro next start
  induction budget generalizing limit start with
  | zero => simp [Pattern.moreRounds, lengthsOfMore]
  | succ budget ih =>
    have moves (count : Nat) : (start.skip count).cursor.position = start.cursor.position ↔ count = 0 := by
      simp [Match.skip]
    have another : (if limit = some 0 then none
        else round (fun reached =>
          if reached.cursor.position = start.cursor.position then next reached
          else Pattern.moreRounds round greedy next budget (limit.map (· - 1)) reached) start) =
        (if limit = some 0 then [] else (lengths start.cursor.rest).flatMap fun count =>
          (if count = 0 then [0]
            else lengthsOfMore lengths greedy budget (limit.map (· - 1)) (start.cursor.rest.drop count)).map
            (count + ·)).findSome? fun count => next (start.skip count) := by
      split
      next => rfl
      next =>
        rw [tries, findSome?_flatMap]
        congr 1
        funext count
        by_cases none : count = 0
        · simp [none]
        · rw [if_neg (mt (moves count).mp none), if_neg none, List.findSome?_map]
          refine (ih _ _).trans ?_
          simp only [Match.skip_skip]
          rfl
    simp only [Pattern.moreRounds, lengthsOfMore, another]
    cases greedy with
    | true =>
      rw [if_pos rfl, if_pos rfl, List.findSome?_append, List.findSome?_singleton, Match.skip_zero,
        Option.orElse_eq_or]
    | false =>
      rw [if_neg Bool.false_ne_true, if_neg Bool.false_ne_true, List.findSome?_cons, Match.skip_zero]
      cases next start <;> rfl

end Tries

/-- A run of a plain pattern tries the lengths that it can match. -/
theorem run_eq (plain : p.isPlain = true) : Tries (p.run flags) (p.lengths flags) := by
  have inner {flags : Flags} {p : Pattern} (tries : Tries (p.run flags) (p.lengths flags)) (start : Match) :
      p.run flags some start = (p.lengths flags start.cursor.rest).head?.map start.skip := by
    rw [tries]
    cases p.lengths flags start.cursor.rest <;> rfl
  induction p generalizing flags with
  | empty => exact fun next start => by simp [run, lengths]
  | set s =>
    rintro next ⟨⟨before, text, position⟩, last⟩
    cases text with
    | nil => rfl
    | cons c text =>
      simp only [run, Cursor.next?, lengths, List.head?_cons, Option.any_some]
      by_cases contains : s.contains flags c = true
      · simp [contains, Match.skip, Cursor.skip]
      · simp [contains]
  | check | behind | group => cases plain
  | seq p q ihp ihq =>
    rw [isPlain, Bool.and_eq_true] at plain
    exact (ihp plain.1).both (ihq plain.2)
  | alt p q ihp ihq =>
    rw [isPlain, Bool.and_eq_true] at plain
    intro next start
    rw [run, lengths, List.findSome?_append, ihp plain.1, ihq plain.2, Option.orElse_eq_or]
  | repeated greedy least most p ih =>
    have more : Tries (fun next reached => moreRounds (run flags p) greedy next
        (reached.cursor.rest.length + 1) (most.map (· - least)) reached) fun text =>
          lengthsOfMore (lengths flags p) greedy (text.length + 1) (most.map (· - least)) text :=
      fun next start => (ih plain).moreRounds greedy _ _ next start
    exact ((ih plain).rounds least).both more
  | ahead positive p ih =>
    intro next start
    cases positive with
    | true =>
      rw [run, inner (ih plain), lengths]
      cases lengths flags p start.cursor.rest with
      | nil => rfl
      | cons count counts => simp [Match.skip]
    | false =>
      rw [run, inner (ih plain), lengths]
      cases lengths flags p start.cursor.rest with
      | nil => simp
      | cons count counts => rfl
  | atomic p ih =>
    intro next start
    rw [run, inner (ih plain), lengths]
    cases lengths flags p start.cursor.rest with
    | nil => rfl
    | cons count counts => simp
  | under own p ih => exact fun next start => ih plain next start

/-! ## What the lengths take -/

/-- A plain pattern notes no name, and what it takes is as long as its preferred length. -/
theorem matchAt_eq (plain : p.isPlain = true) (cursor : Cursor) :
    p.matchAt flags cursor = (p.first flags cursor.rest).map fun count => ⟨cursor.skip count, none⟩ := by
  rw [matchAt, run_eq plain, first]
  cases p.lengths flags cursor.rest <;> rfl

/-- What is taken lies inside the text, and the form of the pattern allows it. -/
theorem allows_of_mem_lengths (plain : p.isPlain = true) {count : Nat} (mem : count ∈ p.lengths flags text) :
    count ≤ text.length ∧ p.Allows flags (text.take count) := by
  -- a continuation that waits for the length sees the run come there
  have ran : (p.run flags (fun reached => if reached.cursor.position = count then some reached else none)
      ⟨.start text, none⟩).isSome = true := by
    rw [run_eq plain, List.findSome?_isSome_iff]
    refine ⟨count, mem, ?_⟩
    simp [Match.skip, Cursor.start]
  obtain ⟨result, ran⟩ := Option.isSome_iff_exists.mp ran
  obtain ⟨taken, stop, takes, done⟩ := exists_of_run ran
  obtain ⟨isText, position⟩ := takes.passes
  have isText : text = taken ++ stop.cursor.rest := isText
  have length : count = taken.length := by
    split at done
    next here =>
      rw [← here, position]
      exact Nat.zero_add _
    next => cases done
  rw [isText, length, List.take_left]
  exact ⟨by simp, takes.allows⟩

/-- Whether no set of a pattern contains a character. -/
def avoids (flags : Flags) (c : Char) : Pattern → Bool
  | .empty | .check _ | .ahead _ _ | .behind _ _ => true
  | .set s => !s.contains flags c
  | .seq p q | .alt p q => p.avoids flags c && q.avoids flags c
  | .group _ p | .repeated _ _ _ p | .atomic p => p.avoids flags c
  | .under own p => p.avoids own c

theorem Allows.not_mem (allows : p.Allows flags text) (avoids : p.avoids flags c = true) : c ∉ text := by
  induction p generalizing flags text with
  | empty | check | ahead | behind =>
    obtain rfl : text = [] := allows
    exact List.not_mem_nil
  | set s =>
    obtain ⟨d, contains, rfl⟩ := allows
    rw [List.mem_singleton]
    rintro rfl
    simp [Pattern.avoids, contains] at avoids
  | seq p q ihp ihq =>
    obtain ⟨first, second, allows, allows', rfl⟩ := allows
    rw [Pattern.avoids, Bool.and_eq_true] at avoids
    rw [List.mem_append]
    exact not_or.mpr ⟨ihp allows avoids.1, ihq allows' avoids.2⟩
  | alt p q ihp ihq =>
    rw [Pattern.avoids, Bool.and_eq_true] at avoids
    rcases allows with allows | allows
    · exact ihp allows avoids.1
    · exact ihq allows avoids.2
  | group _ p ih | atomic p ih | under _ p ih => exact ih allows avoids
  | repeated greedy least most p ih =>
    obtain ⟨texts, -, -, all, rfl⟩ := allows
    rw [List.mem_flatten]
    rintro ⟨part, listed, mem⟩
    exact ih (all part listed) avoids mem

theorem opens_of_avoids (avoids : p.avoids flags c = true) : p.opens flags c = false := by
  induction p generalizing flags with
  | empty | check | ahead | behind => rfl
  | set s => simpa [Pattern.avoids, opens] using avoids
  | seq p q ihp ihq =>
    rw [Pattern.avoids, Bool.and_eq_true] at avoids
    rw [opens, ihp avoids.1, ihq avoids.2, Bool.and_false, Bool.or_false]
  | alt p q ihp ihq =>
    rw [Pattern.avoids, Bool.and_eq_true] at avoids
    rw [opens, ihp avoids.1, ihq avoids.2, Bool.or_false]
  | group _ p ih | repeated _ _ _ p ih | atomic p ih | under _ p ih => exact ih avoids

/-- The form of a pattern allows what it prefers. -/
theorem allows_of_first (plain : p.isPlain = true) (preferred : p.first flags (text ++ rest) = some text.length) :
    p.Allows flags text := by
  obtain ⟨counts, isFirst⟩ := List.head?_eq_some_iff.mp preferred
  obtain ⟨-, allows⟩ := allows_of_mem_lengths plain (isFirst ▸ List.mem_cons_self)
  rwa [List.take_left] at allows

/-- A pattern that takes something does not match where it cannot begin. -/
theorem first_eq_none_of_not_opens (plain : p.isPlain = true) (least : 0 < p.leastLength)
    (closed : p.opens flags c = false) : p.first flags (c :: text) = none := by
  have never : p.matchAt flags (.start (c :: text)) = none := run_eq_none_of_not_opens least closed rfl
  rw [matchAt_eq plain] at never
  exact Option.map_eq_none_iff.mp never

/-! ## Longer texts -/

/-- Whether a pattern never looks ahead, and goes on to other matches where its first one does not fit. -/
def isBlind : Pattern → Bool
  | .ahead _ _ | .atomic _ => false
  | .seq p q | .alt p q => p.isBlind && q.isBlind
  | .group _ p | .repeated _ _ _ p | .under _ p => p.isBlind
  | _ => true

/-- The lengths at a text are those at each longer one that fit into the text. -/
def Fits (lengths : List Char → List Nat) : Prop :=
  ∀ text rest, lengths text = (lengths (text ++ rest)).filter (· ≤ text.length)

/-- Where the lengths behind each count are those that fit, so are the sums. -/
theorem flatMap_filter_le {counts : List Nat} {bound : Nat} {behind behind' : Nat → List Nat}
    (fits : ∀ count ≤ bound, behind count = (behind' count).filter (· ≤ bound - count)) :
    ((counts.filter (· ≤ bound)).flatMap fun count => (behind count).map (count + ·)) =
      (counts.flatMap fun count => (behind' count).map (count + ·)).filter (· ≤ bound) := by
  induction counts with
  | nil => rfl
  | cons count counts ih =>
    rw [List.flatMap_cons, List.filter_append, ← ih]
    by_cases le : count ≤ bound
    · rw [List.filter_cons_of_pos (by simpa using le), List.flatMap_cons, fits count le, List.filter_map]
      congr 2
      apply List.filter_congr
      intro more _
      simp only [Function.comp_apply, decide_eq_decide]
      omega
    · rw [List.filter_cons_of_neg (by simpa using le)]
      have none : ((behind' count).map (count + ·)).filter (· ≤ bound) = [] := by
        rw [List.filter_eq_nil_iff]
        intro total mem
        obtain ⟨more, -, rfl⟩ := List.mem_map.mp mem
        simp only [decide_eq_true_eq]
        omega
      rw [none, List.nil_append]

section Fits

variable {lengths lengths' : List Char → List Nat}

theorem Fits.both (fits : Fits lengths) (fits' : Fits lengths') : Fits (both lengths lengths') := by
  intro text rest
  rw [Pattern.both, fits text rest]
  apply flatMap_filter_le
  intro count le
  rw [fits' (text.drop count) rest, List.drop_append_of_le_length le, List.length_drop]

theorem Fits.rounds (fits : Fits lengths) (count : Nat) : Fits (lengthsOfRounds lengths count) := by
  induction count with
  | zero => exact fun text rest => by simp [lengthsOfRounds]
  | succ count ih => exact fits.both ih

/-- The budgets of the two texts differ, and each is enough for its text. -/
theorem Fits.more (fits : Fits lengths) (greedy : Bool) {budget budget' : Nat} {limit : Option Nat}
    {text rest : List Char} (enough : text.length < budget) (enough' : (text ++ rest).length < budget') :
    lengthsOfMore lengths greedy budget limit text =
      (lengthsOfMore lengths greedy budget' limit (text ++ rest)).filter (· ≤ text.length) := by
  induction budget generalizing budget' limit text with
  | zero => exact absurd enough (Nat.not_lt_zero _)
  | succ budget ih =>
    obtain ⟨budget', rfl⟩ := Nat.exists_eq_add_one_of_ne_zero (Nat.ne_zero_of_lt enough')
    have another : (if limit = some 0 then [] else (lengths text).flatMap fun count =>
          (if count = 0 then [0]
            else lengthsOfMore lengths greedy budget (limit.map (· - 1)) (text.drop count)).map (count + ·)) =
        (if limit = some 0 then [] else (lengths (text ++ rest)).flatMap fun count =>
          (if count = 0 then [0]
            else lengthsOfMore lengths greedy budget' (limit.map (· - 1)) ((text ++ rest).drop count)).map
            (count + ·)).filter (· ≤ text.length) := by
      split
      next => rfl
      next =>
        rw [fits text rest]
        apply flatMap_filter_le
        intro count le
        split
        next none => simp
        next some =>
          rw [List.length_append] at enough'
          rw [List.drop_append_of_le_length le, ← List.length_drop]
          apply ih
          · rw [List.length_drop]
            omega
          · rw [List.length_append, List.length_drop]
            omega
    simp only [lengthsOfMore, another]
    cases greedy <;> simp

end Fits

/-- The lengths of a blind pattern are those at any longer text that fit into the text. -/
theorem fits_lengths (blind : p.isBlind = true) : Fits (p.lengths flags) := by
  induction p generalizing flags with
  | empty => exact fun text rest => by simp [lengths]
  | set s =>
    intro text rest
    cases text with
    | nil =>
      by_cases any : rest.head?.any (s.contains flags) = true <;> simp [lengths, any]
    | cons c text =>
      by_cases contains : s.contains flags c = true <;> simp [lengths, contains]
  | check | behind => exact fun text rest => rfl
  | seq p q ihp ihq =>
    rw [isBlind, Bool.and_eq_true] at blind
    exact (ihp blind.1).both (ihq blind.2)
  | alt p q ihp ihq =>
    rw [isBlind, Bool.and_eq_true] at blind
    intro text rest
    rw [lengths, lengths, List.filter_append, ← ihp blind.1, ← ihq blind.2]
  | group _ p ih | under _ p ih => exact ih blind
  | repeated greedy least most p ih =>
    exact ((ih blind).rounds least).both fun text rest =>
      (ih blind).more greedy (Nat.lt_succ_self _) (Nat.lt_succ_self _)
  | ahead | atomic => cases blind

/-! ## Firm matches -/

/-- Nothing more of a text can be part of a match: it has ended, or a space follows. -/
inductive Ended : List Char → Prop
  | nothing : Ended []
  | space {text : List Char} : Ended (' ' :: text)

/-- What is preferred at the start of a text is the whole of it, or nothing, and stays so when something else
comes behind it that no match goes on with. -/
def Firm (preferred : List Char → Option Nat) : Prop :=
  ∀ {text rest other}, Ended other →
    (preferred (text ++ rest) = some text.length → preferred (text ++ other) = some text.length) ∧
      (preferred (text ++ rest) = none → preferred (text ++ other) = none)

theorem firm_first (plain : p.isPlain = true) (blind : p.isBlind = true) (avoids : p.avoids flags ' ' = true) :
    Firm (p.first flags) := by
  intro text rest other ended
  have short : ∀ other, Ended other → p.lengths flags (text ++ other) = p.lengths flags text := by
    intro other ended
    rw [fits_lengths blind text other, eq_comm, List.filter_eq_self]
    intro count mem
    obtain ⟨within, allows⟩ := allows_of_mem_lengths plain mem
    have blank := allows.not_mem avoids
    rw [decide_eq_true_eq]
    cases ended with
    | nothing => simpa using within
    | @space behind =>
      -- a longer match would take the space
      refine Nat.le_of_not_lt fun less => blank ?_
      obtain ⟨more, rfl⟩ := Nat.exists_eq_add_of_lt less
      rw [Nat.add_assoc, List.take_length_add_append, List.take_succ_cons]
      exact List.mem_append_right _ List.mem_cons_self
  have fits : p.lengths flags (text ++ other) =
      (p.lengths flags (text ++ rest)).filter (· ≤ text.length) :=
    (short other ended).trans (fits_lengths blind text rest)
  rw [first, first, fits]
  constructor
  · intro whole
    obtain ⟨counts, isWhole⟩ := List.head?_eq_some_iff.mp whole
    rw [isWhole, List.filter_cons_of_pos (by simp), List.head?_cons]
  · intro none
    rw [List.head?_eq_none_iff.mp none]
    rfl

end Pattern

end Grammatic
