import Grammatic.Pattern.Basic

/-!
# Matching

Patterns match by backtracking. A pattern is run with a continuation that tries to match what comes
after it; where there is a choice, the first one for which the continuation succeeds is taken. So
the first alternative wins, and a greedy repetition takes as many rounds as it can.

A round of a repetition beyond the least number that consumes nothing is the last one, which bounds
the rounds by the length of the text. A look behind a place goes back by the length of its pattern,
which is fixed by its form. `Pattern.search` finds the leftmost match.
-/

namespace Grammatic

/-- A partial match: the place reached, and the name of the group that closed last. -/
structure Match where
  cursor : Cursor
  lastGroup : Option String
  deriving DecidableEq, Repr

namespace Pattern

/-- A way to go on from a partial match. -/
abbrev Continuation := Match → Option Match

/-- A given number of rounds, then the continuation. -/
def rounds (round : Continuation → Continuation) : Nat → Continuation → Continuation
  | 0, next => next
  | n + 1, next => round (rounds round n next)

/-- As many rounds as `limit` allows, in the order of preference, then the continuation. Every round
but the last consumes a character, so `budget` runs out only when the text does. -/
def moreRounds (round : Continuation → Continuation) (greedy : Bool) (next : Continuation) :
    Nat → Option Nat → Continuation
  | 0, _, m => next m
  | budget + 1, limit, m =>
    let another := fun (_ : Unit) =>
      if limit = some 0 then none
      else round (fun reached =>
        if reached.cursor.position = m.cursor.position then next reached
        else moreRounds round greedy next budget (limit.map (· - 1)) reached) m
    if greedy then (another ()).orElse fun _ => next m else (next m).orElse another

/-- Where a pattern has to begin that is looked for behind a place. -/
def startOf? (p : Pattern) (m : Match) : Option Match :=
  (p.fixedLength?.bind m.cursor.back?).map fun cursor => ⟨cursor, m.lastGroup⟩

/-- Runs a pattern from a partial match, and goes on with the continuation. -/
def run (flags : Flags) : Pattern → Continuation → Continuation
  | .empty, next, m => next m
  | .set s, next, m =>
    match m.cursor.next? with
    | some (c, cursor) => if s.contains flags c then next ⟨cursor, m.lastGroup⟩ else none
    | none => none
  | .check a, next, m => if a.holds flags m.cursor then next m else none
  | .seq p q, next, m => run flags p (run flags q next) m
  | .alt p q, next, m => (run flags p next m).orElse fun _ => run flags q next m
  | .group name p, next, m => run flags p (fun reached => next ⟨reached.cursor, name⟩) m
  | .repeated greedy min max p, next, m =>
    rounds (run flags p) min
      (fun reached =>
        moreRounds (run flags p) greedy next (reached.cursor.rest.length + 1)
          (max.map (· - min)) reached) m
  | .ahead true p, next, m =>
    match run flags p some m with
    | some reached => next ⟨m.cursor, reached.lastGroup⟩
    | none => none
  | .ahead false p, next, m =>
    match run flags p some m with
    | some _ => none
    | none => next m
  | .behind true p, next, m =>
    match (p.startOf? m).bind (run flags p some) with
    | some reached => next ⟨m.cursor, reached.lastGroup⟩
    | none => none
  | .behind false p, next, m =>
    match (p.startOf? m).bind (run flags p some) with
    | some _ => none
    | none => next m
  | .atomic p, next, m => (run flags p some m).bind next
  | .under flags p, next, m => run flags p next m

/-- The match of a pattern at a place. -/
def matchAt (flags : Flags) (p : Pattern) (cursor : Cursor) : Option Match :=
  p.run flags some ⟨cursor, none⟩

/-- The first match from a place on: how many characters are passed over, and the match. -/
def searchFrom (flags : Flags) (p : Pattern) :
    List Char → Nat → List Char → Option (Nat × Match)
  | before, position, [] => (p.matchAt flags ⟨before, [], position⟩).map (0, ·)
  | before, position, c :: rest =>
    match p.matchAt flags ⟨before, c :: rest, position⟩ with
    | some m => some (0, m)
    | none => (searchFrom flags p (c :: before) (position + 1) rest).map fun (n, m) => (n + 1, m)

/-- The leftmost match at or after a place: how many characters are passed over, and the match. -/
def search (flags : Flags) (p : Pattern) (cursor : Cursor) : Option (Nat × Match) :=
  searchFrom flags p cursor.before cursor.position cursor.rest

end Pattern

end Grammatic
