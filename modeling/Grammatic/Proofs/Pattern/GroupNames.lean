import Mathlib.Data.List.Nodup
import Grammatic.Proofs.Pattern.Reading

/-!
# Names of groups

The reader of patterns refuses a group whose name a group before it has. So the names of the groups of a pattern
that is read are different from each other and from all names before (`groupNames_of_readAlternatives`), and that
is all the names are for: a text that can be read after some names can be read after any others that do not occur
in it, and before whatever else may stand behind it (`Reads.readable`).
-/

namespace Grammatic

namespace Pattern

/-- The names of the groups of a pattern, in the order in which the groups open. -/
def groupNames : Pattern → GroupNames
  | .empty | .set _ | .check _ => []
  | .seq first second | .alt first second => first.groupNames ++ second.groupNames
  | .group name inner => name.toList ++ inner.groupNames
  | .repeated _ _ _ inner | .ahead _ inner | .behind _ inner | .atomic inner | .under _ inner => inner.groupNames

/-- Alternatives, the last one apart: what stands behind a text goes on from it. -/
def alternation (before : List Pattern) (final : Pattern) : Pattern := before.foldr .alt final

/-- The names of the groups of a sequence that is being read. -/
def heldNames (done : List Pattern) (last : Option Piece) : GroupNames := (sequenceOf done last).groupNames

variable {flags : Flags} {done : List Pattern} {last : Option Piece} {text rest behind : List Char}
  {names names' : GroupNames} {fuel : Nat} {p : Pattern} {piece : Piece} {head : GroupHead} {c : Char}

theorem groupNames_sequence (ps : List Pattern) : (sequence ps).groupNames = ps.flatMap groupNames := by
  induction ps with
  | nil => rfl
  | cons p rest ih =>
    cases rest with
    | nil => simp [sequence]
    | cons q rest => simp only [sequence, groupNames, ih, List.flatMap_cons]

theorem groupNames_choice (ps : List Pattern) : (choice ps).groupNames = ps.flatMap groupNames := by
  induction ps with
  | nil => rfl
  | cons p rest ih =>
    cases rest with
    | nil => simp [choice]
    | cons q rest => simp only [choice, groupNames, ih, List.flatMap_cons]

theorem groupNames_alternation (before : List Pattern) (final : Pattern) :
    (alternation before final).groupNames = before.flatMap groupNames ++ final.groupNames := by
  induction before with
  | nil => rfl
  | cons p before ih => rw [List.flatMap_cons, List.append_assoc, ← ih]; rfl

theorem lawful_alternation {before : List Pattern} {final : Pattern} :
    Lawful flags (alternation before final) ↔ (∀ p ∈ before, Lawful flags p) ∧ Lawful flags final := by
  induction before with
  | nil => simp [alternation]
  | cons p before ih =>
    rw [List.forall_mem_cons, and_assoc, ← ih]
    exact lawful_alt

@[simp] theorem heldNames_nil : heldNames [] none = [] := rfl

theorem heldNames_push (done : List Pattern) (last : Option Piece) (piece : Piece) :
    heldNames (closed done last) (some piece) = heldNames done last ++ piece.pattern.groupNames := by
  simp [heldNames, sequenceOf, groupNames_sequence, closed]

theorem groupNames_alt (done : List Pattern) (last : Option Piece) (other : Pattern) :
    (alt (sequenceOf done last) other).groupNames = heldNames done last ++ other.groupNames := rfl

@[simp] theorem GroupHead.addTo_eq (names : GroupNames) (head : GroupHead) :
    head.addTo names = names ++ head.own := by
  cases head with
  | capture name => cases name <;> simp [addTo, own]
  | plain | ahead | behind | atomic | under | comment => simp [addTo, own]

@[simp] theorem GroupHead.groupNames_around (flags : Flags) (inner : Pattern) (head : GroupHead) :
    (head.around flags inner).groupNames = head.own ++ inner.groupNames := by
  cases head <;> rfl

/-! ## Parts without names -/

@[simp] theorem groupNames_pieceOf (flags : Flags) (c : Char) : (pieceOf flags c).pattern.groupNames = [] := by
  unfold pieceOf
  split <;> rfl

/-- What a mapped result comes from. -/
theorem exists_of_map_ok {α β ε : Type} {f : α → β} {result : Except ε α} {value : β}
    (made : result.map f = .ok value) : ∃ first, result = .ok first ∧ f first = value := by
  cases result with
  | error e => cases made
  | ok first => exact ⟨first, rfl, Except.ok.inj made⟩

theorem groupNames_of_readEscape (read : readEscape c text = .ok (piece, rest)) : piece.pattern.groupNames = [] := by
  unfold readEscape at read
  split at read
  next =>
    obtain ⟨rfl, -⟩ := Prod.mk.inj (Except.ok.inj read)
    rfl
  next =>
    obtain ⟨rfl, -⟩ := Prod.mk.inj (Except.ok.inj read)
    rfl
  next =>
    split at read
    next => cases read
    next =>
      obtain ⟨_, -, made⟩ := exists_of_map_ok read
      obtain ⟨rfl, -⟩ := Prod.mk.inj made
      rfl

theorem groupNames_of_readSet (read : readSet text = .ok (p, rest)) : p.groupNames = [] := by
  unfold readSet at read
  obtain ⟨_, -, made⟩ := exists_of_map_ok read
  obtain ⟨rfl, -⟩ := Prod.mk.inj made
  rfl

/-- A repetition has the names of what is repeated. -/
theorem heldNames_of_repeatPiece {min : Nat} {max : Option Nat}
    (read : repeatPiece last min max text = .ok (piece, rest)) : heldNames done (some piece) = heldNames done last := by
  unfold repeatPiece at read
  split at read
  next => cases read
  next => cases read
  next => cases read
  all_goals
    obtain ⟨rfl, -⟩ := Prod.mk.inj (Except.ok.inj read)
    simp [heldNames, sequenceOf, groupNames_sequence, Piece.pattern, groupNames]

/-! ## Openings of groups -/

theorem not_mem_of_readGroupName {name : String} (read : readGroupName names text = .ok (name, rest)) :
    name ∉ names := by
  simp only [readGroupName] at read
  split at read
  next => cases read
  next =>
    split at read
    next => cases read
    next valid =>
      obtain ⟨rfl, -⟩ := Prod.mk.inj (Except.ok.inj read)
      exact fun mem => valid (.inr mem)

/-- A name that has been read is new. -/
theorem nodup_of_readGroupHead (read : readGroupHead names text = .ok (head, rest)) (nodup : names.Nodup) :
    (names ++ head.own).Nodup := by
  rcases readGroupHead_cases read with ⟨_, -, nameless, -⟩ | ⟨name, behind, -, named, rfl⟩ | ⟨rfl, -, -⟩
  · rwa [nameless, List.append_nil]
  · exact List.nodup_append.mpr ⟨nodup, List.nodup_singleton _, by
      rintro other mem _ (_ | ⟨_, ⟨⟩⟩) rfl
      exact not_mem_of_readGroupName named mem⟩
  · rwa [GroupHead.own, Option.toList_none, List.append_nil]

/-- A name can be read after any names that it is not among, whatever stands behind it. -/
theorem readGroupName_fresh {name : String} (read : readGroupName names text = .ok (name, rest)) :
    ∃ taken, text = taken ++ rest ∧
      ∀ other names', name ∉ names' → readGroupName names' (taken ++ other) = .ok (name, other) := by
  obtain ⟨chars, inside, rfl, rfl⟩ := exists_of_readGroupName read
  refine ⟨chars ++ ['>'], by simp, fun other names' fresh => ?_⟩
  rw [readGroupName_append inside] at read
  split at read
  next => cases read
  next valid =>
    rw [List.append_assoc, List.singleton_append, readGroupName_append inside,
      if_neg (not_or.mpr ⟨fun invalid => valid (.inl invalid), fresh⟩)]

/-- The opening of a group can be read after any names that its own is not among, if what stands behind it is
alike. -/
theorem readGroupHead_fresh (read : readGroupHead names text = .ok (head, rest)) :
    ∃ taken, text = taken ++ rest ∧ ∀ {other names'}, Alike rest other → (∀ name ∈ head.own, name ∉ names') →
      readGroupHead names' (taken ++ other) = .ok (head, other) := by
  rcases readGroupHead_cases read with ⟨taken, rfl, -, all⟩ | ⟨name, behind, rfl, named, rfl⟩ | ⟨rfl, rfl, plain⟩
  · exact ⟨taken, rfl, fun _ _ => all _ _⟩
  · obtain ⟨taken, rfl, again⟩ := readGroupName_fresh named
    refine ⟨'?' :: 'P' :: '<' :: taken, rfl, fun _ fresh => ?_⟩
    simp only [List.cons_append, readGroupHead, again _ _ (fresh name (by simp [GroupHead.own])), Except.map]
  · refine ⟨[], rfl, fun alike _ => readGroupHead_of_ne ?_⟩
    rintro rest rfl
    obtain ⟨rest, rfl⟩ := alike.begins (by decide)
    exact plain _ rfl

/-! ## What has been read -/

/-- A pattern read after some names has the names that were held, and then those that its reading has added to the
names before it, none of them twice. -/
def Adds (names held : GroupNames) (p : Pattern) (names' : GroupNames) : Prop :=
  ∃ own, names' = names ++ own ∧ p.groupNames = held ++ own ∧ (names.Nodup → names'.Nodup)

theorem Adds.sequenceOf : Adds names (heldNames done last) (sequenceOf done last) names :=
  ⟨[], (List.append_nil _).symm, (List.append_nil _).symm, id⟩

theorem Adds.alt (adds : Adds names [] p names') :
    Adds names (heldNames done last) (.alt (Pattern.sequenceOf done last) p) names' := by
  obtain ⟨own, rfl, others, nodup⟩ := adds
  exact ⟨own, rfl, by rw [groupNames_alt, others, List.nil_append], nodup⟩

/-- What is pushed has its names between those before it and those behind it. -/
theorem Adds.pushed {between : GroupNames} (opened : names.Nodup → (names ++ between).Nodup)
    (has : piece.pattern.groupNames = between)
    (adds : Adds (names ++ between) (heldNames (closed done last) (some piece)) p names') :
    Adds names (heldNames done last) p names' := by
  obtain ⟨own, rfl, all, nodup⟩ := adds
  rw [heldNames_push, has, List.append_assoc] at all
  exact ⟨between ++ own, List.append_assoc _ _ _, all, fun unique => nodup (opened unique)⟩

theorem Adds.pushed_nameless (has : piece.pattern.groupNames = [])
    (adds : Adds names (heldNames (closed done last) (some piece)) p names') :
    Adds names (heldNames done last) p names' :=
  .pushed (by simp) has (by simpa using adds)

/-- The name of an opening comes before those of the alternatives inside. -/
theorem Adds.around {inner : Pattern} {between : GroupNames} (opened : names.Nodup → (names ++ head.own).Nodup)
    (inside : Adds (head.addTo names) [] inner between)
    (more : Adds between (heldNames (closed done last) (some (.plain (head.around flags inner)))) p names') :
    Adds names (heldNames done last) p names' := by
  obtain ⟨own, rfl, has, nodup⟩ := inside
  rw [GroupHead.addTo_eq, List.append_assoc] at more nodup
  refine .pushed (fun unique => nodup (opened unique)) ?_ more
  rw [Piece.pattern, GroupHead.groupNames_around, has, List.nil_append]

/-- What is read has the names before it, and then those of its own groups, none of them twice. -/
theorem groupNames_of_readAlternatives
    (read : readAlternatives flags fuel names done last text = .ok (p, names', rest)) :
    Adds names (heldNames done last) p names' := by
  induction fuel generalizing flags names done last text p names' rest with
  | zero => cases read
  | succ fuel ih =>
    unfold readAlternatives at read
    dsimp only at read
    split at read
    next =>
      cases Except.ok.inj read
      exact .sequenceOf
    next =>
      cases Except.ok.inj read
      exact .sequenceOf
    next =>
      obtain ⟨⟨other, all, behind⟩, more, made⟩ := exists_of_bind_ok read
      cases Except.ok.inj made
      exact (ih more).alt
    next =>
      obtain ⟨⟨piece, behind⟩, escape, more⟩ := exists_of_bind_ok read
      exact (ih more).pushed_nameless (groupNames_of_readEscape escape)
    next => cases read
    next =>
      obtain ⟨⟨s, behind⟩, set, more⟩ := exists_of_bind_ok read
      exact (ih more).pushed_nameless (groupNames_of_readSet set)
    next =>
      obtain ⟨⟨head, inside⟩, opened, read⟩ := exists_of_bind_ok read
      dsimp only at read
      split at read
      next =>
        split at read
        next => exact ih read
        next => cases read
      next =>
        obtain ⟨⟨inner, all, behind⟩, within, more⟩ := exists_of_bind_ok read
        dsimp only at more
        split at more
        next => exact .around (nodup_of_readGroupHead opened) (ih within) (ih more)
        next => cases more
    next =>
      split at read
      next => exact ih read
      next =>
        split at read
        next =>
          obtain ⟨behind, -, read⟩ := exists_of_bind_ok read
          exact ih read
        next =>
          obtain ⟨mark, -, read⟩ := exists_of_bind_ok read
          split at read
          next =>
            obtain ⟨⟨piece, behind⟩, repeated, more⟩ := exists_of_bind_ok read
            rw [← heldNames_of_repeatPiece repeated]
            exact ih more
          next => exact (ih read).pushed_nameless (groupNames_pieceOf _ _)

/-! ## What can be read -/

/-- Reads on from a character without a meaning of its own. -/
def readOrdinary (flags : Flags) (fuel : Nat) (names : GroupNames) (done : List Pattern) (last : Option Piece)
    (c : Char) (text : List Char) : Except PatternError (Pattern × GroupNames × List Char) :=
  if isPatternBlank flags c then readAlternatives flags fuel names done last text
  else if flags.verbose ∧ c = '#' then do
    readAlternatives flags fuel names done last (← skipLine text)
  else do
    match ← readRepeat (c :: text) with
    | some (min, max, text) =>
      let (piece, text) ← repeatPiece last min max text
      readAlternatives flags fuel names done (some piece) text
    | none => readAlternatives flags fuel names (closed done last) (some (pieceOf flags c)) text

theorem readAlternatives_ordinary (ordinary : Ordinary c) :
    readAlternatives flags (fuel + 1) names done last (c :: text) =
      readOrdinary flags fuel names done last c text := by
  simp only [Ordinary, List.mem_cons, List.not_mem_nil, or_false, not_or] at ordinary
  obtain ⟨notClose, notBar, notEscape, notSet, notGroup⟩ := ordinary
  rw [readAlternatives]
  · rfl
  exacts [notClose, notBar, fun _ _ same => absurd same notEscape, fun same => absurd same notEscape, notSet, notGroup]

/-- What stands behind a text is the border of its last alternative. From there the reading goes on in one way,
whatever has been read: the alternative becomes `extend` of it, names are added, and a rest is left. -/
structure Follows (flags : Flags) (tail : List Char) (budget : Nat) (extend : Pattern → Pattern) (added : GroupNames)
    (rest : List Char) : Prop where
  border : Borders tail
  reads : ∀ {done : List Pattern} {last : Option Piece} {names : GroupNames} {fuel : Nat}, (names ++ added).Nodup →
    budget < fuel → readAlternatives flags fuel names done last tail =
      .ok (extend (sequenceOf done last), names ++ added, rest)

/-- Before any border the alternatives of a text can be read after any names that theirs are not among, and then what
follows goes on from the last one. -/
structure Readable (flags : Flags) (done : List Pattern) (last : Option Piece) (text : List Char)
    (before : List Pattern) (final : Pattern) (own : GroupNames) : Prop where
  names : (alternation before final).groupNames = heldNames done last ++ own
  reads : ∀ {tail : List Char} {budget : Nat} {extend : Pattern → Pattern} {added : GroupNames} {rest : List Char},
    Follows flags tail budget extend added rest → ∀ {names : GroupNames} {fuel : Nat},
      (names ++ (own ++ added)).Nodup → text.length + budget < fuel →
        readAlternatives flags fuel names done last (text ++ tail) =
          .ok (alternation before (extend final), names ++ (own ++ added), rest)

theorem follows_end : Follows flags [] 0 id [] [] := by
  refine ⟨.ended, fun {done last names fuel} _ enough => ?_⟩
  obtain ⟨fuel, rfl⟩ := Nat.exists_eq_add_one_of_ne_zero (Nat.ne_of_gt enough)
  rw [List.append_nil]
  rfl

theorem follows_closing (other : List Char) : Follows flags (')' :: other) 0 id [] (')' :: other) := by
  refine ⟨.closed, fun {done last names fuel} _ enough => ?_⟩
  obtain ⟨fuel, rfl⟩ := Nat.exists_eq_add_one_of_ne_zero (Nat.ne_of_gt enough)
  rw [List.append_nil]
  rfl

section Readable

variable {taken first inside other : List Char} {before before' : List Pattern} {final final' : Pattern}
  {own own' : GroupNames}

/-- Up to a closing parenthesis the alternatives are read as they are. -/
theorem Readable.closes (readable : Readable flags done last text before final own) (other : List Char)
    (fresh : (names ++ own).Nodup) (enough : text.length < fuel) :
    readAlternatives flags fuel names done last (text ++ ')' :: other) =
      .ok (alternation before final, names ++ own, ')' :: other) := by
  have read := readable.reads (follows_closing other) (by simpa using fresh) enough
  rwa [List.append_nil] at read

/-- A text that can be read, with nothing held before it, is a pattern by itself if its names are different and its
alternatives are lawful. -/
theorem Readable.read {text : String} (readable : Readable flags [] none text.toList before final own)
    (nodup : own.Nodup) (lawful : Lawful flags (alternation before final)) :
    Pattern.read flags text = .ok (alternation before final, own) := by
  have fresh : ([] ++ (own ++ [])).Nodup := by simpa using nodup
  have whole := readable.reads follows_end fresh (Nat.lt_succ_self _)
  rw [List.append_nil, List.append_nil] at whole
  exact read_of_readAlternatives whole lawful

theorem Readable.nil : Readable flags done last [] [] (sequenceOf done last) [] := by
  refine ⟨(List.append_nil _).symm, fun {_ _ _ _ _} follows {names fuel} fresh enough => ?_⟩
  rw [List.length_nil, Nat.zero_add] at enough
  exact follows.reads fresh enough

theorem Readable.bar (readable : Readable flags [] none taken before final own) :
    Readable flags done last ('|' :: taken) (sequenceOf done last :: before) final own := by
  refine ⟨?_, fun {_ _ _ _ _} follows {names fuel} fresh enough => ?_⟩
  · have others : (alternation before final).groupNames = own := readable.names
    rw [← others]
    rfl
  · obtain ⟨fuel, rfl⟩ := Nat.exists_eq_add_one_of_ne_zero (Nat.ne_zero_of_lt enough)
    rw [List.length_cons] at enough
    have more := readable.reads follows fresh (by omega : _ < fuel)
    rw [List.cons_append, readAlternatives]
    simp only [more, bind, Except.bind, pure, Except.pure]
    rfl

/-- Behind a bar the alternatives of another text follow. -/
theorem Readable.follows (readable : Readable flags [] none text before final own) {tail : List Char} {budget : Nat}
    {extend : Pattern → Pattern} {added : GroupNames} (next : Follows flags tail budget extend added rest) :
    Follows flags ('|' :: (text ++ tail)) (text.length + 1 + budget)
      (fun sequence => .alt sequence (alternation before (extend final))) (own ++ added) rest := by
  refine ⟨.bar, fun {done last names fuel} fresh enough => ?_⟩
  obtain ⟨fuel, rfl⟩ := Nat.exists_eq_add_one_of_ne_zero (Nat.ne_zero_of_lt enough)
  have more := readable.reads next fresh (by omega : _ < fuel)
  rw [readAlternatives]
  simp only [more, bind, Except.bind, pure, Except.pure]

/-- Two texts with a bar between them have the alternatives of both. -/
theorem Readable.barred (readable : Readable flags done last text before final own)
    (readable' : Readable flags [] none other before' final' own') :
    Readable flags done last (text ++ '|' :: other) (before ++ final :: before') final' (own ++ own') := by
  have joined (last : Pattern) : alternation (before ++ final :: before') last =
      alternation before (.alt final (alternation before' last)) := List.foldr_append
  refine ⟨?_, fun {tail budget extend added rest} next {names fuel} fresh enough => ?_⟩
  · have others : (alternation before' final').groupNames = own' := readable'.names
    rw [joined, groupNames_alternation, groupNames, others, ← List.append_assoc, ← groupNames_alternation,
      readable.names, List.append_assoc]
  · simp only [List.length_append, List.length_cons] at enough
    rw [List.append_assoc] at fresh ⊢
    rw [List.append_assoc, List.cons_append, joined,
      readable.reads (readable'.follows next) fresh (by omega : _ < fuel)]

theorem Readable.escape
    (read : ∀ {tail}, Borders tail → readEscape c (first ++ (taken ++ tail)) = .ok (piece, taken ++ tail))
    (readable : Readable flags (closed done last) (some piece) taken before final own) :
    Readable flags done last ('\\' :: c :: (first ++ taken)) before final own := by
  refine ⟨?_, fun {_ _ _ _ _} follows {names fuel} fresh enough => ?_⟩
  · rw [readable.names, heldNames_push, groupNames_of_readEscape (read .ended), List.append_nil]
  · obtain ⟨fuel, rfl⟩ := Nat.exists_eq_add_one_of_ne_zero (Nat.ne_zero_of_lt enough)
    simp only [List.length_cons, List.length_append] at enough
    have more := readable.reads follows fresh (by omega : _ < fuel)
    rw [List.cons_append, List.cons_append, List.append_assoc, readAlternatives]
    simp only [read follows.border, bind, Except.bind]
    exact more

theorem Readable.set {s : Pattern}
    (read : ∀ {tail}, Borders tail → readSet (first ++ (taken ++ tail)) = .ok (s, taken ++ tail))
    (readable : Readable flags (closed done last) (some (.plain s)) taken before final own) :
    Readable flags done last ('[' :: (first ++ taken)) before final own := by
  refine ⟨?_, fun {_ _ _ _ _} follows {names fuel} fresh enough => ?_⟩
  · have none : s.groupNames = [] := groupNames_of_readSet (read .ended)
    rw [readable.names, heldNames_push, Piece.pattern, none, List.append_nil]
  · obtain ⟨fuel, rfl⟩ := Nat.exists_eq_add_one_of_ne_zero (Nat.ne_zero_of_lt enough)
    simp only [List.length_cons, List.length_append] at enough
    have more := readable.reads follows fresh (by omega : _ < fuel)
    rw [List.cons_append, List.append_assoc, readAlternatives]
    simp only [read follows.border, bind, Except.bind]
    exact more

theorem Readable.remark
    (read : ∀ {tail names}, Borders tail → readGroupHead names (first ++ (inside ++ (taken ++ tail))) =
      .ok (.comment, inside ++ (taken ++ tail)))
    (skips : ∀ other, skipPast ')' (inside ++ other) = some other)
    (readable : Readable flags done last taken before final own) :
    Readable flags done last ('(' :: (first ++ (inside ++ taken))) before final own := by
  refine ⟨readable.names, fun {_ _ _ _ _} follows {names fuel} fresh enough => ?_⟩
  obtain ⟨fuel, rfl⟩ := Nat.exists_eq_add_one_of_ne_zero (Nat.ne_zero_of_lt enough)
  simp only [List.length_cons, List.length_append] at enough
  have more := readable.reads follows fresh (by omega : _ < fuel)
  rw [List.cons_append, List.append_assoc, List.append_assoc, readAlternatives]
  simp only [read follows.border, bind, Except.bind, skips]
  exact more

theorem Readable.group
    (read : ∀ {tail names}, Borders tail → (∀ name ∈ head.own, name ∉ names) →
      readGroupHead names (first ++ (inside ++ ')' :: (taken ++ tail))) = .ok (head, inside ++ ')' :: (taken ++ tail)))
    (opens : head ≠ .comment) (within : Readable (head.inner flags) [] none inside before final own)
    (readable : Readable flags (closed done last) (some (.plain (head.around flags (alternation before final)))) taken
      before' final' own') :
    Readable flags done last ('(' :: (first ++ (inside ++ ')' :: taken))) before' final' (head.own ++ own ++ own') := by
  refine ⟨?_, fun {tail budget extend added rest} follows {names fuel} fresh enough => ?_⟩
  · rw [readable.names, heldNames_push, Piece.pattern, GroupHead.groupNames_around, within.names, heldNames_nil,
      List.nil_append, List.append_assoc]
  · obtain ⟨fuel, rfl⟩ := Nat.exists_eq_add_one_of_ne_zero (Nat.ne_zero_of_lt enough)
    simp only [List.length_cons, List.length_append] at enough
    have whole : names ++ (head.own ++ own ++ own' ++ added) = names ++ head.own ++ own ++ (own' ++ added) := by
      simp only [List.append_assoc]
    rw [whole] at fresh ⊢
    have behind := (List.nodup_append.mp fresh).1
    have opened := List.nodup_append.mp (List.nodup_append.mp behind).1
    have new : ∀ name ∈ head.own, name ∉ names := fun name mem listed => opened.2.2 name listed name mem rfl
    have inner := within.closes (taken ++ tail) behind (by omega : _ < fuel)
    have more := readable.reads follows fresh (by omega : _ < fuel)
    rw [List.cons_append, List.append_assoc, List.append_assoc, List.cons_append, readAlternatives]
    simp only [read follows.border new, bind, Except.bind, GroupHead.addTo_eq]
    cases head with
    | comment => exact absurd rfl opens
    | plain | capture | ahead | behind | atomic | under =>
      simp only [inner]
      exact more

theorem Readable.blank (ordinary : Ordinary c) (blank : isPatternBlank flags c = true)
    (readable : Readable flags done last taken before final own) :
    Readable flags done last (c :: taken) before final own := by
  refine ⟨readable.names, fun {_ _ _ _ _} follows {names fuel} fresh enough => ?_⟩
  obtain ⟨fuel, rfl⟩ := Nat.exists_eq_add_one_of_ne_zero (Nat.ne_zero_of_lt enough)
  rw [List.length_cons] at enough
  rw [List.cons_append, readAlternatives_ordinary ordinary, readOrdinary, if_pos blank]
  exact readable.reads follows fresh (by omega)

theorem Readable.comment (verbose : flags.verbose = true)
    (skips : ∀ other, skipLine (first ++ other) = .ok other)
    (readable : Readable flags done last taken before final own) :
    Readable flags done last ('#' :: (first ++ taken)) before final own := by
  refine ⟨readable.names, fun {_ _ _ _ _} follows {names fuel} fresh enough => ?_⟩
  obtain ⟨fuel, rfl⟩ := Nat.exists_eq_add_one_of_ne_zero (Nat.ne_zero_of_lt enough)
  simp only [List.length_cons, List.length_append] at enough
  rw [List.cons_append, List.append_assoc, readAlternatives_ordinary (by simp [Ordinary]), readOrdinary,
    if_neg (not_isPatternBlank_hash flags), if_pos ⟨verbose, rfl⟩, skips]
  exact readable.reads follows fresh (by omega)

theorem Readable.repetition {marks : List Char} {least : Nat} {most : Option Nat} (ordinary : Ordinary c)
    (counts : Counts flags c)
    (mark : ∀ other, readRepeat (c :: marks ++ other) = .ok (some (least, most, other)))
    (read : ∀ {tail}, Borders tail → repeatPiece last least most (first ++ (taken ++ tail)) =
      .ok (piece, taken ++ tail))
    (readable : Readable flags done (some piece) taken before final own) :
    Readable flags done last (c :: (marks ++ (first ++ taken))) before final own := by
  refine ⟨?_, fun {tail budget extend added rest} follows {names fuel} fresh enough => ?_⟩
  · rw [readable.names, heldNames_of_repeatPiece (read .ended)]
  · obtain ⟨fuel, rfl⟩ := Nat.exists_eq_add_one_of_ne_zero (Nat.ne_zero_of_lt enough)
    simp only [List.length_cons, List.length_append] at enough
    have more := readable.reads follows fresh (by omega : _ < fuel)
    have marked := mark (first ++ (taken ++ tail))
    rw [List.cons_append] at marked
    rw [List.cons_append, List.append_assoc, List.append_assoc, readAlternatives_ordinary ordinary, readOrdinary,
      if_neg (Bool.eq_false_iff.mp counts.1), if_neg counts.2]
    simp only [marked, bind, Except.bind, read follows.border]
    exact more

theorem Readable.literal (ordinary : Ordinary c) (counts : Counts flags c)
    (mark : ∀ {tail}, Borders tail → readRepeat (c :: (taken ++ tail)) = .ok none)
    (readable : Readable flags (closed done last) (some (pieceOf flags c)) taken before final own) :
    Readable flags done last (c :: taken) before final own := by
  refine ⟨?_, fun {_ _ _ _ _} follows {names fuel} fresh enough => ?_⟩
  · rw [readable.names, heldNames_push, groupNames_pieceOf, List.append_nil]
  · obtain ⟨fuel, rfl⟩ := Nat.exists_eq_add_one_of_ne_zero (Nat.ne_zero_of_lt enough)
    rw [List.length_cons] at enough
    rw [List.cons_append, readAlternatives_ordinary ordinary, readOrdinary,
      if_neg (Bool.eq_false_iff.mp counts.1), if_neg counts.2]
    simp only [mark follows.border, bind, Except.bind]
    exact readable.reads follows fresh (by omega)

end Readable

/-- What is read up to a stop can be read up to any border, if no comment can have come to the end of the text. -/
theorem Reads.readable (reads : Reads flags done last text p rest) (bound : rest = [] → flags.verbose = false) :
    ∃ taken before final own, text = taken ++ rest ∧ p = alternation before final ∧
      Readable flags done last taken before final own := by
  have alike {taken rest tail : List Char} (stops : Stops rest) (border : Borders tail) :
      Alike (taken ++ rest) (taken ++ tail) := .append stops.borders border taken
  induction reads with
  | done => exact ⟨[], [], _, [], rfl, rfl, Readable.nil⟩
  | bar _ ih =>
    obtain ⟨taken, before, final, own, rfl, rfl, readable⟩ := ih bound
    exact ⟨'|' :: taken, _ :: before, final, own, rfl, rfl, readable.bar⟩
  | @escape _ _ _ c _ _ _ _ _ read more ih =>
    obtain ⟨taken, before, final, own, rfl, rfl, readable⟩ := ih bound
    obtain ⟨first, rfl, again⟩ := local_readEscape _ read
    exact ⟨'\\' :: c :: (first ++ taken), before, final, own, by simp, rfl,
      readable.escape fun border => again (alike more.stops border)⟩
  | set read more ih =>
    obtain ⟨taken, before, final, own, rfl, rfl, readable⟩ := ih bound
    obtain ⟨first, rfl, again⟩ := local_readSet read
    exact ⟨'[' :: (first ++ taken), before, final, own, by simp, rfl,
      readable.set fun border => again (alike more.stops border)⟩
  | remark read skipped more ih =>
    obtain ⟨taken, before, final, own, rfl, rfl, readable⟩ := ih bound
    obtain ⟨inside, rfl, skips⟩ := exists_of_skipPast (by decide) skipped
    obtain ⟨first, rfl, again⟩ := readGroupHead_fresh read
    refine ⟨'(' :: (first ++ (inside ++ taken)), before, final, own, by simp, rfl,
      readable.remark (fun border => again ?_ nofun) skips⟩
    rw [← List.append_assoc, ← List.append_assoc]
    exact alike more.stops border
  | group read opens within more ihWithin ih =>
    obtain ⟨taken, before, final, own', rfl, rfl, readable⟩ := ih bound
    obtain ⟨inside, before', final', own, rfl, rfl, inner⟩ := ihWithin nofun
    obtain ⟨first, rfl, again⟩ := readGroupHead_fresh read
    exact ⟨'(' :: (first ++ (inside ++ ')' :: taken)), before, final, _, by simp, rfl,
      .group (fun _ => again (alike .closed .closed)) opens inner readable⟩
  | @blank _ _ _ c _ _ _ ordinary blank _ ih =>
    obtain ⟨taken, before, final, own, rfl, rfl, readable⟩ := ih bound
    exact ⟨c :: taken, before, final, own, rfl, rfl, readable.blank ordinary blank⟩
  | comment verbose skipped _ ih =>
    obtain ⟨taken, before, final, own, rfl, rfl, readable⟩ := ih bound
    rcases exists_of_skipLine skipped with ⟨first, rfl, skips⟩ | ⟨none, -⟩
    · exact ⟨'#' :: (first ++ taken), before, final, own, by simp, rfl, readable.comment verbose skips⟩
    · obtain ⟨-, rfl⟩ := List.append_eq_nil_iff.mp none
      cases verbose.symm.trans (bound rfl)
  | @repetition _ _ _ c _ _ _ _ _ _ _ _ ordinary counts mark read more ih =>
    obtain ⟨taken, before, final, own, rfl, rfl, readable⟩ := ih bound
    obtain ⟨first, rfl, again⟩ := local_repeatPiece _ _ _ read
    obtain ⟨marks, rfl, marked⟩ := exists_of_readRepeat mark
    exact ⟨c :: (marks ++ (first ++ taken)), before, final, own, by simp, rfl,
      readable.repetition ordinary counts marked fun border => again (alike more.stops border)⟩
  | @literal _ _ _ c _ _ _ ordinary counts mark _ ih =>
    obtain ⟨taken, before, final, own, rfl, rfl, readable⟩ := ih bound
    exact ⟨c :: taken, before, final, own, rfl, rfl,
      readable.literal ordinary counts fun border => readRepeat_eq_none (c :: taken) border mark⟩

end Pattern

end Grammatic
