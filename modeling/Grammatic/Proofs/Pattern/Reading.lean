import Grammatic.Proofs.Pattern.Readers

/-!
# Patterns inside other texts

The text of a pattern is read in the same way by itself and between the parentheses of a group
(`Reads.agree`), unless a comment at its end takes the closing parenthesis along. Such a comment takes along
all that stands behind the parenthesis too, up to the end of the text or the next newline.

The reader of alternatives has a budget and the names of the groups so far. Neither changes what it reads, so
there is a relation without them (`Reads`), with one constructor for each way to go on. The flags are those of the
group that is read.
-/

namespace Grammatic

namespace Pattern

/-- Whether a character has no meaning of its own among alternatives, apart from blanks, comments and marks of
repetition. -/
def Ordinary (c : Char) : Prop := c ∉ [')', '|', '\\', '[', '(']

/-- Whether a character is read as a piece or a mark of repetition, and not skipped. -/
def Counts (flags : Flags) (c : Char) : Prop :=
  isPatternBlank flags c = false ∧ ¬ (flags.verbose ∧ c = '#')

/-- The patterns of a sequence in reverse, the last one included. -/
def closed (done : List Pattern) (last : Option Piece) : List Pattern :=
  (last.map Piece.pattern).toList ++ done

/-- Alternatives are read from a text up to where they stop. -/
inductive Reads : Flags → List Pattern → Option Piece → List Char → Pattern → List Char → Prop
  | done {flags : Flags} {done : List Pattern} {last : Option Piece} {text : List Char} (stops : Stops text) :
      Reads flags done last text (sequenceOf done last) text
  | bar {flags : Flags} {done : List Pattern} {last : Option Piece} {text rest : List Char} {other : Pattern}
      (more : Reads flags [] none text other rest) :
      Reads flags done last ('|' :: text) (.alt (sequenceOf done last) other) rest
  | escape {flags : Flags} {done : List Pattern} {last : Option Piece} {c : Char} {text behind rest : List Char}
      {piece : Piece} {p : Pattern} (read : readEscape c text = .ok (piece, behind))
      (more : Reads flags (closed done last) (some piece) behind p rest) :
      Reads flags done last ('\\' :: c :: text) p rest
  | set {flags : Flags} {done : List Pattern} {last : Option Piece} {text behind rest : List Char} {s p : Pattern}
      (read : readSet text = .ok (s, behind))
      (more : Reads flags (closed done last) (some (.plain s)) behind p rest) :
      Reads flags done last ('[' :: text) p rest
  | remark {flags : Flags} {done : List Pattern} {last : Option Piece} {names : GroupNames}
      {text inside behind rest : List Char} {p : Pattern} (read : readGroupHead names text = .ok (.comment, inside))
      (skipped : skipPast ')' inside = some behind) (more : Reads flags done last behind p rest) :
      Reads flags done last ('(' :: text) p rest
  | group {flags : Flags} {done : List Pattern} {last : Option Piece} {names : GroupNames}
      {text inside behind rest : List Char} {head : GroupHead} {inner p : Pattern}
      (read : readGroupHead names text = .ok (head, inside)) (opens : head ≠ .comment)
      (within : Reads (head.inner flags) [] none inside inner (')' :: behind))
      (more : Reads flags (closed done last) (some (.plain (head.around flags inner))) behind p rest) :
      Reads flags done last ('(' :: text) p rest
  | blank {flags : Flags} {done : List Pattern} {last : Option Piece} {c : Char} {text rest : List Char} {p : Pattern}
      (ordinary : Ordinary c) (blank : isPatternBlank flags c = true) (more : Reads flags done last text p rest) :
      Reads flags done last (c :: text) p rest
  | comment {flags : Flags} {done : List Pattern} {last : Option Piece} {text behind rest : List Char} {p : Pattern}
      (verbose : flags.verbose = true) (skipped : skipLine text = .ok behind)
      (more : Reads flags done last behind p rest) : Reads flags done last ('#' :: text) p rest
  | repetition {flags : Flags} {done : List Pattern} {last : Option Piece} {c : Char}
      {text behind behind' rest : List Char} {min : Nat} {max : Option Nat} {piece : Piece} {p : Pattern}
      (ordinary : Ordinary c) (counts : Counts flags c) (mark : readRepeat (c :: text) = .ok (some (min, max, behind)))
      (read : repeatPiece last min max behind = .ok (piece, behind'))
      (more : Reads flags done (some piece) behind' p rest) : Reads flags done last (c :: text) p rest
  | literal {flags : Flags} {done : List Pattern} {last : Option Piece} {c : Char} {text rest : List Char} {p : Pattern}
      (ordinary : Ordinary c) (counts : Counts flags c) (mark : readRepeat (c :: text) = .ok none)
      (more : Reads flags (closed done last) (some (pieceOf flags c)) text p rest) :
      Reads flags done last (c :: text) p rest

variable {flags : Flags} {done : List Pattern} {last : Option Piece} {text rest : List Char}
  {names names' : GroupNames} {fuel : Nat} {p : Pattern} {c : Char}

/-- What the reader of alternatives reads. -/
theorem reads_of_readAlternatives
    (read : readAlternatives flags fuel names done last text = .ok (p, names', rest)) :
    Reads flags done last text p rest := by
  induction fuel generalizing flags names done last text p names' rest with
  | zero => cases read
  | succ fuel ih =>
    unfold readAlternatives at read
    dsimp only at read
    split at read
    next =>
      obtain ⟨rfl, same⟩ := Prod.mk.inj (Except.ok.inj read)
      obtain ⟨-, rfl⟩ := Prod.mk.inj same
      exact .done .ended
    next =>
      obtain ⟨rfl, same⟩ := Prod.mk.inj (Except.ok.inj read)
      obtain ⟨-, rfl⟩ := Prod.mk.inj same
      exact .done .closed
    next =>
      obtain ⟨⟨other, names, behind⟩, more, made⟩ := exists_of_bind_ok read
      obtain ⟨rfl, same⟩ := Prod.mk.inj (Except.ok.inj made)
      obtain ⟨-, rfl⟩ := Prod.mk.inj same
      exact .bar (ih more)
    next =>
      obtain ⟨⟨piece, behind⟩, escape, more⟩ := exists_of_bind_ok read
      exact .escape escape (ih more)
    next => cases read
    next =>
      obtain ⟨⟨s, behind⟩, set, more⟩ := exists_of_bind_ok read
      exact .set set (ih more)
    next =>
      obtain ⟨⟨head, inside⟩, opened, read⟩ := exists_of_bind_ok read
      dsimp only at read
      split at read
      next =>
        split at read
        next skipped => exact .remark opened skipped (ih read)
        next => cases read
      next opens =>
        obtain ⟨⟨inner, names, behind⟩, within, more⟩ := exists_of_bind_ok read
        dsimp only at more
        split at more
        next => exact .group opened opens (ih within) (ih more)
        next => cases more
    next c text notClose notBar notEscape notLast notSet notGroup =>
      have ordinary : Ordinary c := by
        simp only [Ordinary, List.mem_cons, List.not_mem_nil, or_false, not_or]
        refine ⟨notClose, notBar, ?_, notSet, notGroup⟩
        rintro rfl
        cases text with
        | nil => exact notLast rfl rfl
        | cons d text => exact notEscape d text rfl rfl
      split at read
      next blank => exact .blank ordinary blank (ih read)
      next notBlank =>
        have shown (notComment : ¬ (flags.verbose ∧ c = '#')) : Counts flags c :=
          ⟨Bool.eq_false_iff.mpr notBlank, notComment⟩
        split at read
        next comment =>
          obtain ⟨verbose, rfl⟩ := comment
          obtain ⟨behind, skipped, read⟩ := exists_of_bind_ok read
          exact .comment verbose skipped (ih read)
        next notComment =>
          obtain ⟨mark, marked, read⟩ := exists_of_bind_ok read
          split at read
          next =>
            obtain ⟨⟨piece, behind⟩, repeated, more⟩ := exists_of_bind_ok read
            exact .repetition ordinary (shown notComment) marked repeated (ih more)
          next => exact .literal ordinary (shown notComment) marked (ih read)

/-! ## Whole texts -/

/-- What is asked of a pattern when its whole text has been read: it looks behind by fixed lengths only, and it is in
the language. -/
structure Lawful (flags : Flags) (p : Pattern) : Prop where
  looks : p.looksFixed = true
  supported : p.isSupported flags = true

theorem lawful_alt {q : Pattern} : Lawful flags (.alt p q) ↔ Lawful flags p ∧ Lawful flags q := by
  constructor
  · rintro ⟨looks, supported⟩
    rw [looksFixed, Bool.and_eq_true] at looks
    rw [isSupported, Bool.and_eq_true] at supported
    exact ⟨⟨looks.1, supported.1⟩, ⟨looks.2, supported.2⟩⟩
  · rintro ⟨first, second⟩
    exact ⟨Bool.and_eq_true_iff.mpr ⟨first.looks, second.looks⟩,
      Bool.and_eq_true_iff.mpr ⟨first.supported, second.supported⟩⟩

theorem Lawful.seq {q : Pattern} (first : Lawful flags p) (second : Lawful flags q) : Lawful flags (.seq p q) :=
  ⟨Bool.and_eq_true_iff.mpr ⟨first.looks, second.looks⟩,
    Bool.and_eq_true_iff.mpr ⟨first.supported, second.supported⟩⟩

/-- A choice is lawful as its parts are. -/
theorem lawful_choice {ps : List Pattern} : Lawful flags (choice ps) ↔ ∀ p ∈ ps, Lawful flags p := by
  induction ps with
  | nil => exact ⟨fun _ => nofun, fun _ => ⟨rfl, rfl⟩⟩
  | cons p rest ih =>
    cases rest with
    | nil => simp [choice]
    | cons q rest =>
      rw [List.forall_mem_cons, ← ih]
      exact lawful_alt

/-- A text whose alternatives are read up to its end is a pattern, if they are lawful. -/
theorem read_of_readAlternatives {text : String}
    (alternatives : readAlternatives flags (text.toList.length + 1) [] [] none text.toList = .ok (p, names, []))
    (lawful : Lawful flags p) : Pattern.read flags text = .ok (p, names) := by
  simp [Pattern.read, readChars, alternatives, lawful.looks, lawful.supported, bind, Except.bind, pure, Except.pure]

/-- A text that is a pattern has lawful alternatives, which are read up to its end. -/
theorem readAlternatives_of_read {text : String} (read : Pattern.read flags text = .ok (p, names)) :
    readAlternatives flags (text.toList.length + 1) [] [] none text.toList = .ok (p, names, []) ∧ Lawful flags p := by
  unfold Pattern.read readChars at read
  obtain ⟨⟨found, groups, rest⟩, alternatives, made⟩ := exists_of_bind_ok read
  simp only [bind, Except.bind, pure, Except.pure, throw, throwThe, MonadExceptOf.throw] at made
  split at made
  next => cases made
  next none =>
    split at made
    next => cases made
    next looks =>
      split at made
      next => cases made
      next supported =>
        obtain ⟨rfl, rfl⟩ := Prod.mk.inj (Except.ok.inj made)
        obtain rfl := Decidable.not_not.mp none
        exact ⟨alternatives, Bool.not_eq_false _ ▸ looks, Bool.not_eq_false _ ▸ supported⟩

/-! ## Characters without a meaning of their own -/

theorem not_isPatternBlank_hash (flags : Flags) : ¬ isPatternBlank flags '#' = true := by
  simp [isPatternBlank, Text.isBasicSpace]

/-- An ordinary character is skipped, begins a comment or a mark of repetition, or is read as a piece. -/
theorem Reads.ordinary_cases (reads : Reads flags done last (c :: text) p rest) (ordinary : Ordinary c) :
    (isPatternBlank flags c = true ∧ Reads flags done last text p rest) ∨
      (flags.verbose = true ∧ c = '#' ∧ ∃ behind, skipLine text = .ok behind ∧ Reads flags done last behind p rest) ∨
      Counts flags c ∧
        ((∃ min max behind piece behind', readRepeat (c :: text) = .ok (some (min, max, behind)) ∧
            repeatPiece last min max behind = .ok (piece, behind') ∧
            Reads flags done (some piece) behind' p rest) ∨
          readRepeat (c :: text) = .ok none ∧
            Reads flags (closed done last) (some (pieceOf flags c)) text p rest) := by
  cases reads with
  | done stops => cases stops; simp [Ordinary] at ordinary
  | bar | escape | set | remark | group => simp [Ordinary] at ordinary
  | blank _ blank more => exact .inl ⟨blank, more⟩
  | comment verbose skipped more => exact .inr (.inl ⟨verbose, rfl, _, skipped, more⟩)
  | repetition _ counts mark read more => exact .inr (.inr ⟨counts, .inl ⟨_, _, _, _, _, mark, read, more⟩⟩)
  | literal _ counts mark more => exact .inr (.inr ⟨counts, .inr ⟨mark, more⟩⟩)

theorem Reads.stops (reads : Reads flags done last text p rest) : Stops rest := by
  induction reads with
  | done stops => exact stops
  | group _ _ _ _ _ ih => exact ih
  | bar _ ih | escape _ _ ih | set _ _ ih | remark _ _ _ ih | blank _ _ _ ih | comment _ _ _ ih
  | repetition _ _ _ _ _ ih | literal _ _ _ _ ih => exact ih

theorem Reads.comment_more (verbose : flags.verbose = true) (reads : Reads flags done last ('#' :: text) p rest) :
    ∃ behind, skipLine text = .ok behind ∧ Reads flags done last behind p rest := by
  rcases reads.ordinary_cases (by simp [Ordinary]) with ⟨blank, -⟩ | ⟨-, -, more⟩ | ⟨counts, -⟩
  · exact absurd blank (not_isPatternBlank_hash flags)
  · exact more
  · exact absurd ⟨verbose, rfl⟩ counts.2

/-! ## Other stops -/

/-- Before another stop the same is read from a text, or all that is left is in a comment. -/
def Agrees (flags : Flags) (done : List Pattern) (last : Option Piece) (taken : List Char) (p : Pattern)
    (rest : List Char) : Prop :=
  ∀ {other q rest'}, Stops other → (rest = [] → other = [')']) →
    Reads flags done last (taken ++ other) q rest' → q = p ∧ rest' = other ∨ rest = [] ∧ rest' = []

section Agrees

variable {taken first inside : List Char} {piece : Piece} {inner : Pattern} {head : GroupHead}

theorem Agrees.nil : Agrees flags done last [] (sequenceOf done last) rest := by
  intro other q rest' stops' _ again
  cases stops' with
  | ended =>
    cases again
    exact .inl ⟨rfl, rfl⟩
  | closed =>
    cases again with
    | done => exact .inl ⟨rfl, rfl⟩
    | blank ordinary | repetition ordinary | literal ordinary => simp [Ordinary] at ordinary

theorem Agrees.bar (agrees : Agrees flags [] none taken p rest) :
    Agrees flags done last ('|' :: taken) (.alt (sequenceOf done last) p) rest := by
  intro other q rest' stops' short again
  cases again with
  | done stops => cases stops
  | bar more => exact (agrees stops' short more).imp_left fun ⟨isOther, ends⟩ => ⟨congrArg _ isOther, ends⟩
  | blank ordinary | repetition ordinary | literal ordinary => simp [Ordinary] at ordinary

theorem Agrees.escape (stops : Stops rest)
    (read : ∀ ⦃other⦄, Alike (taken ++ rest) other → readEscape c (first ++ other) = .ok (piece, other))
    (agrees : Agrees flags (closed done last) (some piece) taken p rest) :
    Agrees flags done last ('\\' :: c :: (first ++ taken)) p rest := by
  intro other q rest' stops' short again
  simp only [List.cons_append, List.append_assoc] at again
  cases again with
  | done stops => cases stops
  | escape read' more =>
    rw [read (.append stops.borders stops'.borders taken)] at read'
    obtain ⟨rfl, rfl⟩ := Prod.mk.inj (Except.ok.inj read')
    exact agrees stops' short more
  | blank ordinary | repetition ordinary | literal ordinary => simp [Ordinary] at ordinary

theorem Agrees.set (stops : Stops rest)
    (read : ∀ ⦃other⦄, Alike (taken ++ rest) other → readSet (first ++ other) = .ok (inner, other))
    (agrees : Agrees flags (closed done last) (some (.plain inner)) taken p rest) :
    Agrees flags done last ('[' :: (first ++ taken)) p rest := by
  intro other q rest' stops' short again
  simp only [List.cons_append, List.append_assoc] at again
  cases again with
  | done stops => cases stops
  | set read' more =>
    rw [read (.append stops.borders stops'.borders taken)] at read'
    obtain ⟨rfl, rfl⟩ := Prod.mk.inj (Except.ok.inj read')
    exact agrees stops' short more
  | blank ordinary | repetition ordinary | literal ordinary => simp [Ordinary] at ordinary

/-- The opening of a group is read in the same way, whatever names there are before it. -/
def HeadAgrees (first : List Char) (head : GroupHead) (inside : List Char) : Prop :=
  ∀ other, Alike inside other → ∀ names head' inside',
    readGroupHead names (first ++ other) = .ok (head', inside') → head' = head ∧ inside' = other

theorem Agrees.remark (stops : Stops rest) (read : HeadAgrees first .comment (inside ++ (taken ++ rest)))
    (skips : ∀ other, skipPast ')' (inside ++ other) = some other)
    (agrees : Agrees flags done last taken p rest) :
    Agrees flags done last ('(' :: (first ++ (inside ++ taken))) p rest := by
  intro other q rest' stops' short again
  simp only [List.cons_append, List.append_assoc] at again
  have alike := Alike.append stops.borders stops'.borders (inside ++ taken)
  rw [List.append_assoc, List.append_assoc] at alike
  cases again with
  | done stops => cases stops
  | remark read' skipped more =>
    obtain ⟨-, rfl⟩ := read _ alike _ _ _ read'
    obtain rfl := Option.some.inj ((skips _).symm.trans skipped)
    exact agrees stops' short more
  | group read' opens =>
    obtain ⟨rfl, -⟩ := read _ alike _ _ _ read'
    exact absurd rfl opens
  | blank ordinary | repetition ordinary | literal ordinary => simp [Ordinary] at ordinary

theorem Agrees.group (read : HeadAgrees first head (inside ++ ')' :: (taken ++ rest))) (opens : head ≠ .comment)
    (within : Agrees (head.inner flags) [] none inside inner (')' :: (taken ++ rest)))
    (agrees : Agrees flags (closed done last) (some (.plain (head.around flags inner))) taken p rest) :
    Agrees flags done last ('(' :: (first ++ (inside ++ ')' :: taken))) p rest := by
  intro other q rest' stops' short again
  simp only [List.cons_append, List.append_assoc] at again
  have alike : Alike (inside ++ ')' :: (taken ++ rest)) (inside ++ ')' :: (taken ++ other)) :=
    .append .closed .closed inside
  cases again with
  | done stops => cases stops
  | remark read' =>
    obtain ⟨rfl, -⟩ := read _ alike _ _ _ read'
    exact absurd rfl opens
  | group read' _ within' more =>
    obtain ⟨rfl, rfl⟩ := read _ alike _ _ _ read'
    rcases within .closed nofun within' with ⟨rfl, isOther⟩ | ⟨none, -⟩
    · obtain rfl := (List.cons.inj isOther).2
      exact agrees stops' short more
    · cases none
  | blank ordinary | repetition ordinary | literal ordinary => simp [Ordinary] at ordinary

theorem Agrees.blank (ordinary : Ordinary c) (blank : isPatternBlank flags c = true)
    (agrees : Agrees flags done last taken p rest) : Agrees flags done last (c :: taken) p rest := by
  intro other q rest' stops' short again
  rcases again.ordinary_cases ordinary with ⟨-, more⟩ | ⟨-, rfl, -⟩ | ⟨counts, -⟩
  · exact agrees stops' short more
  · exact absurd blank (not_isPatternBlank_hash flags)
  · exact absurd blank (Bool.eq_false_iff.mp counts.1)

theorem Agrees.comment (verbose : flags.verbose = true)
    (skips : ∀ other, skipLine (first ++ other) = .ok other) (agrees : Agrees flags done last taken p rest) :
    Agrees flags done last ('#' :: (first ++ taken)) p rest := by
  intro other q rest' stops' short again
  rw [List.cons_append, List.append_assoc] at again
  obtain ⟨behind, skipped, more⟩ := again.comment_more verbose
  obtain rfl := Except.ok.inj ((skips _).symm.trans skipped)
  exact agrees stops' short more

/-- A comment that goes on to the end of the text takes a parenthesis there along. -/
theorem Agrees.endless (verbose : flags.verbose = true) (skips : skipLine (text ++ [')']) = .ok []) :
    Agrees flags done last ('#' :: text) p [] := by
  intro other q rest' _ short again
  obtain rfl := short rfl
  rw [List.cons_append] at again
  obtain ⟨behind, skipped, more⟩ := again.comment_more verbose
  obtain rfl := Except.ok.inj (skips.symm.trans skipped)
  cases more
  exact .inr ⟨rfl, rfl⟩

theorem Agrees.repetition {marks : List Char} {least : Nat} {most : Option Nat} (stops : Stops rest)
    (ordinary : Ordinary c) (counts : Counts flags c)
    (mark : ∀ other, readRepeat (c :: marks ++ other) = .ok (some (least, most, other)))
    (read : ∀ ⦃other⦄, Alike (taken ++ rest) other →
      repeatPiece last least most (first ++ other) = .ok (piece, other))
    (agrees : Agrees flags done (some piece) taken p rest) :
    Agrees flags done last (c :: (marks ++ (first ++ taken))) p rest := by
  intro other q rest' stops' short again
  simp only [List.cons_append, List.append_assoc] at again
  have marked := mark (first ++ (taken ++ other))
  rcases again.ordinary_cases ordinary with ⟨blank, -⟩ | ⟨verbose, isHash, -⟩ |
    ⟨-, ⟨_, _, _, _, _, mark', read', more⟩ | ⟨mark', -⟩⟩
  · exact absurd blank (Bool.eq_false_iff.mp counts.1)
  · exact absurd ⟨verbose, isHash⟩ counts.2
  · cases marked.symm.trans mark'
    rw [read (.append stops.borders stops'.borders taken)] at read'
    obtain ⟨rfl, rfl⟩ := Prod.mk.inj (Except.ok.inj read')
    exact agrees stops' short more
  · cases marked.symm.trans mark'

theorem Agrees.literal (ordinary : Ordinary c) (counts : Counts flags c)
    (mark : readRepeat (c :: taken ++ rest) = .ok none)
    (agrees : Agrees flags (closed done last) (some (pieceOf flags c)) taken p rest) :
    Agrees flags done last (c :: taken) p rest := by
  intro other q rest' stops' short again
  rcases again.ordinary_cases ordinary with ⟨blank, -⟩ | ⟨verbose, isHash, -⟩ |
    ⟨-, ⟨_, _, _, _, _, mark', -⟩ | ⟨-, more⟩⟩
  · exact absurd blank (Bool.eq_false_iff.mp counts.1)
  · exact absurd ⟨verbose, isHash⟩ counts.2
  · cases mark'.symm.trans (readRepeat_eq_none (c :: taken) stops'.borders mark)
  · exact agrees stops' short more

end Agrees

/-- Alternatives that are read up to a stop are a text before it, and before another stop they are the same. -/
theorem Reads.agree (reads : Reads flags done last text p rest) :
    ∃ taken, text = taken ++ rest ∧ Agrees flags done last taken p rest := by
  induction reads with
  | done => exact ⟨[], rfl, Agrees.nil⟩
  | bar _ ih =>
    obtain ⟨taken, rfl, agrees⟩ := ih
    exact ⟨'|' :: taken, rfl, Agrees.bar agrees⟩
  | @escape _ _ _ c _ _ _ _ _ read more ih =>
    obtain ⟨taken, rfl, agrees⟩ := ih
    obtain ⟨first, rfl, again⟩ := local_readEscape _ read
    exact ⟨'\\' :: c :: (first ++ taken), by simp, Agrees.escape more.stops again agrees⟩
  | set read more ih =>
    obtain ⟨taken, rfl, agrees⟩ := ih
    obtain ⟨first, rfl, again⟩ := local_readSet read
    exact ⟨'[' :: (first ++ taken), by simp, Agrees.set more.stops again agrees⟩
  | remark read skipped more ih =>
    obtain ⟨taken, rfl, agrees⟩ := ih
    obtain ⟨inside, rfl, skips⟩ := exists_of_skipPast (by decide) skipped
    obtain ⟨first, rfl, heads⟩ := exists_of_readGroupHead read
    exact ⟨'(' :: (first ++ (inside ++ taken)), by simp, Agrees.remark more.stops heads skips agrees⟩
  | group read opens _ _ ihWithin ih =>
    obtain ⟨taken, rfl, agrees⟩ := ih
    obtain ⟨inside, rfl, within⟩ := ihWithin
    obtain ⟨first, rfl, heads⟩ := exists_of_readGroupHead read
    exact ⟨'(' :: (first ++ (inside ++ ')' :: taken)), by simp, Agrees.group heads opens within agrees⟩
  | @blank _ _ _ c _ _ _ ordinary blank _ ih =>
    obtain ⟨taken, rfl, agrees⟩ := ih
    exact ⟨c :: taken, rfl, Agrees.blank ordinary blank agrees⟩
  | @comment _ _ _ text _ rest _ verbose skipped _ ih =>
    obtain ⟨taken, rfl, agrees⟩ := ih
    rcases exists_of_skipLine skipped with ⟨first, rfl, skips⟩ | ⟨none, skips⟩
    · exact ⟨'#' :: (first ++ taken), by simp, Agrees.comment verbose skips agrees⟩
    · obtain ⟨rfl, rfl⟩ := List.append_eq_nil_iff.mp none
      exact ⟨'#' :: text, by simp, Agrees.endless verbose skips⟩
  | @repetition _ _ _ c _ _ _ _ _ _ _ _ ordinary counts mark read more ih =>
    obtain ⟨taken, rfl, agrees⟩ := ih
    obtain ⟨first, rfl, again⟩ := local_repeatPiece _ _ _ read
    obtain ⟨marks, rfl, marked⟩ := exists_of_readRepeat mark
    exact ⟨c :: (marks ++ (first ++ taken)), by simp,
      Agrees.repetition more.stops ordinary counts marked again agrees⟩
  | @literal _ _ _ c _ _ _ ordinary counts mark _ ih =>
    obtain ⟨taken, rfl, agrees⟩ := ih
    exact ⟨c :: taken, rfl, Agrees.literal ordinary counts mark agrees⟩

end Pattern

end Grammatic
