import Grammatic.Lexer.Basic
import Grammatic.Proofs.Pattern.Searching

/-!
# Lexing loses nothing

The tokens of a text are stretches of it, one behind the other from its start on. They come to its end,
unless the lexer stops with a fault before it; then they come to the place of the fault. Dropping kinds takes
tokens out of the list and changes none (`lexing_loses_nothing`).

None of this depends on how patterns match. A lexer is taken here with any `Searcher`, of which no more is
known than that it finds stretches inside the text that lie behind the place where it starts, and splitting a
text is a relation without a budget (`Splits`). Each step that is no fault consumes a character
(`stepBy_covers`), so every text is split in just one way. The searches of patterns are one such searcher, and
with it the relation gives what `Lexer.lex` computes (`splits_lex`).
-/

namespace Grammatic

/-- What a search finds: where the match starts and stops, and the name of the group that closed last. -/
structure Found where
  start : Nat
  stop : Nat
  label : Option String

/-- A way to search texts, from a place on. What it finds lies behind the place and inside the text. -/
structure Searcher where
  find : List Char → Nat → Option Found
  within : ∀ {text : List Char} {place : Nat} {found : Found}, place ≤ text.length →
    find text place = some found → place ≤ found.start ∧ found.start ≤ found.stop ∧ found.stop ≤ text.length

namespace Lexer

/-! ## Splitting a text -/

/-- A stretch of a text as a token, whose kind may depend on its text. -/
def stretch (kind : String → TokenKind) (text : List Char) (start stop : Nat) : Token :=
  let chars := String.ofList ((text.take stop).drop start)
  ⟨kind chars, chars, start, stop⟩

/-- The next token of a text from a place before its end on, and the place behind the token. -/
def stepBy (lexer : Lexer) (searcher : Searcher) (text : List Char) (start : Nat) :
    Except LexFault (Token × Nat) :=
  match searcher.find text start with
  | none => .ok (stretch (fun _ => Token.invalid) text start text.length, text.length)
  | some found =>
    if start < found.start then
      .ok (stretch (fun _ => Token.invalid) text start found.start, found.start)
    else if found.start = found.stop then .error (.emptyMatch found.label found.start)
    else
      match found.label with
      | none => .error .unnamedMatch
      | some kind => .ok (stretch (lexer.kindOf kind) text found.start found.stop, found.stop)

/-- From a place on, a text is split into tokens, those of the dropped kinds left out, up to its end or up to
a fault. -/
inductive Splits (lexer : Lexer) (searcher : Searcher) (dropped : TokenKind → Bool) (text : List Char) :
    Nat → Lexed → Prop
  | done {start : Nat} (ended : text.length ≤ start) : Splits lexer searcher dropped text start ⟨[], none⟩
  | fault {start : Nat} {cause : LexFault} (inside : start < text.length)
      (stepped : lexer.stepBy searcher text start = .error cause) :
      Splits lexer searcher dropped text start ⟨[], some cause⟩
  | token {start next : Nat} {token : Token} {lexed : Lexed} (inside : start < text.length)
      (stepped : lexer.stepBy searcher text start = .ok (token, next))
      (more : Splits lexer searcher dropped text next lexed) :
      Splits lexer searcher dropped text start
        ⟨if dropped token.kind then lexed.tokens else token :: lexed.tokens, lexed.fault⟩

/-- A token is the stretch of a text between two places, and not empty. -/
structure Covers (text : List Char) (start : Nat) (token : Token) (stop : Nat) : Prop where
  lt : start < stop
  le : stop ≤ text.length
  starts : token.start = start
  stops : token.stop = stop
  isText : token.text = String.ofList ((text.take stop).drop start)

/-- Tokens are stretches of a text, one behind the other. -/
def Tile (text : List Char) : Nat → List Token → Nat → Prop
  | start, [], stop => stop = start
  | start, token :: rest, stop => ∃ next, Covers text start token next ∧ Tile text next rest stop

/-- Why a lexer stops at a place: what is found there is empty, or has no name. -/
inductive StopsAt (searcher : Searcher) (text : List Char) (place : Nat) : LexFault → Prop
  | empty {label : Option String} (found : searcher.find text place = some ⟨place, place, label⟩) :
      StopsAt searcher text place (.emptyMatch label place)
  | unnamed {stop : Nat} (found : searcher.find text place = some ⟨place, stop, none⟩) (lt : place < stop) :
      StopsAt searcher text place .unnamedMatch

variable {lexer : Lexer} {searcher : Searcher} {dropped : TokenKind → Bool} {text : List Char}
  {start next stop place : Nat} {token : Token} {tokens : List Token} {lexed other : Lexed} {cause : LexFault}

/-! ## One step -/

theorem covers_stretch (kind : String → TokenKind) (lt : start < stop) (le : stop ≤ text.length) :
    Covers text start (stretch kind text start stop) stop :=
  ⟨lt, le, rfl, rfl, rfl⟩

/-- A step takes a stretch that is not empty. -/
theorem stepBy_covers (inside : start < text.length)
    (stepped : lexer.stepBy searcher text start = .ok (token, next)) : Covers text start token next := by
  unfold stepBy at stepped
  split at stepped
  next =>
    obtain ⟨rfl, rfl⟩ := Prod.mk.inj (Except.ok.inj stepped)
    exact covers_stretch _ inside (Nat.le_refl _)
  next found isFound =>
    obtain ⟨behind, ordered, within⟩ := searcher.within (Nat.le_of_lt inside) isFound
    split at stepped
    next passed =>
      obtain ⟨rfl, rfl⟩ := Prod.mk.inj (Except.ok.inj stepped)
      exact covers_stretch _ passed (Nat.le_trans ordered within)
    next here =>
      obtain rfl : found.start = start := Nat.le_antisymm (Nat.le_of_not_lt here) behind
      split at stepped
      next => cases stepped
      next nonempty =>
        split at stepped
        next => cases stepped
        next =>
          obtain ⟨rfl, rfl⟩ := Prod.mk.inj (Except.ok.inj stepped)
          exact covers_stretch _ (Nat.lt_of_le_of_ne ordered nonempty) within

/-- A fault comes from what is found at the place itself. -/
theorem stopsAt_of_stepBy (inside : start < text.length)
    (stepped : lexer.stepBy searcher text start = .error cause) : StopsAt searcher text start cause := by
  unfold stepBy at stepped
  split at stepped
  next => cases stepped
  next found isFound =>
    obtain ⟨first, last, label⟩ := found
    obtain ⟨behind, ordered, -⟩ := searcher.within (Nat.le_of_lt inside) isFound
    split at stepped
    next => cases stepped
    next here =>
      obtain rfl : first = start := Nat.le_antisymm (Nat.le_of_not_lt here) behind
      split at stepped
      next same =>
        obtain rfl := Except.error.inj stepped
        obtain rfl : first = last := same
        exact .empty isFound
      next nonempty =>
        split at stepped
        next unnamed =>
          obtain rfl := Except.error.inj stepped
          obtain rfl : label = none := unnamed
          exact .unnamed isFound (Nat.lt_of_le_of_ne ordered nonempty)
        next => cases stepped

/-! ## All steps -/

/-- Every text is split: each step brings its end closer. -/
theorem exists_splits (lexer : Lexer) (searcher : Searcher) (dropped : TokenKind → Bool) (text : List Char)
    (start : Nat) : ∃ lexed, Splits lexer searcher dropped text start lexed := by
  induction left : text.length - start using Nat.strongRecOn generalizing start with
  | ind left ih =>
    by_cases inside : start < text.length
    · cases stepped : lexer.stepBy searcher text start with
      | error cause => exact ⟨_, .fault inside stepped⟩
      | ok result =>
        obtain ⟨token, next⟩ := result
        have lt := (stepBy_covers inside stepped).lt
        obtain ⟨lexed, more⟩ := ih (text.length - next) (by omega) next rfl
        exact ⟨_, .token inside stepped more⟩
    · exact ⟨_, .done (Nat.le_of_not_lt inside)⟩

/-- A text is split in one way. -/
theorem Splits.unique (splits : Splits lexer searcher dropped text start lexed)
    (splits' : Splits lexer searcher dropped text start other) : lexed = other := by
  induction splits generalizing other with
  | done ended =>
    cases splits' with
    | done _ => rfl
    | fault inside _ | token inside _ _ => exact absurd inside (Nat.not_lt.mpr ended)
  | fault inside stepped =>
    cases splits' with
    | done ended => exact absurd inside (Nat.not_lt.mpr ended)
    | fault _ stepped' => rw [Except.error.inj (stepped.symm.trans stepped')]
    | token _ stepped' _ => cases stepped.symm.trans stepped'
  | token inside stepped _ ih =>
    cases splits' with
    | done ended => exact absurd inside (Nat.not_lt.mpr ended)
    | fault _ stepped' => cases stepped.symm.trans stepped'
    | token _ stepped' more' =>
      obtain ⟨rfl, rfl⟩ := Prod.mk.inj (Except.ok.inj (stepped.symm.trans stepped'))
      rw [ih more']

/-- Without the tokens of some kinds. -/
def Lexed.without (lexed : Lexed) (dropped : TokenKind → Bool) : Lexed :=
  ⟨lexed.tokens.filter fun token => !dropped token.kind, lexed.fault⟩

/-- Dropping kinds takes tokens out of the list, and changes none. -/
theorem Splits.without (splits : Splits lexer searcher (fun _ => false) text start lexed)
    (dropped : TokenKind → Bool) : Splits lexer searcher dropped text start (lexed.without dropped) := by
  induction splits with
  | done ended => exact .done ended
  | fault inside stepped => exact .fault inside stepped
  | @token start next token lexed inside stepped _ ih =>
    have whole := Splits.token inside stepped ih
    simp only [Lexed.without, Bool.false_eq_true, if_false, List.filter_cons] at whole ⊢
    cases isDropped : dropped token.kind with
    | true => simpa [isDropped] using whole
    | false => simpa [isDropped] using whole

/-- The tokens of a text tile it up to its end, or up to the place of the fault. -/
theorem Splits.tile (splits : Splits lexer searcher (fun _ => false) text start lexed)
    (within : start ≤ text.length) :
    ∃ stop ≤ text.length, Tile text start lexed.tokens stop ∧ (lexed.fault = none → stop = text.length) ∧
      ∀ cause, lexed.fault = some cause → stop < text.length ∧ StopsAt searcher text stop cause := by
  induction splits with
  | @done start ended => exact ⟨start, within, rfl, fun _ => Nat.le_antisymm within ended, nofun⟩
  | @fault start cause inside stepped =>
    refine ⟨start, within, rfl, nofun, ?_⟩
    intro _ same
    obtain rfl := Option.some.inj same
    exact ⟨inside, stopsAt_of_stepBy inside stepped⟩
  | @token start next token lexed inside stepped _ ih =>
    have covers := stepBy_covers inside stepped
    obtain ⟨stop, le, tile, ends, faults⟩ := ih covers.le
    exact ⟨stop, le, ⟨next, covers, tile⟩, ends, faults⟩

theorem Covers.text_ne_empty (covers : Covers text start token next) : token.text ≠ "" := by
  have length : ((text.take next).drop start).length = next - start := by
    rw [List.length_drop, List.length_take, Nat.min_eq_left covers.le]
  intro empty
  have none : (text.take next).drop start = [] := by
    rw [← String.toList_ofList (l := (text.take next).drop start), ← covers.isText, empty]
    rfl
  have lt := covers.lt
  rw [none, List.length_nil] at length
  omega

theorem Tile.text_ne_empty (tile : Tile text start tokens stop) : ∀ token ∈ tokens, token.text ≠ "" := by
  induction tokens generalizing start with
  | nil => exact nofun
  | cons first rest ih =>
    obtain ⟨next, covers, tile⟩ := tile
    intro token mem
    rcases List.mem_cons.mp mem with rfl | mem
    · exact covers.text_ne_empty
    · exact ih tile token mem

/-- Tokens that tile a stretch of a text concatenate to it. -/
theorem Tile.join (tile : Tile text start tokens stop) :
    start ≤ stop ∧ (String.join (tokens.map (·.text))).toList = (text.take stop).drop start := by
  induction tokens generalizing start with
  | nil =>
    obtain rfl : stop = start := tile
    exact ⟨Nat.le_refl _, (List.drop_eq_nil_of_le (List.length_take_le _ _)).symm⟩
  | cons token rest ih =>
    obtain ⟨next, covers, tile⟩ := tile
    obtain ⟨le, joined⟩ := ih tile
    refine ⟨Nat.le_trans (Nat.le_of_lt covers.lt) le, ?_⟩
    rw [List.map_cons, String.join_cons, String.toList_append, covers.isText, String.toList_ofList, joined]
    have first : start ≤ (text.take next).length := by
      rw [List.length_take, Nat.min_eq_left covers.le]
      exact Nat.le_of_lt covers.lt
    have split : text.take next ++ (text.take stop).drop next = text.take stop := by
      have whole := List.take_append_drop next (text.take stop)
      rwa [List.take_take, Nat.min_eq_left le] at whole
    rw [← List.drop_append_of_le_length first, split]

/-! ## Searching with patterns -/

/-- The searches of the pattern of a lexer. -/
def ownSearcher (lexer : Lexer) : Searcher where
  find text place := (lexer.pattern.search lexer.flags (Cursor.place text place)).map fun result =>
    ⟨place + result.1, result.2.cursor.position, result.2.lastGroup⟩
  within {text place found} le isFound := by
    obtain ⟨⟨skipped, matched⟩, searched, rfl⟩ := Option.map_eq_some_iff.mp isFound
    obtain ⟨within, here, -⟩ := Pattern.search_eq_some_iff.mp searched
    rw [Cursor.rest_place, List.length_drop] at within
    have := Pattern.position_of_matchAt here
    simp only [Cursor.position_skip, Cursor.rest_skip, Cursor.position_place, Cursor.rest_place,
      List.length_drop] at this
    refine ⟨Nat.le_add_right _ _, this.1, ?_⟩
    show matched.cursor.position ≤ text.length
    omega

theorem tokenOf_place (kind : String → TokenKind) (le : stop ≤ text.length) (lt : start ≤ stop) :
    tokenOf kind (Cursor.place text start) (stop - start) =
      (stretch kind text start stop, Cursor.place text stop) := by
  obtain ⟨count, rfl⟩ := Nat.exists_eq_add_of_le lt
  have length : ((text.drop start).take count).length = count := by
    rw [List.length_take, List.length_drop]
    omega
  have behind : (Cursor.place text start).skip count = Cursor.place text (start + count) := Cursor.skip_place
  rw [Nat.add_sub_cancel_left, ← behind]
  rw [List.take_drop] at length
  simp only [tokenOf, stretch, Token.ofText, Cursor.skip, Cursor.rest_place, Cursor.position_place,
    List.take_drop, String.length_ofList, length, Int.natCast_add, List.drop_drop]

/-- A step of a lexer is a step with its own searches. -/
theorem step_place (lexer : Lexer) (le : start ≤ text.length) :
    lexer.step (Cursor.place text start) =
      (lexer.stepBy lexer.ownSearcher text start).map fun (token, next) => (token, Cursor.place text next) := by
  cases searched : lexer.pattern.search lexer.flags (Cursor.place text start) with
  | none =>
    have find : lexer.ownSearcher.find text start = none := by simp [ownSearcher, searched]
    have rest : (Cursor.place text start).rest.length = text.length - start := by simp
    rw [step, stepBy, find]
    simp only [searched, rest, tokenOf_place _ (Nat.le_refl _) le]
    rfl
  | some result =>
    obtain ⟨skipped, found⟩ := result
    have find : lexer.ownSearcher.find text start =
        some ⟨start + skipped, found.cursor.position, found.lastGroup⟩ := by simp [ownSearcher, searched]
    obtain ⟨-, ordered, within⟩ := lexer.ownSearcher.within le find
    simp only at ordered within
    rw [step, stepBy, find]
    cases skipped with
    | zero =>
      simp only [searched, Nat.add_zero, Nat.lt_irrefl, if_false, Cursor.position_place]
      by_cases same : found.cursor.position = start
      · simp [same]
        rfl
      · rw [if_neg same, if_neg (Ne.symm same)]
        cases label : found.lastGroup with
        | none => rfl
        | some kind =>
          simp only [tokenOf_place _ within (Nat.le_trans (Nat.le_add_right _ _) ordered)]
          rfl
    | succ skipped =>
      have passed : start < start + (skipped + 1) := Nat.lt_add_of_pos_right (Nat.succ_pos _)
      have count : skipped + 1 = start + (skipped + 1) - start := (Nat.add_sub_cancel_left _ _).symm
      have first : start + (skipped + 1) ≤ text.length := Nat.le_trans ordered within
      simp only [searched, if_pos passed]
      rw [count, tokenOf_place _ (by omega) (by omega)]
      simp [Except.map]

/-- Enough rounds split the text up to its end. -/
theorem splits_scan (lexer : Lexer) {budget : Nat} (enough : text.length - start ≤ budget)
    (le : start ≤ text.length) :
    Splits lexer lexer.ownSearcher (fun _ => false) text start (lexer.scan budget (Cursor.place text start)) := by
  have ended (none : ¬ start < text.length) : (Cursor.place text start).rest = [] :=
    List.drop_eq_nil_of_le (Nat.le_of_not_lt none)
  induction budget generalizing start with
  | zero => exact .done (by omega)
  | succ budget ih =>
    by_cases inside : start < text.length
    · have some : (Cursor.place text start).rest ≠ [] := by
        rw [Cursor.rest_place, ne_eq, List.drop_eq_nil_iff]
        omega
      rw [scan, if_neg some, step_place lexer le]
      cases stepped : lexer.stepBy lexer.ownSearcher text start with
      | error cause => exact .fault inside stepped
      | ok result =>
        obtain ⟨token, next⟩ := result
        have covers := stepBy_covers inside stepped
        have lt := covers.lt
        exact .token inside stepped
          (ih (by omega) covers.le fun none => List.drop_eq_nil_of_le (Nat.le_of_not_lt none))
    · rw [scan, if_pos (ended inside)]
      exact .done (Nat.le_of_not_lt inside)

theorem splits_tile (lexer : Lexer) (text : String) :
    Splits lexer lexer.ownSearcher (fun _ => false) text.toList 0 (lexer.tile text) := by
  rw [tile, ← Cursor.place_zero]
  exact splits_scan lexer (Nat.le_refl _) (Nat.zero_le _)

/-- What a lexer computes is what its text is split into. -/
theorem splits_lex (lexer : Lexer) (text : String) (dropped : TokenKind → Bool) :
    Splits lexer lexer.ownSearcher dropped text.toList 0 (lexer.lex text dropped) := by
  have same : lexer.lex text dropped = (lexer.tile text).without dropped := by
    simp [lex, Lexed.without]
  rw [same]
  exact (splits_tile lexer text).without dropped

/-- Whatever way there is to search, a lexer splits every text in one way. Its tokens are not empty, they are
stretches of the text, one behind the other from its start on, and together they are the text up to its end,
or up to the place where what is found is empty or has no name. Without the tokens of some kinds the others
stay what they are. The tokens that a lexer gives are these, for the searches of its pattern. -/
theorem lexing_loses_nothing (lexer : Lexer) (text : String) :
    (∀ searcher : Searcher, ∃ lexed : Lexed, ∃ stop ≤ text.length,
      Splits lexer searcher (fun _ => false) text.toList 0 lexed ∧
      (∀ token ∈ lexed.tokens, token.text ≠ "") ∧ Tile text.toList 0 lexed.tokens stop ∧
      (lexed.fault = none → stop = text.length ∧ String.join (lexed.tokens.map (·.text)) = text) ∧
      (∀ cause, lexed.fault = some cause → StopsAt searcher text.toList stop cause ∧
        String.join (lexed.tokens.map (·.text)) = String.ofList (text.toList.take stop)) ∧
      ∀ dropped other, Splits lexer searcher dropped text.toList 0 other ↔ other = lexed.without dropped) ∧
    ∀ dropped, Splits lexer lexer.ownSearcher dropped text.toList 0 (lexer.lex text dropped) := by
  refine ⟨fun searcher => ?_, splits_lex lexer text⟩
  obtain ⟨lexed, splits⟩ := exists_splits lexer searcher (fun _ => false) text.toList 0
  obtain ⟨stop, le, tile, ends, faults⟩ := splits.tile (Nat.zero_le _)
  have joined := tile.join.2
  rw [List.drop_zero] at joined
  refine ⟨lexed, stop, le, splits, tile.text_ne_empty, tile, ?_, ?_, ?_⟩
  · intro none
    obtain rfl := ends none
    rw [List.take_length] at joined
    exact ⟨rfl, String.toList_injective joined⟩
  · intro cause faulted
    rw [← joined, String.ofList_toList]
    exact ⟨(faults cause faulted).2, rfl⟩
  · intro dropped other
    constructor
    · intro splits'
      exact splits'.unique (splits.without dropped)
    · rintro rfl
      exact splits.without dropped

end Lexer

end Grammatic
