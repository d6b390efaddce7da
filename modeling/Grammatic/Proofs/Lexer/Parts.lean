import Grammatic.Proofs.Lexer.Tiling
import Grammatic.Proofs.Pattern.Lengths

/-!
# Texts in parts

Where no pattern of a lexer has assertions, what is matched at a place is settled by the characters behind it
(`hit`), and positions have no part in the splitting of a text: its parts are the matches, and the stretches
between them in which nothing matches (`Parts`). A text has its parts in one way (`Parts.unique`), and they are
what the lexer gives, provided that each match has a name and a character (`parts_tile`).
-/

namespace Grammatic

namespace Lexer

open Pattern

/-- The first pattern of a table that matches at the start of a text: its name, and the length of the match. -/
def hit (flags : Flags) (table : List (String × Pattern)) (text : List Char) : Option (String × Nat) :=
  table.findSome? fun entry => (entry.2.first flags text).map fun count => (entry.1, count)

section Hits

variable {flags : Flags} {table : List (String × Pattern)} {text other : List Char} {label : String} {count : Nat}

theorem hit_cons {entry : String × Pattern} : hit flags (entry :: table) text =
    ((entry.2.first flags text).map fun count => (entry.1, count)).or (hit flags table text) := by
  rw [hit, List.findSome?_cons]
  cases entry.2.first flags text <;> rfl

theorem hit_eq_none_iff : hit flags table text = none ↔ ∀ entry ∈ table, entry.2.first flags text = none := by
  simp [hit, List.findSome?_eq_none_iff]

theorem exists_of_hit (isHit : hit flags table text = some (label, count)) :
    ∃ entry ∈ table, entry.1 = label ∧ entry.2.first flags text = some count := by
  obtain ⟨entry, mem, found⟩ := List.exists_of_findSome?_eq_some isHit
  obtain ⟨count', isFirst, same⟩ := Option.map_eq_some_iff.mp found
  obtain ⟨rfl, rfl⟩ := Prod.mk.inj same
  exact ⟨entry, mem, rfl, isFirst⟩

/-- Where only one pattern of a table can match, its match is what is hit. -/
theorem hit_eq_of_only {entry : String × Pattern} (mem : entry ∈ table)
    (only : ∀ other ∈ table, other = entry ∨ other.2.first flags text = none) :
    hit flags table text = (entry.2.first flags text).map fun count => (entry.1, count) := by
  cases preferred : entry.2.first flags text with
  | none =>
    refine hit_eq_none_iff.mpr fun other listed => ?_
    rcases only other listed with rfl | never
    · exact preferred
    · exact never
  | some count =>
    induction table with
    | nil => cases mem
    | cons first table ih =>
      rw [hit_cons]
      rcases only first List.mem_cons_self with rfl | never
      · rw [preferred]
        rfl
      · rcases List.mem_cons.mp mem with rfl | mem
        · cases never.symm.trans preferred
        · rw [never]
          exact ih mem fun other listed => only other (List.mem_cons_of_mem _ listed)

/-- What is hit is hit in another text, if each pattern that is not hit is not hit there, and the one that is
hit takes as much. -/
theorem hit_congr (isHit : hit flags table text = some (label, count))
    (never : ∀ entry ∈ table, entry.2.first flags text = none → entry.2.first flags other = none)
    (same : ∀ entry ∈ table, entry.2.first flags text = some count → entry.2.first flags other = some count) :
    hit flags table other = some (label, count) := by
  induction table with
  | nil => cases isHit
  | cons first table ih =>
    rw [hit_cons] at isHit ⊢
    cases preferred : first.2.first flags text with
    | none =>
      rw [preferred] at isHit
      rw [never first List.mem_cons_self preferred]
      exact ih isHit (fun entry mem => never entry (List.mem_cons_of_mem _ mem))
        fun entry mem => same entry (List.mem_cons_of_mem _ mem)
    | some count' =>
      rw [preferred] at isHit
      obtain ⟨rfl, rfl⟩ := Prod.mk.inj (Option.some.inj isHit)
      rw [same first List.mem_cons_self preferred]
      rfl

end Hits

/-- No match begins inside a stretch of a text. -/
def Missed (hits : List Char → Option (String × Nat)) (part text : List Char) : Prop :=
  ∀ before c after, part = before ++ c :: after → hits (c :: after ++ text) = none

/-- The parts of a text, as kinds and texts: what is hit, and stretches without a hit, as long as can be. -/
inductive Parts (hits : List Char → Option (String × Nat)) (kindOf : String → List Char → TokenKind) :
    List Char → List (TokenKind × List Char) → Prop
  | done : Parts hits kindOf [] []
  | taken {part text : List Char} {name : String} {parts : List (TokenKind × List Char)} (nonempty : part ≠ [])
      (isHit : hits (part ++ text) = some (name, part.length)) (more : Parts hits kindOf text parts) :
      Parts hits kindOf (part ++ text) ((kindOf name part, part) :: parts)
  | missed {part text : List Char} {parts : List (TokenKind × List Char)} (nonempty : part ≠ [])
      (missed : Missed hits part text) (stops : text ≠ [] → hits text ≠ none)
      (more : Parts hits kindOf text parts) : Parts hits kindOf (part ++ text) ((Token.invalid, part) :: parts)

variable {hits : List Char → Option (String × Nat)} {kindOf' : String → List Char → TokenKind}
  {part part' text text' : List Char} {parts parts' : List (TokenKind × List Char)}

theorem Missed.eq_none (missed : Missed hits part text) (nonempty : part ≠ []) : hits (part ++ text) = none := by
  obtain ⟨c, after, rfl⟩ := List.exists_cons_of_ne_nil nonempty
  exact missed [] c after rfl

/-- A stretch without a hit does not go on behind a place where one is. -/
theorem Missed.length_le (missed : Missed hits part' text') (stops : text ≠ [] → hits text ≠ none)
    (same : part ++ text = part' ++ text') : part'.length ≤ part.length := by
  rcases List.append_eq_append_iff.mp same with ⟨more, rfl, rfl⟩ | ⟨more, rfl, rfl⟩
  · cases more with
    | nil => simp
    | cons c after => exact absurd (missed part c after rfl) (stops (List.cons_ne_nil _ _))
  · simp

/-- A text has its parts in one way. -/
theorem Parts.unique (isParts : Parts hits kindOf' text parts) (isParts' : Parts hits kindOf' text parts') :
    parts = parts' := by
  induction isParts generalizing parts' with
  | done =>
    generalize none : ([] : List Char) = text at isParts'
    cases isParts' with
    | done => rfl
    | taken nonempty | missed nonempty => exact absurd (List.nil_eq_append_iff.mp none).1 nonempty
  | @taken part text name parts nonempty isHit more ih =>
    generalize whole : part ++ text = all at isParts'
    cases isParts' with
    | done => exact absurd (List.append_eq_nil_iff.mp whole).1 nonempty
    | @taken part' text' name' parts' _ isHit' more' =>
      rw [whole, isHit'] at isHit
      obtain ⟨rfl, length⟩ := Prod.mk.inj (Option.some.inj isHit)
      obtain ⟨rfl, rfl⟩ := List.append_inj whole length.symm
      rw [ih more']
    | missed nonempty' missed =>
      rw [whole, missed.eq_none nonempty'] at isHit
      cases isHit
  | @missed part text parts nonempty missed stops more ih =>
    generalize whole : part ++ text = all at isParts'
    cases isParts' with
    | done => exact absurd (List.append_eq_nil_iff.mp whole).1 nonempty
    | taken _ isHit =>
      have none := missed.eq_none nonempty
      rw [whole, isHit] at none
      cases none
    | missed _ missed' stops' more' =>
      have length := Nat.le_antisymm (missed.length_le stops' whole.symm) (missed'.length_le stops whole)
      obtain ⟨rfl, rfl⟩ := List.append_inj whole length
      rw [ih more']

/-! ## The parts that a lexer gives -/

/-- The pattern of a lexer is the choice of a table of groups, and none of them has assertions or groups of its
own, or can match nothing. -/
structure Lists (lexer : Lexer) (table : List (String × Pattern)) : Prop where
  pattern : lexer.pattern = choice (table.map fun entry => .group (some entry.1) entry.2)
  plain : ∀ entry ∈ table, entry.2.isPlain = true
  nonempty : ∀ entry ∈ table, 0 < entry.2.leastLength

variable {lexer : Lexer} {table : List (String × Pattern)}

theorem Lists.hit_pos (lists : Lists lexer table) {name : String} {count : Nat}
    (isHit : hit lexer.flags table text = some (name, count)) : 0 < count ∧ count ≤ text.length := by
  obtain ⟨entry, mem, rfl, isFirst⟩ := exists_of_hit isHit
  obtain ⟨counts, isCounts⟩ := List.head?_eq_some_iff.mp isFirst
  obtain ⟨within, allows⟩ := allows_of_mem_lengths (lists.plain _ mem) (isCounts ▸ List.mem_cons_self)
  have least := allows.leastLength_le
  have := lists.nonempty _ mem
  rw [List.length_take, Nat.min_eq_left within] at least
  exact ⟨Nat.lt_of_lt_of_le this least, within⟩

/-- What matches at a place is what is hit in the characters behind it. -/
theorem Lists.matchAt (lists : Lists lexer table) (cursor : Cursor) :
    lexer.pattern.matchAt lexer.flags cursor = (hit lexer.flags table cursor.rest).map fun (name, count) =>
      ⟨cursor.skip count, some name⟩ := by
  have plain := lists.plain
  rw [lists.pattern, matchAt_choice, hit, List.findSome?_map]
  clear lists
  induction table with
  | nil => rfl
  | cons entry table ih =>
    rw [List.findSome?_cons, List.findSome?_cons, ih fun other mem => plain other (List.mem_cons_of_mem _ mem)]
    simp only [Function.comp_apply, matchAt_group, matchAt_eq (plain entry List.mem_cons_self)]
    cases entry.2.first lexer.flags cursor.rest <;> rfl

theorem Lists.of_find_eq_none (lists : Lists lexer table) {start : Nat}
    (find : lexer.ownSearcher.find text start = none) {place : Nat} (behind : start ≤ place)
    (le : place ≤ text.length) : hit lexer.flags table (text.drop place) = none := by
  have nowhere := search_eq_none_iff.mp (Option.map_eq_none_iff.mp find) (place - start)
  rw [Cursor.rest_place, List.length_drop, Cursor.skip_place, Nat.add_sub_cancel' behind, lists.matchAt] at nowhere
  exact Option.map_eq_none_iff.mp (nowhere (by omega))

theorem Lists.of_find_eq_some (lists : Lists lexer table) {start : Nat} {found : Found}
    (find : lexer.ownSearcher.find text start = some found) :
    (∃ name, found.label = some name ∧
      hit lexer.flags table (text.drop found.start) = some (name, found.stop - found.start)) ∧
        ∀ place, start ≤ place → place < found.start → hit lexer.flags table (text.drop place) = none := by
  obtain ⟨⟨skipped, first⟩, searched, rfl⟩ := Option.map_eq_some_iff.mp find
  obtain ⟨within, here, earlier⟩ := search_eq_some_iff.mp searched
  rw [Cursor.skip_place, lists.matchAt] at here
  obtain ⟨⟨name, count⟩, isHit, rfl⟩ := Option.map_eq_some_iff.mp here
  constructor
  · refine ⟨name, rfl, ?_⟩
    simpa [Cursor.skip_place] using isHit
  · intro place behind before
    have none := earlier (place - start) (by simp only at before; omega)
    rw [Cursor.skip_place, Nat.add_sub_cancel' behind, lists.matchAt] at none
    exact Option.map_eq_none_iff.mp none

theorem drop_eq_append {start stop : Nat} (le : start ≤ stop) (within : stop ≤ text.length) :
    text.drop start = (text.take stop).drop start ++ text.drop stop := by
  rw [← List.drop_append_of_le_length (by rw [List.length_take]; omega), List.take_append_drop]

/-- Where nothing is hit at the places of a stretch, the stretch is missed. -/
theorem missed_of_forall {start stop : Nat} (within : stop ≤ text.length)
    (none : ∀ place, start ≤ place → place < stop → hits (text.drop place) = none) :
    Missed hits ((text.take stop).drop start) (text.drop stop) := by
  intro before c after same
  have length := congrArg List.length same
  rw [List.length_drop, List.length_take, Nat.min_eq_left within, List.length_append, List.length_cons] at length
  have whole : text.drop start = before ++ (c :: after ++ text.drop stop) := by
    rw [drop_eq_append (by omega) within, same, List.append_assoc]
  have here := none (start + before.length) (by omega) (by omega)
  rwa [← List.drop_drop, whole, List.drop_left] at here

/-- The tokens that a lexer gives are the parts of the text, and it stops at no fault. -/
theorem Lists.parts_of_splits (lists : Lists lexer table) {start : Nat} {lexed : Lexed}
    (splits : Splits lexer lexer.ownSearcher (fun _ => false) text start lexed) (le : start ≤ text.length) :
    lexed.fault = none ∧ Parts (hit lexer.flags table) (fun name part => lexer.kindOf name (String.ofList part))
      (text.drop start) (lexed.tokens.map fun token => (token.kind, token.text.toList)) := by
  induction splits with
  | @done start ended =>
    rw [List.drop_eq_nil_of_le ended]
    exact ⟨rfl, .done⟩
  | @fault start cause inside stepped =>
    -- a fault would be a match without characters or without a name
    cases stopsAt_of_stepBy inside stepped with
    | empty find =>
      obtain ⟨⟨name, -, isHit⟩, -⟩ := lists.of_find_eq_some find
      obtain ⟨pos, -⟩ := lists.hit_pos isHit
      exact absurd pos (by simp)
    | unnamed find =>
      obtain ⟨⟨name, label, -⟩, -⟩ := lists.of_find_eq_some find
      cases label
  | @token start next token lexed inside stepped more ih =>
    have covers := stepBy_covers inside stepped
    obtain ⟨none, parts⟩ := ih covers.le
    refine ⟨none, ?_⟩
    have nonempty : (text.take next).drop start ≠ [] := by
      have := covers.lt
      have := covers.le
      rw [ne_eq, List.drop_eq_nil_iff, List.length_take]
      omega
    rw [drop_eq_append (Nat.le_of_lt covers.lt) covers.le, if_neg Bool.false_ne_true, List.map_cons,
      covers.isText, String.toList_ofList]
    unfold stepBy at stepped
    split at stepped
    next find =>
      obtain ⟨rfl, rfl⟩ := Prod.mk.inj (Except.ok.inj stepped)
      refine .missed nonempty (missed_of_forall (Nat.le_refl _) fun place behind before => ?_) ?_ parts
      · exact lists.of_find_eq_none find behind (Nat.le_of_lt before)
      · simp
    next found find =>
      obtain ⟨⟨name, label, isHit⟩, earlier⟩ := lists.of_find_eq_some find
      obtain ⟨behind, -, -⟩ := lexer.ownSearcher.within (Nat.le_of_lt inside) find
      split at stepped
      next =>
        obtain ⟨rfl, rfl⟩ := Prod.mk.inj (Except.ok.inj stepped)
        exact .missed nonempty (missed_of_forall covers.le earlier) (fun _ => isHit ▸ Option.some_ne_none _) parts
      next here =>
        obtain rfl := Nat.le_antisymm (Nat.le_of_not_lt here) behind
        split at stepped
        next => cases stepped
        next =>
          split at stepped
          next => cases stepped
          next kind isLabel =>
            obtain ⟨rfl, rfl⟩ := Prod.mk.inj (Except.ok.inj stepped)
            obtain rfl := Option.some.inj (isLabel.symm.trans label)
            refine .taken nonempty ?_ parts
            rw [← drop_eq_append (Nat.le_of_lt covers.lt) covers.le, isHit, List.length_drop, List.length_take,
              Nat.min_eq_left covers.le]

/-- The parts of a text are the tokens that a lexer gives. -/
theorem Lists.parts_tile (lists : Lists lexer table) (text : String) :
    (lexer.tile text).fault = none ∧
      Parts (hit lexer.flags table) (fun name part => lexer.kindOf name (String.ofList part)) text.toList
        ((lexer.tile text).tokens.map fun token => (token.kind, token.text.toList)) :=
  lists.parts_of_splits (splits_tile lexer text) (Nat.zero_le _)

end Lexer

end Grammatic
