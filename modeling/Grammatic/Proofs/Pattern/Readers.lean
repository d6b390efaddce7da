import Grammatic.Pattern.Reader
import Grammatic.Proofs.Lexer.Definition

/-!
# Readers of the parts of patterns

What a reader of a part takes does not depend on what stands far behind it. It looks at no more than the next
character, and the end of the text, a closing parenthesis and a bar are the same to it (`Local`): so a part is read
in the same way at the end of a text, at the end of a group and before another alternative. Sets, counts and names
bring their own end along, and then the next character does not matter either.

A brace that opens no count stands for itself, and that is known only behind the digits. But neither a closing
parenthesis nor a bar is part of a count, so a count ends before it (`readRepeat_eq_none`).
-/

namespace Grammatic

namespace Pattern

/-- Where alternatives stop: at the end of the text, or at a closing parenthesis. -/
inductive Stops : List Char → Prop
  | ended : Stops []
  | closed {text : List Char} : Stops (')' :: text)

/-- Where an alternative ends: where all alternatives stop, or at a bar. -/
inductive Borders : List Char → Prop
  | ended : Borders []
  | closed {text : List Char} : Borders (')' :: text)
  | bar {text : List Char} : Borders ('|' :: text)

/-- Texts that a look at the next character does not tell apart. -/
inductive Alike : List Char → List Char → Prop
  | same {c : Char} {text other : List Char} : Alike (c :: text) (c :: other)
  | borders {text other : List Char} (border : Borders text) (border' : Borders other) : Alike text other

/-- A reader takes characters, and takes the same ones wherever what stands behind them is alike. -/
def Local {α : Type} (reader : List Char → Except PatternError (α × List Char)) : Prop :=
  ∀ ⦃text value rest⦄, reader text = .ok (value, rest) → ∃ taken, text = taken ++ rest ∧
    ∀ ⦃other⦄, Alike rest other → reader (taken ++ other) = .ok (value, other)

theorem Stops.borders {text : List Char} (stops : Stops text) : Borders text := by
  cases stops with
  | ended => exact .ended
  | closed => exact .closed

theorem Alike.refl (text : List Char) : Alike text text := by
  cases text with
  | nil => exact .borders .ended .ended
  | cons c text => exact .same

theorem Alike.append {border other : List Char} (isBorder : Borders border) (isBorder' : Borders other)
    (text : List Char) : Alike (text ++ border) (text ++ other) := by
  cases text with
  | nil => exact .borders isBorder isBorder'
  | cons c text => exact .same

/-- Alike texts begin with the same character, unless an alternative ends at it. -/
theorem Alike.begins {c : Char} {text other : List Char} (alike : Alike text (c :: other)) (inside : c ∉ [')', '|']) :
    ∃ rest, text = c :: rest := by
  cases alike with
  | same => exact ⟨_, rfl⟩
  | borders _ border' => cases border' <;> simp at inside

/-! ## Readers of parts -/

section Readers

variable {α β : Type} {reader : List Char → Except PatternError (α × List Char)}

theorem Local.pure (value : α) : Local fun text => .ok (value, text) := by
  intro text value' rest read
  obtain ⟨rfl, rfl⟩ := Prod.mk.inj (Except.ok.inj read)
  exact ⟨[], rfl, fun _ _ => rfl⟩

theorem Local.error (e : PatternError) : Local fun _ => (.error e : Except PatternError (α × List Char)) := by
  intro text value rest read
  cases read

theorem Local.map (isLocal : Local reader) (f : α → β) {g : α × List Char → β × List Char}
    (maps : ∀ value text, g (value, text) = (f value, text)) : Local fun text => (reader text).map g := by
  intro text value rest read
  cases first : reader text with
  | error e => simp only [first, Except.map, reduceCtorEq] at read
  | ok result =>
    obtain ⟨found, behind⟩ := result
    simp only [first, Except.map, maps, Except.ok.injEq, Prod.mk.injEq] at read
    obtain ⟨rfl, rfl⟩ := read
    obtain ⟨taken, same, again⟩ := isLocal first
    refine ⟨taken, same, fun other alike => ?_⟩
    simp only [again alike, Except.map, maps]

/-- Where characters are taken as long as they are of a kind, the parenthesis and the bar not being of it, the next
one decides. -/
theorem takeWhile_of_alike {holds : Char → Bool} (closed : holds ')' = false) (bar : holds '|' = false)
    {count : Nat} {text other : List Char}
    (alike : Alike (text.drop ((text.take count).takeWhile holds).length) other) :
    (((text.take count).takeWhile holds ++ other).take count).takeWhile holds =
      (text.take count).takeWhile holds := by
  have none {text other : List Char} (alike : Alike text other) (count : Nat)
      (first : ∀ c ∈ text.head?, holds c = false) : (other.take count).takeWhile holds = [] := by
    cases count with
    | zero => rfl
    | succ count =>
      cases alike with
      | same =>
        rw [List.take_succ_cons, List.takeWhile_cons_of_neg]
        simpa using first
      | borders _ border' =>
        cases border' with
        | ended => rfl
        | closed => rw [List.take_succ_cons, List.takeWhile_cons_of_neg (by simpa using closed)]
        | bar => rw [List.take_succ_cons, List.takeWhile_cons_of_neg (by simpa using bar)]
  induction count generalizing text with
  | zero => simp
  | succ count ih =>
    cases text with
    | nil => exact none alike _ (by simp)
    | cons c text =>
      rw [List.take_succ_cons] at alike ⊢
      by_cases more : holds c = true
      · rw [List.takeWhile_cons_of_pos more] at alike ⊢
        rw [List.cons_append, List.take_succ_cons, List.takeWhile_cons_of_pos more, ih alike]
      · rw [List.takeWhile_cons_of_neg more] at alike ⊢
        exact none alike _ (by simpa using more)

theorem local_readHex (count : Nat) : Local (readHex count) := by
  intro text value rest read
  simp only [readHex] at read
  split at read
  next valid =>
    obtain ⟨rfl, rfl⟩ := Prod.mk.inj (Except.ok.inj read)
    have length : (text.take count).length = count := by
      have := List.length_filterMap_le hexValue? (text.take count)
      have := List.length_take_le count text
      omega
    refine ⟨text.take count, (List.take_append_drop count text).symm, fun other _ => ?_⟩
    have taken : (text.take count ++ other).take count = text.take count := List.take_left' length
    have behind : (text.take count ++ other).drop count = other := List.drop_left' length
    simp only [readHex, taken, behind, if_pos valid]
  next => split at read <;> cases read

theorem local_readOctal (first : Char) : Local (readOctal first) := by
  intro text value rest read
  simp only [readOctal] at read
  split at read
  next small =>
    obtain ⟨rfl, rfl⟩ := Prod.mk.inj (Except.ok.inj read)
    refine ⟨(text.take 2).takeWhile isOctal, ?_, fun other alike => ?_⟩
    · have first := (List.takeWhile_prefix isOctal (l := text.take 2)).trans (List.take_prefix 2 text)
      exact (List.prefix_iff_eq_append.mp first).symm
    · simp only [readOctal, takeWhile_of_alike rfl rfl alike, if_pos small, List.drop_left]
  next => cases read

theorem local_readEscapedChar (c : Char) : Local (readEscapedChar c) := by
  unfold readEscapedChar
  split
  case h_7 => exact local_readHex 2
  case h_8 => exact local_readHex 4
  case h_9 => exact local_readHex 8
  case h_10 => exact fun _ _ _ read => by cases read
  case h_11 =>
    split
    next => exact Local.error _
    next => exact Local.pure c
  all_goals exact Local.pure _

/-- Two more octal digits are both taken, whatever stands behind them. -/
theorem readOctal_other {c d e value : Char} {text rest : List Char} (second : isOctal d = true)
    (third : isOctal e = true) (read : readOctal c (d :: e :: text) = .ok (value, rest)) :
    rest = text ∧ ∀ other, readOctal c (d :: e :: other) = .ok (value, other) := by
  have both (other : List Char) : ((d :: e :: other).take 2).takeWhile isOctal = [d, e] := by
    simp [second, third]
  simp only [readOctal, both, List.length_cons, List.length_nil, List.drop_succ_cons, List.drop_zero] at read ⊢
  split at read
  next small =>
    obtain ⟨rfl, rfl⟩ := Prod.mk.inj (Except.ok.inj read)
    exact ⟨rfl, fun _ => if_pos small⟩
  next => cases read

/-- Three octal digits are a character, and no number of a group. -/
theorem exists_octal_of_not_isGroupNumber {c : Char} {text : List Char} (octal : isGroupNumber c text = false)
    (digit : Text.isBasicDigit c = true) (positive : c ≠ '0') :
    ∃ d e rest, text = d :: e :: rest ∧ isOctal c = true ∧ isOctal d = true ∧ isOctal e = true := by
  simp only [isGroupNumber, digit, positive, ne_eq, not_false_eq_true, decide_true, Bool.and_self, Bool.true_and,
    Bool.not_eq_false', Bool.and_eq_true, decide_eq_true_eq] at octal
  match text, octal with
  | d :: e :: rest, ⟨_, all⟩ => exact ⟨d, e, rest, rfl, by simpa using all⟩

theorem isGroupNumber_octal {c d e : Char} (first : isOctal c = true) (second : isOctal d = true)
    (third : isOctal e = true) (other : List Char) : isGroupNumber c (d :: e :: other) = false := by
  simp [isGroupNumber, first, second, third]

theorem local_readEscape (c : Char) : Local (readEscape c) := by
  unfold readEscape
  split
  next => exact Local.pure _
  next => exact Local.pure _
  next =>
    by_cases numbered : Text.isBasicDigit c = true ∧ c ≠ '0'
    · intro text value rest read
      cases octal : isGroupNumber c text with
      | true => simp only [octal, if_true, reduceCtorEq] at read
      | false =>
        -- what is read is known from the three digits, and no number of a group with anything behind them
        obtain ⟨d, e, more, rfl, first, second, third⟩ :=
          exists_octal_of_not_isGroupNumber octal numbered.1 numbered.2
        simp only [octal, Bool.false_eq_true, if_false, first, if_true] at read
        cases digits : readOctal c (d :: e :: more) with
        | error e => simp only [digits, Except.map, reduceCtorEq] at read
        | ok result =>
          obtain ⟨value, behind⟩ := result
          simp only [digits, Except.map] at read
          obtain ⟨rfl, rfl⟩ := Prod.mk.inj (Except.ok.inj read)
          obtain ⟨rfl, again⟩ := readOctal_other second third digits
          refine ⟨[d, e], rfl, fun other _ => ?_⟩
          simp only [List.cons_append, List.nil_append, isGroupNumber_octal first second third, first, if_true,
            Bool.false_eq_true, if_false, again, Except.map]
    · have other (text : List Char) : isGroupNumber c text = false := by
        rw [isGroupNumber, Bool.and_eq_false_iff]
        exact .inl (by simpa using numbered)
      simp only [other, Bool.false_eq_true, if_false]
      refine Local.map ?_ (fun c => Piece.plain (.set (.single c))) fun _ _ => rfl
      split
      next => exact local_readOctal c
      next => exact local_readEscapedChar c

/-! ### Sets -/

theorem readSetAtom_of_ne {c : Char} (plain : c ≠ '\\') (text : List Char) :
    readSetAtom (c :: text) = .ok (.range c c, text) := by
  unfold readSetAtom
  split
  next same => exact absurd (List.cons.inj same).1 plain
  next same => exact absurd (List.cons.inj same).1 plain
  next same =>
    obtain ⟨rfl, rfl⟩ := List.cons.inj same
    rfl
  next same => cases same

/-- An item of a set takes at least one character. -/
theorem exists_of_readSetAtom {text rest : List Char} {item : SetItem} (read : readSetAtom text = .ok (item, rest)) :
    ∃ c taken, text = c :: taken ++ rest ∧
      ∀ ⦃other⦄, Alike rest other → readSetAtom (c :: taken ++ other) = .ok (item, other) := by
  unfold readSetAtom at read
  split at read
  next c text =>
    have escape : Local fun text => readSetAtom ('\\' :: c :: text) := by
      simp only [readSetAtom]
      split
      next => exact Local.pure _
      next =>
        refine Local.map ?_ (fun c => .range c c) fun _ _ => rfl
        split
        next => exact Local.pure _
        next =>
          split
          next => exact local_readOctal c
          next => exact local_readEscapedChar c
    obtain ⟨taken, rfl, again⟩ := escape read
    exact ⟨'\\', c :: taken, rfl, again⟩
  next => cases read
  next c text notEscape notLast =>
    obtain ⟨rfl, rfl⟩ := Prod.mk.inj (Except.ok.inj read)
    have plain : c ≠ '\\' := by
      rintro rfl
      cases text with
      | nil => exact notLast rfl rfl
      | cons d text => exact notEscape d text rfl rfl
    exact ⟨c, [], rfl, fun other _ => readSetAtom_of_ne plain other⟩
  next => cases read

/-- Whether the next character is an item of a set, or begins one: a bracket is one only if it comes first. -/
def BeginsItem (items : List SetItem) (text : List Char) : Prop :=
  text.head? = some ']' → items = []

/-- Reads on behind an item of a set, which may be the first end of a range. -/
def readBehindItem (fuel : Nat) (items : List SetItem) (item : SetItem) :
    List Char → Except PatternError (List SetItem × List Char)
  | '-' :: ']' :: rest => .ok ((.range '-' '-' :: item :: items).reverse, rest)
  | '-' :: text => do
    let (other, text) ← readSetAtom text
    readSetItems fuel ((← rangeOf item other) :: items) text
  | text => readSetItems fuel (item :: items) text

section Items

variable {fuel : Nat} {items all : List SetItem} {item : SetItem} {text behind rest : List Char}

theorem readSetItems_of_beginsItem (begins : BeginsItem items text)
    (first : readSetAtom text = .ok (item, behind)) :
    readSetItems (fuel + 1) items text = readBehindItem fuel items item behind := by
  rw [readSetItems]
  · simp only [first, bind, Except.bind, pure, Except.pure]
    split
    next => rfl
    next notLast =>
      rw [readBehindItem]
      · rfl
      · exact notLast
    next notLast noRange =>
      rw [readBehindItem]
      · exact notLast
      · exact noRange
  · rintro _ _ _ rfl rfl
    cases begins rfl

theorem readSetItems_cases (read : readSetItems (fuel + 1) items text = .ok (all, rest)) :
    (text = ']' :: rest ∧ items ≠ [] ∧ all = items.reverse) ∨
      ∃ item behind, BeginsItem items text ∧ readSetAtom text = .ok (item, behind) := by
  unfold readSetItems at read
  split at read
  next =>
    obtain ⟨rfl, rfl⟩ := Prod.mk.inj (Except.ok.inj read)
    exact .inl ⟨rfl, List.cons_ne_nil _ _, rfl⟩
  next opened =>
    obtain ⟨⟨item, behind⟩, first, -⟩ := exists_of_bind_ok read
    refine .inr ⟨item, behind, fun bracket => ?_, first⟩
    cases items with
    | nil => rfl
    | cons item items =>
      cases text with
      | nil => cases bracket
      | cons c text =>
        obtain rfl := Option.some.inj bracket
        exact (opened _ _ _ rfl rfl).elim

/-- The items of a set are taken up to the closing bracket, whatever stands behind it. -/
theorem exists_of_readSetItems (read : readSetItems fuel items text = .ok (all, rest)) :
    ∃ c taken, text = c :: taken ++ rest ∧ ∀ {budget}, taken.length < budget →
      ∀ other, readSetItems budget items (c :: taken ++ other) = .ok (all, other) := by
  induction fuel generalizing items text with
  | zero => cases read
  | succ fuel ih =>
    rcases readSetItems_cases read with ⟨rfl, some, rfl⟩ | ⟨item, behind, begins, first⟩
    · refine ⟨']', [], rfl, fun {budget} enough other => ?_⟩
      obtain ⟨budget, rfl⟩ := Nat.exists_eq_add_one_of_ne_zero (Nat.ne_of_gt enough)
      obtain ⟨item, items, rfl⟩ := List.exists_cons_of_ne_nil some
      rfl
    · rw [readSetItems_of_beginsItem begins first] at read
      obtain ⟨c, taken, rfl, again⟩ := exists_of_readSetAtom first
      have goes (budget : Nat) {more : List Char} (alike : Alike behind more) :
          readSetItems (budget + 1) items (c :: taken ++ more) = readBehindItem budget items item more :=
        readSetItems_of_beginsItem begins (again alike)
      unfold readBehindItem at read
      split at read
      next =>
        obtain ⟨rfl, rfl⟩ := Prod.mk.inj (Except.ok.inj read)
        refine ⟨c, taken ++ ['-', ']'], by simp, fun {budget} enough other => ?_⟩
        obtain ⟨budget, rfl⟩ := Nat.exists_eq_add_one_of_ne_zero (Nat.ne_zero_of_lt enough)
        have whole : readSetItems (budget + 1) items (c :: taken ++ '-' :: ']' :: other) = _ := goes budget .same
        simpa [readBehindItem] using whole
      next behind inner =>
        obtain ⟨⟨last, behind⟩, second, then'⟩ := exists_of_bind_ok read
        obtain ⟨range, joined, others⟩ := exists_of_bind_ok then'
        obtain ⟨d, taken', rfl, again'⟩ := exists_of_readSetAtom second
        obtain ⟨e, more, rfl, ends⟩ := ih others
        refine ⟨c, taken ++ '-' :: d :: taken' ++ e :: more, by simp, fun {budget} enough other => ?_⟩
        obtain ⟨budget, rfl⟩ := Nat.exists_eq_add_one_of_ne_zero (Nat.ne_zero_of_lt enough)
        have length : more.length < budget := by
          simp only [List.length_append, List.length_cons] at enough
          omega
        have second : readSetAtom (d :: taken' ++ (e :: more ++ other)) = .ok (last, e :: more ++ other) :=
          again' .same
        have range : readBehindItem budget items item ('-' :: (d :: taken' ++ (e :: more ++ other))) =
            .ok (all, other) := by
          rw [readBehindItem]
          · simp only [second, bind, Except.bind, joined, ends length]
          · rintro _ same
            obtain ⟨rfl, -⟩ := List.cons.inj same
            exact inner _ rfl
        have whole := (goes budget .same).trans range
        simpa using whole
      next behind notLast noRange =>
        obtain ⟨d, more, rfl, ends⟩ := ih read
        refine ⟨c, taken ++ d :: more, by simp, fun {budget} enough other => ?_⟩
        obtain ⟨budget, rfl⟩ := Nat.exists_eq_add_one_of_ne_zero (Nat.ne_zero_of_lt enough)
        have length : more.length < budget := by
          simp only [List.length_append, List.length_cons] at enough
          omega
        have next : readBehindItem budget items item (d :: more ++ other) = .ok (all, other) := by
          rw [readBehindItem]
          · exact ends length other
          all_goals
            rintro _ same
            obtain ⟨rfl, -⟩ := List.cons.inj same
            exact noRange _ rfl
        have whole := (goes budget .same).trans next
        simpa using whole

end Items

/-- A set is taken up to the closing bracket. -/
theorem local_readSet : Local readSet := by
  have items {negated : Bool} {text : List Char} {value : Pattern} {rest : List Char}
      (read : (readSetItems (text.length + 1) [] text).map (fun (items, text) =>
        (set ⟨negated, items⟩, text)) = .ok (value, rest)) :
      ∃ c taken, text = c :: taken ++ rest ∧ ∀ other,
        (readSetItems ((c :: taken ++ other).length + 1) [] (c :: taken ++ other)).map (fun (items, text) =>
          (set ⟨negated, items⟩, text)) = .ok (value, other) := by
    cases first : readSetItems (text.length + 1) [] text with
    | error e => simp only [first, Except.map, reduceCtorEq] at read
    | ok result =>
      obtain ⟨all, behind⟩ := result
      simp only [first, Except.map, Except.ok.injEq, Prod.mk.injEq] at read
      obtain ⟨rfl, rfl⟩ := read
      obtain ⟨c, taken, rfl, again⟩ := exists_of_readSetItems first
      refine ⟨c, taken, rfl, fun other => ?_⟩
      rw [again (by simp only [List.length_append, List.length_cons]; omega) other]
      rfl
  have plain {c : Char} (first : c ≠ '^') (text : List Char) : readSet (c :: text) =
      (readSetItems ((c :: text).length + 1) [] (c :: text)).map fun (items, text) =>
        (set ⟨false, items⟩, text) := by
    unfold readSet
    split
    next other negated same =>
      split at same
      next start => exact absurd (List.cons.inj start).1 first
      next =>
        obtain ⟨rfl, rfl⟩ := Prod.mk.inj same
        rfl
  intro text value rest read
  cases text with
  | nil => cases read
  | cons c text =>
    by_cases first : c = '^'
    · obtain rfl := first
      obtain ⟨c, taken, rfl, again⟩ := items read
      exact ⟨'^' :: c :: taken, rfl, fun other _ => again other⟩
    · rw [plain first] at read
      obtain ⟨d, taken, same, again⟩ := items read
      obtain ⟨rfl, rfl⟩ := List.cons.inj same
      exact ⟨c :: taken, rfl, fun other _ => (plain first _).trans (again other)⟩

/-! ### Repetitions -/

/-- What the digits of a count denote. -/
def countsOf (low high rest : List Char) : Except PatternError (Option (Nat × Option Nat × List Char)) :=
  let min := (roundsOf low).getD 0
  let max := roundsOf high
  if repeatBound ≤ min ∨ max.any (repeatBound ≤ ·) then .error .repeatTooLarge
  else if max.any (· < min) then .error .badRepeat
  else .ok (some (min, max, rest))

theorem countsOf_other {low high rest rest' : List Char} {min : Nat} {max : Option Nat}
    (counts : countsOf low high rest = .ok (some (min, max, rest'))) (other : List Char) :
    rest' = rest ∧ countsOf low high other = .ok (some (min, max, other)) := by
  unfold countsOf at counts ⊢
  dsimp only at counts ⊢
  split at counts
  next => cases counts
  next small =>
    split at counts
    next => cases counts
    next ordered =>
      simp only [Except.ok.injEq, Option.some.injEq, Prod.mk.injEq] at counts
      obtain ⟨rfl, rfl, rfl⟩ := counts
      rw [if_neg small, if_neg ordered]
      exact ⟨rfl, rfl⟩

theorem countsOf_ne_none {low high rest : List Char} : countsOf low high rest ≠ .ok none := by
  unfold countsOf
  dsimp only
  split
  next => exact nofun
  next =>
    split
    next => exact nofun
    next => exact nofun

theorem isKind_of_mem_takeWhile {holds : Char → Bool} {text : List Char} :
    ∀ c ∈ text.takeWhile holds, holds c = true :=
  List.all_eq_true.mp List.all_takeWhile

theorem eq_takeWhile_append {holds : Char → Bool} {text rest : List Char} (left : text.dropWhile holds = rest) :
    text = text.takeWhile holds ++ rest := by
  rw [← left, List.takeWhile_append_dropWhile]

/-- Characters of a kind are told apart from the first one that is not of it. -/
theorem span_append {holds : Char → Bool} {chars : List Char} (all : ∀ c ∈ chars, holds c = true) (c : Char)
    (rest : List Char) (stop : holds c = false) :
    (chars ++ c :: rest).takeWhile holds = chars ∧ (chars ++ c :: rest).dropWhile holds = c :: rest := by
  have none : ¬ holds c = true := by simp [stop]
  rw [List.takeWhile_append_of_pos all, List.dropWhile_append_of_pos all, List.takeWhile_cons_of_neg none,
    List.dropWhile_cons_of_neg none, List.append_nil]
  exact ⟨rfl, rfl⟩

section Counts

variable {low high rest : List Char} (isLow : ∀ c ∈ low, Text.isBasicDigit c = true)

include isLow

theorem readCounts_single (some : low ≠ []) :
    readCounts (low ++ '\x7d' :: rest) = countsOf low low rest := by
  obtain ⟨taken, left⟩ := span_append isLow '\x7d' rest rfl
  simp only [readCounts, taken, left]
  split
  next same =>
    obtain ⟨d, digits, rfl⟩ := List.exists_cons_of_ne_nil some
    obtain ⟨rfl, -⟩ := List.cons.inj same
    cases isLow _ List.mem_cons_self
  next same _ =>
    obtain ⟨-, rfl⟩ := List.cons.inj same
    rfl
  next other => exact absurd rfl (other _)

theorem readCounts_double {high : List Char} (isHigh : ∀ c ∈ high, Text.isBasicDigit c = true) :
    readCounts (low ++ ',' :: (high ++ '\x7d' :: rest)) = countsOf low high rest := by
  obtain ⟨taken, left⟩ := span_append isLow ',' (high ++ '\x7d' :: rest) rfl
  obtain ⟨taken', left'⟩ := span_append isHigh '\x7d' rest rfl
  simp only [readCounts, taken, left, taken', left']
  split
  next same =>
    cases low with
    | nil => cases same
    | cons d digits =>
      obtain ⟨rfl, -⟩ := List.cons.inj same
      cases isLow _ List.mem_cons_self
  next same _ =>
    obtain ⟨-, rfl⟩ := List.cons.inj same
    rfl
  next other => exact absurd rfl (other _)

end Counts

/-- A brace that does not stand for itself has digits behind it, or two times digits with a comma between them,
and then the closing brace. -/
theorem readCounts_cases {text : List Char} (opens : readCounts text ≠ .ok none) :
    ∃ low high rest : List Char, (∀ c ∈ low, Text.isBasicDigit c = true) ∧
      (∀ c ∈ high, Text.isBasicDigit c = true) ∧
      (low ≠ [] ∧ text = low ++ '\x7d' :: rest ∨ text = low ++ ',' :: (high ++ '\x7d' :: rest)) := by
  unfold readCounts at opens
  dsimp only at opens
  split at opens
  next => exact absurd rfl opens
  next rest notClosed isRest =>
    split at isRest
    next more comma =>
      have shape := comma.trans (congrArg _ (eq_takeWhile_append isRest))
      exact ⟨_, _, rest, isKind_of_mem_takeWhile, isKind_of_mem_takeWhile, .inr (eq_takeWhile_append shape)⟩
    next =>
      refine ⟨_, [], rest, isKind_of_mem_takeWhile, by simp, .inl ⟨fun none => ?_, eq_takeWhile_append isRest⟩⟩
      have text := eq_takeWhile_append isRest
      rw [none] at text
      exact notClosed _ text
  next => exact absurd rfl opens

/-- A repetition mark is taken, whatever stands behind it. -/
theorem exists_of_readRepeat {c : Char} {text rest : List Char} {min : Nat} {max : Option Nat}
    (read : readRepeat (c :: text) = .ok (some (min, max, rest))) :
    ∃ marks, text = marks ++ rest ∧ ∀ other, readRepeat (c :: marks ++ other) = .ok (some (min, max, other)) := by
  unfold readRepeat at read
  split at read
  all_goals try
    simp only [Except.ok.injEq, Option.some.injEq, Prod.mk.injEq] at read
    obtain ⟨rfl, rfl, rfl⟩ := read
  case h_1 same | h_2 same | h_3 same =>
    obtain ⟨rfl, rfl⟩ := List.cons.inj same
    exact ⟨[], rfl, fun _ => rfl⟩
  next text same =>
    obtain ⟨rfl, rfl⟩ := List.cons.inj same
    obtain ⟨low, high, behind, isLow, isHigh, shape⟩ := readCounts_cases (by rw [read]; nofun)
    rcases shape with ⟨some, rfl⟩ | rfl
    · rw [readCounts_single isLow some] at read
      obtain rfl := (countsOf_other read []).1
      refine ⟨low ++ ['\x7d'], by simp, fun other => ?_⟩
      have again := (readCounts_single isLow some).trans (countsOf_other read other).2
      simpa [readRepeat] using again
    · rw [readCounts_double isLow isHigh] at read
      obtain rfl := (countsOf_other read []).1
      refine ⟨low ++ ',' :: high ++ ['\x7d'], by simp, fun other => ?_⟩
      have again := (readCounts_double isLow isHigh).trans (countsOf_other read other).2
      simpa [readRepeat] using again

/-- What has no character at which an alternative ends is inside the text before the end of one. -/
theorem exists_of_not_mem {text border taken rest : List Char} (isBorder : Borders border)
    (inside : ∀ c ∈ taken, c ∉ [')', '|']) (same : text ++ border = taken ++ rest) :
    ∃ more, text = taken ++ more ∧ rest = more ++ border := by
  rcases List.append_eq_append_iff.mp same with ⟨more, rfl, isStop⟩ | ⟨more, rfl, rfl⟩
  · cases more with
    | nil => exact ⟨[], (List.append_nil _).symm ▸ (List.append_nil _).symm, isStop.symm⟩
    | cons c more =>
      have inside := inside c (by simp)
      rw [isStop] at isBorder
      cases isBorder <;> simp at inside
  · exact ⟨more, rfl, rfl⟩

/-- Where no repetition mark is read, none is read with another end behind the text. -/
theorem readRepeat_eq_none (text : List Char) {stop other : List Char} (isBorder : Borders other)
    (none : readRepeat (text ++ stop) = .ok none) : readRepeat (text ++ other) = .ok .none := by
  have notDigit {digits : List Char} (isDigits : ∀ c ∈ digits, Text.isBasicDigit c = true) :
      ∀ c ∈ digits, c ∉ [')', '|'] := by
    intro c mem border
    have isDigit := isDigits c mem
    simp only [List.mem_cons, List.not_mem_nil, or_false] at border
    rcases border with rfl | rfl <;> cases isDigit
  cases text with
  | nil => cases isBorder <;> rfl
  | cons c text =>
    refine Classical.byContradiction fun opens => ?_
    rw [List.cons_append] at none opens
    unfold readRepeat at none opens
    split at none
    next => cases none
    next => cases none
    next => cases none
    next same =>
      obtain ⟨rfl, rfl⟩ := List.cons.inj same
      obtain ⟨low, high, rest, isLow, isHigh, shape⟩ := readCounts_cases opens
      rcases shape with ⟨some, shape⟩ | shape
      · have shape : text ++ other = low ++ ['\x7d'] ++ rest := by simpa using shape
        have inside : ∀ c ∈ low ++ ['\x7d'], c ∉ [')', '|'] :=
          List.forall_mem_append.mpr ⟨notDigit isLow, by simp⟩
        obtain ⟨more, rfl, -⟩ := exists_of_not_mem isBorder inside shape
        rw [List.append_assoc, List.append_assoc, List.singleton_append, readCounts_single isLow some] at none
        exact countsOf_ne_none none
      · have shape : text ++ other = low ++ [','] ++ (high ++ ['\x7d']) ++ rest := by simpa using shape
        have inside : ∀ c ∈ low ++ [','] ++ (high ++ ['\x7d']), c ∉ [')', '|'] :=
          List.forall_mem_append.mpr ⟨List.forall_mem_append.mpr ⟨notDigit isLow, by simp⟩,
            List.forall_mem_append.mpr ⟨notDigit isHigh, by simp⟩⟩
        obtain ⟨more, rfl, -⟩ := exists_of_not_mem isBorder inside shape
        have shown : low ++ [','] ++ (high ++ ['\x7d']) ++ more ++ stop =
            low ++ ',' :: (high ++ '\x7d' :: (more ++ stop)) := by simp
        rw [shown, readCounts_double isLow isHigh] at none
        exact countsOf_ne_none none
    next notOption notStar notPlus notBrace =>
      split at opens
      next same => exact notOption _ (by rw [(List.cons.inj same).1])
      next same => exact notStar _ (by rw [(List.cons.inj same).1])
      next same => exact notPlus _ (by rw [(List.cons.inj same).1])
      next same => exact notBrace _ (by rw [(List.cons.inj same).1])
      next => exact opens rfl

theorem local_repeatPiece (last : Option Piece) (min : Nat) (max : Option Nat) :
    Local (repeatPiece last min max) := by
  intro text value rest read
  unfold repeatPiece at read
  split at read
  next => cases read
  next => cases read
  next => cases read
  next p text =>
    obtain ⟨rfl, rfl⟩ := Prod.mk.inj (Except.ok.inj read)
    exact ⟨['?'], rfl, fun _ _ => rfl⟩
  next p text =>
    obtain ⟨rfl, rfl⟩ := Prod.mk.inj (Except.ok.inj read)
    exact ⟨['+'], rfl, fun _ _ => rfl⟩
  next p notLazy notPlus =>
    obtain ⟨rfl, rfl⟩ := Prod.mk.inj (Except.ok.inj read)
    refine ⟨[], rfl, fun other alike => ?_⟩
    have ordinary {c : Char} {rest : List Char} (inside : c ∉ [')', '|']) (differs : ∀ rest, text ≠ c :: rest) :
        [] ++ other ≠ c :: rest := by
      rintro rfl
      obtain ⟨rest, same⟩ := alike.begins inside
      exact differs rest same
    unfold repeatPiece
    split
    next same => cases same
    next same => cases same
    next same => cases same
    next begins => exact absurd begins (ordinary (by decide) notLazy)
    next begins => exact absurd begins (ordinary (by decide) notPlus)
    next same _ _ =>
      obtain rfl := Piece.plain.inj (Option.some.inj same)
      rfl

/-! ### Groups -/

/-- The name that the opening of a group brings along. -/
def GroupHead.own : GroupHead → GroupNames
  | .capture name => name.toList
  | _ => []

theorem skipPast_cons {c stop : Char} (notEscape : c ≠ '\\') (text : List Char) :
    skipPast stop (c :: text) = if c = stop then some text else skipPast stop text := by
  rw [skipPast]
  rintro _ _ rfl
  exact absurd rfl notEscape

/-- What is skipped up to a character ends there, whatever stands behind it. -/
theorem exists_of_skipPast {stop : Char} {text rest : List Char} (plain : stop ≠ '\\')
    (skipped : skipPast stop text = some rest) :
    ∃ taken, text = taken ++ rest ∧ ∀ other, skipPast stop (taken ++ other) = some other := by
  fun_induction skipPast stop text with
  | case1 c text ih =>
    obtain ⟨taken, rfl, again⟩ := ih skipped
    exact ⟨'\\' :: c :: taken, rfl, again⟩
  | case2 text notEscape =>
    obtain rfl := Option.some.inj skipped
    exact ⟨[stop], rfl, fun other => (skipPast_cons plain other).trans (if_pos rfl)⟩
  | case3 c text notEscape differs ih =>
    have notBackslash : c ≠ '\\' := by
      rintro rfl
      cases text with
      | nil => cases skipped
      | cons d text => exact notEscape d text rfl rfl
    obtain ⟨taken, rfl, again⟩ := ih skipped
    refine ⟨c :: taken, rfl, fun other => ?_⟩
    rw [List.cons_append, skipPast_cons notBackslash, if_neg differs, again]
  | case4 => cases skipped

theorem skipLine_cons {c : Char} (notEscape : c ≠ '\\') (notEnd : c ≠ '\n') (text : List Char) :
    skipLine (c :: text) = skipLine text := by
  rw [skipLine]
  · rintro _ _ rfl
    exact absurd rfl notEscape
  · rintro rfl
    exact absurd rfl notEscape
  · exact notEnd

/-- A line that is skipped ends there, whatever stands behind it, or it goes on to the end of the text, and then it
takes a closing parenthesis there along. -/
theorem exists_of_skipLine {text rest : List Char} (skipped : skipLine text = .ok rest) :
    (∃ taken, text = taken ++ rest ∧ ∀ other, skipLine (taken ++ other) = .ok other) ∨
      rest = [] ∧ skipLine (text ++ [')']) = .ok [] := by
  fun_induction skipLine text with
  | case1 c text ih =>
    refine (ih skipped).imp_left ?_
    rintro ⟨taken, rfl, again⟩
    exact ⟨'\\' :: c :: taken, rfl, again⟩
  | case2 => cases skipped
  | case3 text =>
    obtain rfl := Except.ok.inj skipped
    exact .inl ⟨['\n'], rfl, fun _ => rfl⟩
  | case4 c text notEscape notLast notEnd ih =>
    have notBackslash : c ≠ '\\' := by
      rintro rfl
      cases text with
      | nil => exact notLast rfl rfl
      | cons d text => exact notEscape d text rfl rfl
    refine (ih skipped).imp ?_ (And.imp_right fun again => (skipLine_cons notBackslash notEnd _).trans again)
    rintro ⟨taken, rfl, again⟩
    exact ⟨c :: taken, rfl, fun other => (skipLine_cons notBackslash notEnd _).trans (again other)⟩
  | case5 =>
    obtain rfl := Except.ok.inj skipped
    exact .inr ⟨rfl, rfl⟩

/-- The name of a group is what stands before the closing bracket, if it is an identifier and new. -/
theorem readGroupName_append {names : GroupNames} {chars : List Char} (inside : '>' ∉ chars) (rest : List Char) :
    readGroupName names (chars ++ '>' :: rest) =
      if Text.isIdentifier chars = false ∨ String.ofList chars ∈ names then .error .badGroup
      else .ok (String.ofList chars, rest) := by
  have all : ∀ c ∈ chars, decide (c ≠ '>') = true := by
    intro c mem
    rw [decide_eq_true_eq]
    rintro rfl
    exact inside mem
  obtain ⟨taken, left⟩ := span_append all '>' rest (by decide)
  simp only [readGroupName, taken, left]

theorem exists_of_readGroupName {names : GroupNames} {text rest : List Char} {name : String}
    (read : readGroupName names text = .ok (name, rest)) :
    ∃ chars, '>' ∉ chars ∧ text = chars ++ '>' :: rest ∧ name = String.ofList chars := by
  have stop := List.head?_dropWhile_not (fun c => decide (c ≠ '>')) text
  simp only [readGroupName] at read
  split at read
  next => cases read
  next c behind left =>
    split at read
    next => cases read
    next =>
      obtain ⟨rfl, rfl⟩ := Prod.mk.inj (Except.ok.inj read)
      simp only [left, List.head?_cons, decide_eq_false_iff_not, ne_eq, Decidable.not_not] at stop
      obtain rfl := stop
      refine ⟨_, fun mem => ?_, eq_takeWhile_append left, rfl⟩
      simpa using isKind_of_mem_takeWhile _ mem

theorem exists_of_named {names : GroupNames} {text rest : List Char} {head : GroupHead}
    (read : readGroupHead names ('?' :: 'P' :: '<' :: text) = .ok (head, rest)) :
    ∃ name, readGroupName names text = .ok (name, rest) ∧ head = .capture (some name) := by
  unfold readGroupHead at read
  cases first : readGroupName names text with
  | error e => simp only [first, Except.map, reduceCtorEq] at read
  | ok result =>
    simp only [first, Except.map, Except.ok.injEq, Prod.mk.injEq] at read
    obtain ⟨rfl, rfl⟩ := read
    exact ⟨_, rfl, rfl⟩

/-- The opening of a group with a name ends with the name. -/
theorem readGroupHead_named {names : GroupNames} {chars rest rest' : List Char} {head : GroupHead}
    (inside : '>' ∉ chars)
    (read : readGroupHead names ('?' :: 'P' :: '<' :: (chars ++ '>' :: rest)) = .ok (head, rest')) :
    head = .capture (some (String.ofList chars)) ∧ rest' = rest := by
  obtain ⟨name, named, rfl⟩ := exists_of_named read
  rw [readGroupName_append inside] at named
  split at named
  next => cases named
  next =>
    obtain ⟨rfl, rfl⟩ := Prod.mk.inj (Except.ok.inj named)
    exact ⟨rfl, rfl⟩

/-- A group can have a name that is an identifier and new. -/
theorem readGroupHead_capture {names : GroupNames} {name : String} (inside : '>' ∉ name.toList)
    (isIdentifier : Text.isIdentifier name.toList = true) (fresh : name ∉ names) (rest : List Char) :
    readGroupHead names ('?' :: 'P' :: '<' :: (name.toList ++ '>' :: rest)) = .ok (.capture (some name), rest) := by
  have named : readGroupName names (name.toList ++ '>' :: rest) = .ok (name, rest) := by
    rw [readGroupName_append inside, String.ofList_toList, if_neg (by simp [isIdentifier, fresh])]
  rw [readGroupHead, named]
  rfl

theorem readGroupHead_of_ne {names : GroupNames} {text : List Char} (plain : ∀ rest, text ≠ '?' :: rest) :
    readGroupHead names text = .ok (.capture none, text) := by
  rw [readGroupHead] <;> exact fun _ => plain _

/-- Flags that a group may turn on and off, whatever stands behind them. -/
theorem readScope_other {on off text rest : List Char} {head : GroupHead}
    (read : readScope on off text = .ok (head, rest)) :
    head = .under on off ∧ rest = text ∧ ∀ other, readScope on off other = .ok (head, other) := by
  unfold readScope at read ⊢
  split at read
  next => cases read
  next allowed =>
    obtain ⟨rfl, rfl⟩ := Prod.mk.inj (Except.ok.inj read)
    exact ⟨rfl, rfl, fun other => if_neg allowed⟩

section Flags

variable {on off rest : List Char} (isOn : ∀ c ∈ on, isFlagLetter c = true)

include isOn

theorem readFlagLetters_on : readFlagLetters (on ++ ':' :: rest) = readScope on [] rest := by
  obtain ⟨taken, left⟩ := span_append isOn ':' rest rfl
  simp only [readFlagLetters, taken, left]

theorem readFlagLetters_off (isOff : ∀ c ∈ off, isFlagLetter c = true) (some : off ≠ []) :
    readFlagLetters (on ++ '-' :: (off ++ ':' :: rest)) = readScope on off rest := by
  obtain ⟨taken, left⟩ := span_append isOn '-' (off ++ ':' :: rest) rfl
  obtain ⟨taken', left'⟩ := span_append isOff ':' rest rfl
  obtain ⟨c, off, rfl⟩ := List.exists_cons_of_ne_nil some
  simp only [readFlagLetters, taken, left, taken', left']

end Flags

/-- Flags of a group are letters and then a colon, with a hyphen and letters between them if some are turned off. -/
theorem readFlagLetters_cases {text rest : List Char} {head : GroupHead}
    (read : readFlagLetters text = .ok (head, rest)) :
    ∃ on off behind : List Char, (∀ c ∈ on, isFlagLetter c = true) ∧ (∀ c ∈ off, isFlagLetter c = true) ∧
      (text = on ++ ':' :: behind ∨ off ≠ [] ∧ text = on ++ '-' :: (off ++ ':' :: behind)) := by
  unfold readFlagLetters at read
  split at read
  next behind left =>
    exact ⟨_, [], behind, isKind_of_mem_takeWhile, by simp, .inl (eq_takeWhile_append left)⟩
  next behind left =>
    split at read
    next c off rest' isOff left' =>
      have shape := eq_takeWhile_append left'
      rw [isOff] at shape
      have letters : ∀ d ∈ c :: off, isFlagLetter d = true := isOff ▸ isKind_of_mem_takeWhile
      exact ⟨_, c :: off, rest', isKind_of_mem_takeWhile, letters,
        .inr ⟨List.cons_ne_nil _ _, shape ▸ eq_takeWhile_append left⟩⟩
    next => cases read
  next => cases read

/-- The flags of a group end at the colon behind them. They begin with a letter or a hyphen, if there are any. -/
theorem exists_of_readFlagLetters {text rest : List Char} {head : GroupHead}
    (read : readFlagLetters text = .ok (head, rest)) (some : ∀ rest, text ≠ ':' :: rest) :
    ∃ c taken, (isFlagLetter c = true ∨ c = '-') ∧ text = c :: taken ++ rest ∧
      (∃ on off, head = .under on off) ∧ ∀ other, readFlagLetters (c :: taken ++ other) = .ok (head, other) := by
  obtain ⟨on, off, behind, isOn, isOff, rfl | ⟨any, rfl⟩⟩ := readFlagLetters_cases read
  · rw [readFlagLetters_on isOn] at read
    obtain ⟨rfl, rfl, again⟩ := readScope_other read
    cases on with
    | nil => exact absurd rfl (some _)
    | cons c on =>
      refine ⟨c, on ++ [':'], .inl (isOn c List.mem_cons_self), by simp, ⟨_, _, rfl⟩, fun other => ?_⟩
      simpa using (readFlagLetters_on isOn).trans (again other)
  · rw [readFlagLetters_off isOn isOff any] at read
    obtain ⟨rfl, rfl, again⟩ := readScope_other read
    have whole (other : List Char) := (readFlagLetters_off isOn isOff any).trans (again other)
    cases on with
    | nil => exact ⟨'-', off ++ [':'], .inr rfl, by simp, ⟨_, _, rfl⟩, fun other => by simpa using whole other⟩
    | cons c on =>
      exact ⟨c, on ++ '-' :: off ++ [':'], .inl (isOn c List.mem_cons_self), by simp, ⟨_, _, rfl⟩,
        fun other => by simpa using whole other⟩

theorem readGroupHead_letters {names : GroupNames} {c : Char} (letter : isFlagLetter c = true ∨ c = '-')
    (text : List Char) : readGroupHead names ('?' :: c :: text) = readFlagLetters (c :: text) := by
  rw [readGroupHead]
  all_goals
    intros
    rename_i same
    obtain ⟨rfl, -⟩ := List.cons.inj same
    revert letter
    decide

/-- The opening of a group brings no name along, and is read after any names, or it has a name that is new, or it is
the parenthesis alone. -/
theorem readGroupHead_cases {names : GroupNames} {text rest : List Char} {head : GroupHead}
    (read : readGroupHead names text = .ok (head, rest)) :
    (∃ taken, text = taken ++ rest ∧ head.own = [] ∧
        ∀ names other, readGroupHead names (taken ++ other) = .ok (head, other)) ∨
      (∃ name behind, text = '?' :: 'P' :: '<' :: behind ∧ readGroupName names behind = .ok (name, rest) ∧
        head = .capture (some name)) ∨
      head = .capture none ∧ rest = text ∧ ∀ rest, text ≠ '?' :: rest := by
  have fixed (taken : List Char) {text : List Char} {head' : GroupHead}
      (read : (.ok (head', text) : Except PatternError _) = .ok (head, rest)) (nameless : head'.own = [])
      (all : ∀ names other, readGroupHead names (taken ++ other) = .ok (head', other)) :
      ∃ taken', taken ++ text = taken' ++ rest ∧ head.own = [] ∧
        ∀ names other, readGroupHead names (taken' ++ other) = .ok (head, other) := by
    obtain ⟨rfl, rfl⟩ := Prod.mk.inj (Except.ok.inj read)
    exact ⟨taken, rfl, nameless, all⟩
  unfold readGroupHead at read
  split at read
  next => exact .inl (fixed ['?', ':'] read rfl fun _ _ => rfl)
  next => exact .inl (fixed ['?', '='] read rfl fun _ _ => rfl)
  next => exact .inl (fixed ['?', '!'] read rfl fun _ _ => rfl)
  next => exact .inl (fixed ['?', '<', '='] read rfl fun _ _ => rfl)
  next => exact .inl (fixed ['?', '<', '!'] read rfl fun _ _ => rfl)
  next => exact .inl (fixed ['?', '>'] read rfl fun _ _ => rfl)
  next => exact .inl (fixed ['?', '#'] read rfl fun _ _ => rfl)
  next => cases read
  next => cases read
  next text =>
    have opened : readGroupHead names ('?' :: 'P' :: '<' :: text) = .ok (head, rest) := read
    obtain ⟨name, named, rfl⟩ := exists_of_named opened
    exact .inr (.inl ⟨name, text, rfl, named, rfl⟩)
  next text notPlain _ _ _ _ _ _ _ _ _ =>
    obtain ⟨c, taken, letter, rfl, ⟨on, off, rfl⟩, again⟩ :=
      exists_of_readFlagLetters read fun rest same => notPlain rest (same ▸ rfl)
    refine .inl ⟨'?' :: c :: taken, rfl, rfl, fun names other => ?_⟩
    exact (readGroupHead_letters letter _).trans (again other)
  next notGroup =>
    obtain ⟨rfl, rfl⟩ := Prod.mk.inj (Except.ok.inj read)
    exact .inr (.inr ⟨rfl, rfl, fun rest same => notGroup rest same⟩)

/-- The opening of a group is taken, whatever the names of the groups before it are, if it can be read. -/
theorem exists_of_readGroupHead {names : GroupNames} {text rest : List Char} {head : GroupHead}
    (read : readGroupHead names text = .ok (head, rest)) :
    ∃ taken, text = taken ++ rest ∧ ∀ other, Alike rest other → ∀ names' head' rest',
      readGroupHead names' (taken ++ other) = .ok (head', rest') → head' = head ∧ rest' = other := by
  rcases readGroupHead_cases read with ⟨taken, rfl, -, all⟩ | ⟨name, behind, rfl, named, rfl⟩ | ⟨rfl, rfl, plain⟩
  · refine ⟨taken, rfl, fun other _ names' head' rest' read' => ?_⟩
    obtain ⟨rfl, rfl⟩ := Prod.mk.inj (Except.ok.inj ((all names' other).symm.trans read'))
    exact ⟨rfl, rfl⟩
  · obtain ⟨chars, inside, rfl, rfl⟩ := exists_of_readGroupName named
    refine ⟨'?' :: 'P' :: '<' :: chars ++ ['>'], by simp, fun other _ names' head' rest' read' => ?_⟩
    have same : '?' :: 'P' :: '<' :: chars ++ ['>'] ++ other = '?' :: 'P' :: '<' :: (chars ++ '>' :: other) := by
      simp
    rw [same] at read'
    exact readGroupHead_named inside read'
  · refine ⟨[], rfl, fun other alike names' head' rest' read' => ?_⟩
    have ordinary : ∀ rest, other ≠ '?' :: rest := by
      rintro rest rfl
      obtain ⟨rest, rfl⟩ := alike.begins (by decide)
      exact plain _ rfl
    obtain ⟨rfl, rfl⟩ := Prod.mk.inj (Except.ok.inj ((readGroupHead_of_ne ordinary).symm.trans read'))
    exact ⟨rfl, rfl⟩

end Readers

end Pattern

end Grammatic
