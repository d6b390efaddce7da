import Grammatic.Proofs.Source.Recording

/-!
# The lines of a text

A line begins at the start of a text or behind a newline, and goes on to the next newline or to the end of the text
(`IsLine`). Two lines that overlap are one (`IsLine.eq_of_overlap`), so the lines are a partition, and a line can be
told by where it begins, by where it ends, or by the number of newlines before it (`IsLine.start_eq_iff`,
`IsLine.count_eq_iff`).

The start of a line is searched backward from a place and its end forward, and each search treats the end of a text
in its own way: what ends in a newline has no empty line behind it. Both searches find the line of the place
(`isLine_of_place`), and it is the one that the recorded newlines tell (`line_answers_agree`).
-/

namespace Grammatic.Source

variable {source : Source} {text : List Char} {start stop start' stop' place : Nat}

/-! ## Stretches -/

theorem length_stretch (le : stop ≤ text.length) : ((text.take stop).drop start).length = stop - start := by
  rw [List.length_drop, List.length_take_of_le le]

/-- A character of a stretch is the one at its place in the text. -/
theorem getElem?_stretch_iff {i : Nat} {c : Char} :
    ((text.take stop).drop start)[i]? = some c ↔ start + i < stop ∧ text[start + i]? = some c := by
  rw [List.getElem?_drop, List.getElem?_take]
  split
  next less => exact (and_iff_right less).symm
  next other => exact iff_of_false nofun fun inside => other inside.1

/-- The characters of a stretch are those at its places. -/
theorem mem_stretch_iff {c : Char} :
    c ∈ (text.take stop).drop start ↔ ∃ i, start ≤ i ∧ i < stop ∧ text[i]? = some c := by
  simp only [List.mem_iff_getElem?, getElem?_stretch_iff]
  constructor
  · rintro ⟨i, less, found⟩
    exact ⟨start + i, Nat.le_add_right _ _, less, found⟩
  · rintro ⟨i, behind, less, found⟩
    exact ⟨i - start, by omega, by rwa [Nat.add_sub_cancel' behind]⟩

/-! ## Lines -/

/-- A line of a text: from the start of the text or a newline on, up to the next newline, which belongs to it, or to
the end of the text. It is empty only if the text is. -/
structure IsLine (text : List Char) (start stop : Nat) : Prop where
  le : stop ≤ text.length
  lt : text ≠ [] → start < stop
  begins : start = 0 ∨ text[start - 1]? = some '\n'
  ends : stop = text.length ∨ text[stop - 1]? = some '\n'
  inside : ∀ place, start ≤ place → place + 1 < stop → text[place]? ≠ some '\n'

/-- A line that begins inside another begins where that does: it would be behind a newline of it. -/
theorem IsLine.start_le (line : IsLine text start stop) (line' : IsLine text start' stop') (within : start' < stop) :
    start' ≤ start := by
  apply Nat.le_of_not_lt
  intro less
  have behind := line'.begins.resolve_left (by omega)
  exact line.inside (start' - 1) (by omega) (by omega) behind

/-- A line that ends inside another ends where that does. -/
theorem IsLine.stop_le (line : IsLine text start stop) (line' : IsLine text start' stop') (within : start' < stop) :
    stop' ≤ stop := by
  apply Nat.le_of_not_lt
  intro less
  have le := line'.le
  have newline := line.ends.resolve_left (by omega)
  exact line'.inside (stop - 1) (by omega) (by omega) newline

/-- Two lines that overlap are one. -/
theorem IsLine.eq_of_overlap (line : IsLine text start stop) (line' : IsLine text start' stop')
    (before : start < stop') (within : start' < stop) : start = start' ∧ stop = stop' :=
  ⟨Nat.le_antisymm (line'.start_le line before) (line.start_le line' within),
    Nat.le_antisymm (line'.stop_le line before) (line.stop_le line' within)⟩

/-- Lines that begin together end together, and the other way round. -/
theorem IsLine.start_eq_iff (line : IsLine text start stop) (line' : IsLine text start' stop') :
    start = start' ↔ stop = stop' := by
  by_cases empty : text = []
  · -- the one line of an empty text
    subst empty
    have le := line.le
    have le' := line'.le
    have begins := line.begins
    have begins' := line'.begins
    simp only [List.length_nil, List.getElem?_nil, reduceCtorEq, or_false] at le le' begins begins'
    omega
  · have lt := line.lt empty
    have lt' := line'.lt empty
    constructor
    · rintro rfl
      exact (line.eq_of_overlap line' lt' lt).2
    · rintro rfl
      exact (line.eq_of_overlap line' lt lt').1

/-- Of two lines the later one has more newlines before it, for it is behind one that the other is not behind. -/
theorem IsLine.count_lt (line' : IsLine text start' stop') (less : start < start') :
    (text.take start).count '\n' < (text.take start').count '\n' := by
  have newline := line'.begins.resolve_left (by omega)
  have mem : '\n' ∈ (text.take start').drop start :=
    mem_stretch_iff.mpr ⟨start' - 1, by omega, by omega, newline⟩
  rw [count_take (Nat.le_of_lt less)]
  exact Nat.lt_add_of_pos_right (List.count_pos_iff.mpr mem)

/-- Lines with as many newlines before them begin together. -/
theorem IsLine.count_eq_iff (line : IsLine text start stop) (line' : IsLine text start' stop') :
    (text.take start).count '\n' = (text.take start').count '\n' ↔ start = start' := by
  constructor
  · intro same
    rcases Nat.lt_trichotomy start start' with less | same' | more
    · exact absurd (line'.count_lt less) (by omega)
    · exact same'
    · exact absurd (line.count_lt more) (by omega)
  · rintro rfl
    rfl

/-! ## Searches -/

/-- The characters up to the first newline. -/
theorem takeWhile_newline (text : List Char) :
    let run := (text.takeWhile (· ≠ '\n')).length
    run ≤ text.length ∧ (run < text.length → text[run]? = some '\n') ∧ ∀ i < run, text[i]? ≠ some '\n' := by
  induction text with
  | nil => simp
  | cons c text ih =>
    obtain ⟨le, stops, before⟩ := ih
    by_cases newline : c = '\n'
    · simp [newline]
    · rw [List.takeWhile_cons_of_pos (by simpa using newline)]
      refine ⟨Nat.succ_le_succ le, fun less => stops (Nat.lt_of_succ_lt_succ less), fun i less => ?_⟩
      cases i with
      | zero => simpa using newline
      | succ i => exact before i (Nat.lt_of_succ_lt_succ less)

/-- The place of a text whose line is meant by a place: the end of a text is behind its last line, and is taken to be
in it. -/
def innerPlace (text : List Char) (place : Nat) : Nat :=
  if place = text.length ∧ text.getLast? = some '\n' then place - 1 else place

theorem innerPlace_cases (text : List Char) (place : Nat) :
    place = text.length ∧ text.getLast? = some '\n' ∧ innerPlace text place + 1 = place ∨
      ¬ (place = text.length ∧ text.getLast? = some '\n') ∧ innerPlace text place = place := by
  by_cases ended : place = text.length ∧ text.getLast? = some '\n'
  · have pos : 0 < text.length := List.length_pos_of_mem (List.mem_of_getLast? ended.2)
    have inner : innerPlace text place = place - 1 := if_pos ended
    exact .inl ⟨ended.1, ended.2, by omega⟩
  · exact .inr ⟨ended, if_neg ended⟩

theorem innerPlace_le (text : List Char) (place : Nat) : innerPlace text place ≤ place := by
  rcases innerPlace_cases text place with ⟨-, -, inner⟩ | ⟨-, inner⟩
  · omega
  · omega

/-- The newlines before the line of a place. -/
theorem lineOf_eq_count (text : List Char) (place : Nat) :
    lineOf text place = (text.take (innerPlace text place)).count '\n' := by
  unfold lineOf innerPlace
  split
  next ended =>
    obtain ⟨rfl, isLast⟩ := ended
    obtain ⟨front, rfl⟩ := List.getLast?_eq_some_iff.mp isLast
    rw [List.take_length, List.count_append, List.count_singleton_self, List.length_append, List.length_singleton,
      Nat.add_sub_cancel, Nat.add_sub_cancel, List.take_left]
  next => rfl

/-- The backward search looks at the characters before the inner place. -/
theorem lineStart_eq (le : place ≤ source.length) :
    source.lineStart place = innerPlace source.chars place -
      ((source.chars.take (innerPlace source.chars place)).reverse.takeWhile (· ≠ '\n')).length := by
  have position : source.placeOf (if (place : Int) = source.length ∧ source.endsLine then place - 1 else place) =
      innerPlace source.chars place := by
    rcases innerPlace_cases source.chars place with ⟨isEnd, isLast, inner⟩ | ⟨notEnded, inner⟩
    · have ended : (place : Int) = source.length ∧ source.endsLine = true :=
        ⟨Int.ofNat_inj.mpr isEnd, decide_eq_true isLast⟩
      rw [if_pos ended, placeOf, if_neg (by omega)]
      omega
    · have notEnded' : ¬ ((place : Int) = source.length ∧ source.endsLine = true) := fun ended =>
        notEnded ⟨Int.ofNat_inj.mp ended.1, of_decide_eq_true ended.2⟩
      rw [inner, if_neg notEnded', placeOf, if_neg (by omega), Int.toNat_natCast]
  have inner : (source.chars.take (innerPlace source.chars place)).length = innerPlace source.chars place :=
    List.length_take_of_le (Nat.le_trans (innerPlace_le _ _) le)
  simp only [lineStart, position, inner]

/-- The backward search stops behind the last newline before the inner place, or at the start of the text. -/
theorem lineStart_spec (le : place ≤ source.length) :
    let start := source.lineStart place
    start ≤ innerPlace source.chars place ∧ (start = 0 ∨ source.chars[start - 1]? = some '\n') ∧
      ∀ i, start ≤ i → i < innerPlace source.chars place → source.chars[i]? ≠ some '\n' := by
  intro start
  have within : innerPlace source.chars place ≤ source.chars.length := Nat.le_trans (innerPlace_le _ _) le
  have isStart : start = _ := lineStart_eq le
  generalize innerPlace source.chars place = inner at within isStart ⊢
  have length : (source.chars.take inner).length = inner := List.length_take_of_le within
  have reversed (i : Nat) (less : i < inner) :
      (source.chars.take inner).reverse[inner - 1 - i]? = source.chars[i]? := by
    have same : inner - 1 - (inner - 1 - i) = i := by omega
    rw [List.getElem?_reverse (by omega), length, same, List.getElem?_take, if_pos less]
  obtain ⟨le, stops, before⟩ := takeWhile_newline (source.chars.take inner).reverse
  rw [List.length_reverse, length] at le stops
  refine ⟨by omega, ?_, fun i behind less => ?_⟩
  · by_cases none : start = 0
    · exact .inl none
    · right
      have place : inner - 1 - (start - 1) =
          ((source.chars.take inner).reverse.takeWhile (· ≠ '\n')).length := by omega
      rw [← reversed (start - 1) (by omega), place]
      exact stops (by omega)
  · rw [← reversed i less]
    exact before _ (by omega)

/-- The forward search stops behind the first newline from a place on, or at the end of the text. -/
theorem lineEnd_spec (le : place ≤ source.length) :
    let stop := source.lineEnd place
    place ≤ stop ∧ stop ≤ source.length ∧ (place < source.length → place < stop) ∧
      (stop = source.length ∨ source.chars[stop - 1]? = some '\n') ∧
      ∀ i, place ≤ i → i + 1 < stop → source.chars[i]? ≠ some '\n' := by
  intro stop
  have position : source.placeOf place = place := by
    rw [placeOf, if_neg (by omega), Int.toNat_natCast]
  have length : (source.chars.drop place).length = source.length - place := List.length_drop
  obtain ⟨within, stops, before⟩ := takeWhile_newline (source.chars.drop place)
  have isStop : stop = if ((source.chars.drop place).takeWhile (· ≠ '\n')).length = source.length - place
      then source.length else place + ((source.chars.drop place).takeWhile (· ≠ '\n')).length + 1 := by
    show source.lineEnd place = _
    simp only [lineEnd, position, length]
  generalize ((source.chars.drop place).takeWhile (· ≠ '\n')).length = run at within stops before isStop
  rw [length] at within stops
  have free (i : Nat) (behind : place ≤ i) (less : i < place + run) : source.chars[i]? ≠ some '\n' := by
    have none := before (i - place) (by omega)
    rwa [List.getElem?_drop, Nat.add_sub_cancel' behind] at none
  split at isStop
  next all =>
    exact ⟨by omega, by omega, fun less => by omega, .inl isStop, fun i behind less => free i behind (by omega)⟩
  next some =>
    refine ⟨by omega, by omega, fun _ => by omega, .inr ?_, fun i behind less => free i behind (by omega)⟩
    have newline := stops (by omega)
    rw [List.getElem?_drop] at newline
    rwa [isStop, Nat.add_sub_cancel]

/-- The two searches find the line of a place. -/
theorem isLine_of_place (le : place ≤ source.length) :
    IsLine source.chars (source.lineStart place) (source.lineEnd place) := by
  obtain ⟨startLe, begins, before⟩ := lineStart_spec le
  obtain ⟨leStop, stopLe, further, ends, behind⟩ := lineEnd_spec le
  have length : source.chars.length = source.length := rfl
  refine ⟨stopLe, fun nonempty => ?_, begins, ends, fun i after less => ?_⟩
  · rcases innerPlace_cases source.chars place with ⟨-, -, inner⟩ | ⟨notEnded, inner⟩
    · omega
    · by_cases atEnd : place = source.length
      · -- a line that began at the end of the text would be behind a newline
        have notEmpty : source.lineStart place ≠ source.length := by
          intro same
          have pos := List.length_pos_iff.mpr nonempty
          have newline := begins.resolve_left (by omega)
          rw [same, ← length, ← List.getLast?_eq_getElem?] at newline
          exact notEnded ⟨atEnd, newline⟩
        omega
      · have := further (by omega)
        omega
  · rcases innerPlace_cases source.chars place with ⟨isEnd, -, inner⟩ | ⟨-, inner⟩
    · exact before i after (by omega)
    · rcases Nat.lt_or_ge i place with early | late
      · exact before i after (by omega)
      · exact behind i late less

theorem lineStart_le (le : place ≤ source.length) : source.lineStart place ≤ place :=
  Nat.le_trans (lineStart_spec le).1 (innerPlace_le _ _)

theorem le_lineEnd (le : place ≤ source.length) : place ≤ source.lineEnd place := (lineEnd_spec le).1

theorem lineEnd_le (le : place ≤ source.length) : source.lineEnd place ≤ source.length := (lineEnd_spec le).2.1

/-- Between the start of the line of a place and the place there are no newlines to be counted. -/
theorem count_lineStart (le : place ≤ source.length) :
    (source.chars.take (source.lineStart place)).count '\n' = lineOf source.chars place := by
  obtain ⟨startLe, -, before⟩ := lineStart_spec le
  rw [lineOf_eq_count, count_take startLe]
  refine (Nat.add_eq_left.mpr (List.count_eq_zero.mpr fun mem => ?_)).symm
  obtain ⟨i, after, less, newline⟩ := mem_stretch_iff.mp mem
  exact before i after less newline

/-- A stretch without a newline but as its last character does not go on behind the line it starts in. -/
theorem stop_le_lineEnd (lt : start < stop) (le : stop ≤ source.length)
    (inside : ∀ i, start ≤ i → i + 1 < stop → source.chars[i]? ≠ some '\n') : stop ≤ source.lineEnd start := by
  obtain ⟨-, -, further, ends, -⟩ := lineEnd_spec (Nat.le_trans (Nat.le_of_lt lt) le)
  apply Nat.le_of_not_lt
  intro less
  have := further (by omega)
  exact inside (source.lineEnd start - 1) (by omega) (by omega) (ends.resolve_left (by omega))

/-- Places between which there is no newline are in one line. -/
theorem lineOf_eq (le : start ≤ stop) (within : stop < text.length)
    (free : ∀ i, start ≤ i → i < stop → text[i]? ≠ some '\n') : lineOf text start = lineOf text stop := by
  have notEnd : ¬ (stop = text.length ∧ text.getLast? = some '\n') := by omega
  have notEnd' : ¬ (start = text.length ∧ text.getLast? = some '\n') := by omega
  simp only [lineOf, if_neg notEnd, if_neg notEnd', count_take le]
  refine (Nat.add_eq_left.mpr (List.count_eq_zero.mpr fun mem => ?_)).symm
  obtain ⟨i, after, less, newline⟩ := mem_stretch_iff.mp mem
  exact free i after less newline

/-- A line has no newline but as its last character. -/
theorem IsLine.not_mem_dropLast (line : IsLine text start stop) :
    '\n' ∉ ((text.take stop).drop start).dropLast := by
  intro mem
  obtain ⟨i, found⟩ := List.mem_iff_getElem?.mp mem
  rw [List.getElem?_dropLast, length_stretch line.le] at found
  split at found
  next early =>
    obtain ⟨-, newline⟩ := getElem?_stretch_iff.mp found
    exact line.inside (start + i) (Nat.le_add_right _ _) (by omega) newline
  next => cases found

/-! ## Answers -/

/-- The answer of a source that has a record, which it keeps. -/
theorem Records.exists_lineIndex (records : Records text source) (le : place ≤ text.length) :
    ∃ after, lineIndex place source = .ok (lineOf text place) after ∧ Records text after := by
  obtain ⟨after, told⟩ := records.answersLines place le
  have within : (place : Int) ≤ text.length := Int.ofNat_le.mpr le
  have kept := records.scanned within
  obtain rfl := records.chars
  obtain ⟨-, rfl⟩ := EStateM.Result.ok.inj (told.symm.trans (lineIndex_eq_ok le))
  exact ⟨_, told, kept⟩

/-- Behind any history of calls that does not overrun it, the empty one included, a source is asked for two places of
its text. The place is between the start and the end of its line; the line has no newline but as its last character;
its index is the number of newlines before its start. Both places have one index just if their lines start together,
and just if they end together. -/
theorem line_answers_agree (name text : String) (calls : List Call) (stays : ¬ Overruns (ofText name text) calls)
    {place other : Nat} (within : place ≤ text.length) (within' : other ≤ text.length) :
    let source := (ofText name text).afterAll calls
    ∃ index index' after after',
      lineIndex place source = .ok index after ∧ lineIndex other after = .ok index' after' ∧
      (source.lineStart place ≤ place ∧ place ≤ source.lineEnd place ∧ source.lineEnd place ≤ text.length) ∧
      '\n' ∉ (source.lineBetween (source.lineStart place) (source.lineEnd place)).dropLast ∧
      (text.toList.take (source.lineStart place)).count '\n' = index ∧
      (index = index' ↔ source.lineStart place = source.lineStart other) ∧
      (source.lineStart place = source.lineStart other ↔ source.lineEnd place = source.lineEnd other) := by
  intro source
  have records : Records text.toList source := by
    rcases (records_ofText name text).afterAll_cases calls with ⟨-, records⟩ | ⟨overruns, -⟩
    · exact records
    · exact absurd overruns stays
  have chars : source.chars = text.toList := records.chars
  have le : place ≤ source.chars.length := by rwa [chars, String.length_toList]
  have le' : other ≤ source.chars.length := by rwa [chars, String.length_toList]
  obtain ⟨after, told, records'⟩ := records.exists_lineIndex (chars ▸ le)
  obtain ⟨after', told', -⟩ := records'.exists_lineIndex (chars ▸ le')
  have line := isLine_of_place le
  have line' := isLine_of_place le'
  have count := count_lineStart le
  have indices := line.count_eq_iff line'
  have stop := lineEnd_le le
  rw [count, count_lineStart le'] at indices
  rw [chars] at count indices
  rw [Source.length, chars, String.length_toList] at stop
  exact ⟨_, _, after, after', told, told', ⟨lineStart_le le, le_lineEnd le, stop⟩, line.not_mem_dropLast, count,
    indices, line.start_eq_iff line'⟩

/-- The end of a text that ends in a newline is in the line of the newline, and not in a third line behind it. -/
theorem lastNewline_answers_agree :
    ¬ Overruns (ofText "t" "a\nb\n") [.lineIndex 4] ∧
      let source := (ofText "t" "a\nb\n").afterAll [.lineIndex 4]
      source.lineStart 3 = 2 ∧ source.lineStart 4 = 2 ∧ source.lineEnd 3 = source.lineEnd 4 ∧
        ∃ index after after', lineIndex 3 source = .ok index after ∧ lineIndex 4 after = .ok index after' ∧
          index = 1 := by
  have stays : ¬ Overruns (ofText "t" "a\nb\n") [.lineIndex 4] := by
    rw [overruns_cons]
    rintro (overruns | ⟨before, call, later, split, -⟩)
    · cases overruns
    · simp at split
  obtain ⟨index, index', after, after', told, told', -, -, count, indices, ends⟩ :=
    line_answers_agree "t" "a\nb\n" [.lineIndex 4] stays (by decide : 3 ≤ 4) (by decide : 4 ≤ 4)
  have start : ((ofText "t" "a\nb\n").afterAll [.lineIndex 4]).lineStart 3 = 2 := by decide +kernel
  have start' : ((ofText "t" "a\nb\n").afterAll [.lineIndex 4]).lineStart 4 = 2 := by decide +kernel
  have same := start.trans start'.symm
  obtain rfl := indices.mpr same
  have one : ("a\nb\n".toList.take 2).count '\n' = 1 := by decide +kernel
  have counted := congrArg (fun stop => ("a\nb\n".toList.take stop).count '\n') start
  exact ⟨stays, start, start', ends.mp same, index, after, after', told, told', count.symm.trans (counted.trans one)⟩

end Grammatic.Source
