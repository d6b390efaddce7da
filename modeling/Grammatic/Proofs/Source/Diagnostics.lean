import Grammatic.Proofs.Source.Lines

/-!
# Diagnostics point at their stretch

A diagnostic is a picture of three lines, each ended by a newline (`Picture`), and it shows its stretch cut at the end
of the line that it starts in (`Picture.Shows`). Every place of a text has one, the end included, whatever the source
has recorded (`diagnostic_points_at_stretch`).

That there is always one is a matter of the two searches: the place of a stretch lies between the start and the end of
its line, so the cut never puts the stop before it. And something of the source line is always shown
(`shownLine_ne_empty`), for in a line that is nothing but a newline each stretch starts or stops at the newline, which
then has its sign. So the bar before the line is always two characters wide, as the margin below it.
-/

namespace Grammatic.Source

variable {source after : Source} {place index : Nat} {stop : Int} {message : String}

/-! ## Pictures -/

/-- What a diagnostic shows, part by part: a head line, a source line and what marks its end, and below it an indent
and the marks of the stretch. -/
structure Picture where
  head : String
  line : String
  ending : String
  indent : String
  marks : String

namespace Picture

/-- The lines of a picture. -/
def lines (picture : Picture) : List String :=
  [picture.head, "| " ++ picture.line ++ picture.ending, "  " ++ picture.indent ++ picture.marks]

/-- The text of a picture: its lines, each ended by a newline. -/
def rendered (picture : Picture) : String :=
  String.join (picture.lines.map (· ++ "\n"))

/-- A picture shows a stretch of a source, cut at the end of the line that it starts in. Its columns are the offsets of
the two ends in the line, plus one; the source line is that line; the indent is a space for each character of the line
before the stretch, but a tab for a tab; and a tilde stands below each character of the stretch, which are all shown, if
one counts the sign for a newline as a character. An empty stretch has a caret. -/
structure Shows (picture : Picture) (source : Source) (position stop : Int) (message : String) (index : Nat) :
    Prop where
  head :
    let first := source.lineStart position
    let cut := min stop (source.lineEnd position)
    picture.head = (if source.name = "" then "" else source.name ++ ":") ++ toString (index + 1) ++ ":" ++
      toString (position - first + 1) ++ (if position < cut then "-" ++ toString (cut - first + 1) else "") ++ ":" ++
      (if message = "" ∨ message.toList.head? = some '\n' then "" else " ") ++ message
  line :
    let line := source.lineBetween (source.lineStart position) (source.lineEnd position)
    line = picture.line.toList ∨ line = picture.line.toList ++ ['\n']
  ending : picture.ending = "" ∨ picture.ending = returnSign ∨ picture.ending = noReturnSign
  indent : picture.indent.toList.length = position - source.lineStart position ∧
    ∀ i < picture.indent.toList.length, picture.indent.toList[i]? =
      some (if source.chars[source.lineStart position + i]? = some '\t' then '\t' else ' ')
  marks :
    let cut := min stop (source.lineEnd position)
    picture.marks.toList = if cut = position then ['^'] else List.replicate (cut - position).toNat '~'
  inside :
    let cut := min stop (source.lineEnd position)
    position < cut →
      cut - source.lineStart position ≤ picture.line.toList.length + if picture.ending = returnSign then 1 else 0

end Picture

/-! ## Texts without newlines -/

/-- A text without a newline. -/
def Plain (text : String) : Prop := '\n' ∉ text.toList

instance (text : String) : Decidable (Plain text) := inferInstanceAs (Decidable ('\n' ∉ text.toList))

theorem Plain.append {text more : String} (plain : Plain text) (plain' : Plain more) : Plain (text ++ more) := by
  unfold Plain
  rw [String.toList_append, List.mem_append]
  exact not_or.mpr ⟨plain, plain'⟩

theorem Plain.ite {condition : Prop} [Decidable condition] {text other : String} (plain : Plain text)
    (plain' : Plain other) : Plain (if condition then text else other) := by
  split
  · exact plain
  · exact plain'

theorem plain_repr (n : Nat) : Plain (Nat.repr n) := by
  intro mem
  rw [Nat.toList_repr] at mem
  have isDigit := Nat.isDigit_of_mem_toDigits (by decide) (by decide) mem
  exact absurd isDigit (by decide)

theorem plain_toString (n : Int) : Plain (toString n) := by
  cases n with
  | ofNat n => exact plain_repr n
  | negSucc n => exact .append (by decide) (plain_repr (n + 1))

theorem toList_pushn (text : String) (c : Char) (n : Nat) :
    (text.pushn c n).toList = text.toList ++ List.replicate n c := by
  induction n with
  | zero => simp [String.pushn, Nat.repeat]
  | succ n ih =>
    show ((text.pushn c n).push c).toList = _
    rw [String.toList_push, ih, List.append_assoc, List.replicate_succ']

/-! ## The diagnostic of a stretch -/

/-- A question for the index of a line records newlines, and changes nothing else. -/
theorem exists_of_lineIndex {position : Int} (told : lineIndex position source = .ok index after) :
    ∃ newlines scanned, after = { source with newlines, scanned } := by
  have isBehind : after = behind (lineIndex position) source := by
    unfold behind
    rw [told]
  rw [isBehind, behind_lineIndex, behind_scanTo]
  split
  · split
    · exact ⟨_, _, rfl⟩
    · exact ⟨_, _, rfl⟩
  · exact ⟨_, _, rfl⟩

/-- The characters of a line but for its newline. -/
def plainLine (line : List Char) : List Char :=
  if line.getLast? = some '\n' then line.dropLast else line

/-- What marks the end of a line: the sign for its newline, if that matters, or for the newline that it lacks. -/
def endingOf (line : List Char) (newlineMatters : Bool) : String :=
  if line.getLast? = some '\n' then (if newlineMatters then returnSign else "") else noReturnSign

/-- The picture that the diagnostic of a stretch shows. -/
def pictureOf (source : Source) (position stop : Int) (message : String) (index : Nat) : Picture :=
  let first := source.lineStart position
  let last := source.lineEnd position
  let cut := min stop last
  let line := source.lineBetween first last
  { head := (if source.name = "" then "" else source.name ++ ":") ++ toString (index + 1) ++ ":" ++
      columns first position cut ++ ":" ++
      (if message = "" ∨ message.toList.head? = some '\n' then "" else " ") ++ message
    line := String.ofList (plainLine line)
    ending := endingOf line (position = line.length - 1 + first ∨ cut = last)
    indent := indentOf (line.take (position - first).toNat)
    marks := underline position cut }

theorem shownLine_eq (line : List Char) (newlineMatters : Bool) :
    shownLine line newlineMatters = String.ofList (plainLine line) ++ endingOf line newlineMatters := by
  unfold shownLine plainLine endingOf
  split
  · rfl
  · rfl

/-- The characters of a line. -/
theorem length_lineBetween (first : Nat) {last : Nat} (le : last ≤ source.length) :
    (source.lineBetween first last).length = last - first :=
  length_stretch le

/-- Something of the source line is always shown: an empty line is shown with its newline. -/
theorem shownLine_ne_empty (within : place ≤ source.length) (ordered : place ≤ stop) :
    let first := source.lineStart place
    let last := source.lineEnd place
    let line := source.lineBetween first last
    shownLine line ((place : Int) = line.length - 1 + first ∨ min stop (last : Int) = last) ≠ "" := by
  intro first last line
  have startLe : first ≤ place := lineStart_le within
  have leStop : place ≤ last := le_lineEnd within
  have length : line.length = last - first := length_lineBetween _ (lineEnd_le within)
  unfold shownLine
  split
  next isLast =>
    intro empty
    obtain ⟨noText, noSign⟩ := String.append_eq_empty_iff.mp empty
    -- nothing but its newline is in the line, and then the stretch starts or stops there
    have noChars : line.dropLast = [] := String.ofList_eq_empty_iff.mp noText
    have pos : 0 < line.length := List.length_pos_of_mem (List.mem_of_getLast? isLast)
    have one := congrArg List.length noChars
    rw [List.length_dropLast, List.length_nil] at one
    have matters : (place : Int) = line.length - 1 + first ∨ min stop (last : Int) = last := by omega
    rw [if_pos (decide_eq_true matters)] at noSign
    exact absurd noSign (by decide)
  next =>
    intro empty
    have noSign := (String.append_eq_empty_iff.mp empty).2
    exact absurd noSign (by decide)

theorem diagnosticAt_eq_ok (within : place ≤ source.length) (ordered : place ≤ stop)
    (told : lineIndex place source = .ok index after) :
    diagnosticAt place stop message source = .ok (pictureOf source place stop message index).rendered after := by
  obtain ⟨newlines, scanned, rfl⟩ := exists_of_lineIndex told
  have startLe := lineStart_le within
  have leStop := le_lineEnd within
  have fits : (source.lineStart place : Int) ≤ place ∧ place ≤ min stop (source.lineEnd place) := by omega
  have shown := shownLine_ne_empty within ordered
  have run : (lineIndex place).run source = .ok index { source with newlines, scanned } := told
  have sameStart : ({ source with newlines, scanned } : Source).lineStart = source.lineStart := rfl
  have sameEnd : ({ source with newlines, scanned } : Source).lineEnd = source.lineEnd := rfl
  have sameLine : ({ source with newlines, scanned } : Source).lineBetween = source.lineBetween := rfl
  show (diagnosticAt place stop message).run source = _
  unfold diagnosticAt
  simp only [EStateM.run_bind, run, EStateM.run_get, sameStart, sameEnd, sameLine]
  rw [if_pos fits]
  refine congrArg (EStateM.Result.ok · _) ?_
  rw [if_neg shown, shownLine_eq]
  have margin : "\n  " = "\n" ++ "  " := rfl
  simp only [pictureOf, Picture.rendered, Picture.lines, margin, List.map_cons, List.map_nil, String.join_cons,
    String.join_nil, String.append_assoc, String.append_empty]

/-! ## What the picture shows -/

theorem columns_eq (first : Nat) (position cut : Int) : columns first position cut =
    toString (position - first + 1) ++ if position < cut then "-" ++ toString (cut - first + 1) else "" := by
  unfold columns
  split
  · rw [String.append_assoc]
  · rw [String.append_empty]

theorem plainLine_cases (line : List Char) : line = plainLine line ∨ line = plainLine line ++ ['\n'] := by
  unfold plainLine
  split
  next isLast =>
    obtain ⟨front, rfl⟩ := List.getLast?_eq_some_iff.mp isLast
    rw [List.dropLast_concat]
    exact .inr rfl
  next => exact .inl rfl

theorem endingOf_cases (line : List Char) (newlineMatters : Bool) :
    endingOf line newlineMatters = "" ∨ endingOf line newlineMatters = returnSign ∨
      endingOf line newlineMatters = noReturnSign := by
  unfold endingOf
  split
  · cases newlineMatters
    · exact .inl rfl
    · exact .inr (.inl rfl)
  · exact .inr (.inr rfl)

/-- All characters of a line are shown but for its newline, and that is shown too if it matters. -/
theorem length_plainLine (line : List Char) (newlineMatters : Bool) :
    line.length ≤ (plainLine line).length + 1 ∧ (newlineMatters = true →
      line.length ≤ (plainLine line).length + if endingOf line newlineMatters = returnSign then 1 else 0) := by
  unfold plainLine endingOf
  split
  next =>
    rw [List.length_dropLast]
    refine ⟨by omega, fun matters => ?_⟩
    rw [if_pos matters, if_pos rfl]
    omega
  next => exact ⟨Nat.le_add_right _ _, fun _ => Nat.le_add_right _ _⟩

theorem toList_indentOf (line : List Char) :
    (indentOf line).toList = line.map fun c => if c = '\t' then '\t' else ' ' :=
  String.toList_ofList

theorem toList_underline {position cut : Int} (le : position ≤ cut) :
    (underline position cut).toList = if cut = position then ['^'] else List.replicate (cut - position).toNat '~' := by
  unfold underline
  by_cases same : cut = position
  · rw [if_pos same, if_pos (Int.le_of_eq same)]
    rfl
  · rw [if_neg same, if_neg (by omega), toList_pushn]
    rfl

theorem shows_pictureOf (within : place ≤ source.length) (ordered : place ≤ stop) (message : String) (index : Nat) :
    (pictureOf source place stop message index).Shows source place stop message index := by
  have startLe := lineStart_le within
  have leStop := le_lineEnd within
  have stopLe := lineEnd_le within
  have length := length_lineBetween (source.lineStart place) stopLe
  have cut : (place : Int) ≤ min stop (source.lineEnd place) := by omega
  have indent : (pictureOf source place stop message index).indent.toList = _ := toList_indentOf _
  have offset : ((place : Int) - source.lineStart place).toNat = place - source.lineStart place := by omega
  have indented : (pictureOf source place stop message index).indent.toList.length =
      place - source.lineStart place := by
    rw [indent, List.length_map, List.length_take, length, offset]
    omega
  have plain : (pictureOf source place stop message index).line.toList =
      plainLine (source.lineBetween (source.lineStart place) (source.lineEnd place)) := String.toList_ofList
  refine ⟨?_, ?_, endingOf_cases _ _, ⟨?_, fun i less => ?_⟩, toList_underline cut, fun further => ?_⟩
  · show _ ++ columns _ _ _ ++ ":" ++ _ ++ message = _
    rw [columns_eq]
    simp only [String.append_assoc]
  · rw [plain]
    exact plainLine_cases _
  · rw [indented]
    omega
  · rw [indented] at less
    have here : source.lineStart place + i < source.chars.length := Nat.lt_of_lt_of_le (by omega) within
    rw [indent, offset, List.getElem?_map, List.getElem?_take, if_pos less, lineBetween, List.getElem?_drop,
      List.getElem?_take, if_pos (by omega), List.getElem?_eq_getElem here]
    simp only [Option.map_some, Option.some.injEq]
  · rw [plain]
    generalize isLine : source.lineBetween (source.lineStart place) (source.lineEnd place) = line at length
    by_cases whole : min stop (source.lineEnd place : Int) = source.lineEnd place
    · -- a stretch that goes up to the newline of the line has the sign for it shown
      have all : line.length ≤ (plainLine line).length +
          if (pictureOf source place stop message index).ending = returnSign then 1 else 0 := by
        subst isLine
        exact (length_plainLine _ _).2 (decide_eq_true (.inr whole))
      split at all
      next sign =>
        rw [if_pos sign]
        omega
      next other =>
        rw [if_neg other]
        omega
    · have most := (length_plainLine line false).1
      split
      · omega
      · omega

/-- Nothing that is shown of a line is a newline. -/
theorem newline_not_mem_plainLine {start stop : Nat} (line : IsLine source.chars start stop) :
    '\n' ∉ plainLine (source.lineBetween start stop) := by
  have inside := line.not_mem_dropLast
  unfold plainLine
  split
  next => exact inside
  next other =>
    intro mem
    have nonempty := List.ne_nil_of_mem mem
    rw [← List.dropLast_concat_getLast nonempty, List.mem_append, List.mem_singleton] at mem
    rcases mem with mem | isLast
    · exact inside mem
    · exact other ((List.getLast?_eq_some_getLast nonempty).trans (congrArg some isLast.symm))

theorem plain_indentOf (line : List Char) : Plain (indentOf line) := by
  unfold Plain
  rw [toList_indentOf]
  intro mem
  obtain ⟨c, -, shown⟩ := List.mem_map.mp mem
  split at shown
  · exact absurd shown (by decide)
  · exact absurd shown (by decide)

/-- The lines of a picture have no newlines of their own, if the name of the source and the message have none. -/
theorem plain_of_mem_lines (within : place ≤ source.length) (ordered : place ≤ stop) (plainName : Plain source.name)
    (plainMessage : Plain message) (index : Nat) :
    ∀ line ∈ (pictureOf source place stop message index).lines, Plain line := by
  have shows := shows_pictureOf within ordered message index
  have head : Plain (pictureOf source place stop message index).head := by
    rw [shows.head]
    have name : Plain (if source.name = "" then "" else source.name ++ ":") :=
      .ite (by decide) (plainName.append (by decide))
    have column (n : Int) : Plain ("-" ++ toString n) := .append (by decide) (plain_toString n)
    have numbers := (name.append (plain_repr (index + 1))).append (by decide : Plain ":")
    exact (((numbers.append (plain_toString _)).append (.ite (column _) (by decide))).append (by decide)).append
      (.ite (by decide) (by decide)) |>.append plainMessage
  have line : Plain (pictureOf source place stop message index).line := by
    unfold Plain
    rw [pictureOf, String.toList_ofList]
    exact newline_not_mem_plainLine (isLine_of_place within)
  have ending : Plain (pictureOf source place stop message index).ending := by
    rcases shows.ending with none | sign | sign
    · rw [none]
      decide
    · rw [sign]
      decide
    · rw [sign]
      decide
  have marks : Plain (pictureOf source place stop message index).marks := by
    unfold Plain
    rw [shows.marks]
    split
    · decide
    · intro mem
      exact absurd (List.eq_of_mem_replicate mem) (by decide)
  have bar : Plain "| " := by decide
  have margin : Plain "  " := by decide
  intro shown mem
  simp only [Picture.lines, List.mem_cons, List.not_mem_nil, or_false] at mem
  rcases mem with rfl | rfl | rfl
  · exact head
  · exact (bar.append line).append ending
  · exact (margin.append (plain_indentOf _)).append marks

/-- Every stretch that starts at a place of the text has a diagnostic, whatever the source has recorded: three lines,
each ended by a newline, that show the stretch in its line. -/
theorem diagnostic_points_at_stretch {source : Source} {position stop : Int} {message : String}
    (plainName : Plain source.name) (plainMessage : Plain message) (inside : 0 ≤ position ∧ position ≤ source.length)
    (ordered : position ≤ stop) :
    ∃ index after, lineIndex position source = .ok index after ∧ ∃ picture : Picture,
      diagnosticAt position stop message source = .ok picture.rendered after ∧
      (∀ line ∈ picture.lines, Plain line) ∧ picture.Shows source position stop message index := by
  obtain ⟨place, rfl⟩ := Int.eq_ofNat_of_zero_le inside.1
  have within : place ≤ source.length := Int.ofNat_le.mp inside.2
  have told := lineIndex_eq_ok within
  exact ⟨_, _, told, _, diagnosticAt_eq_ok within ordered told,
    plain_of_mem_lines within ordered plainName plainMessage _, shows_pictureOf within ordered message _⟩

/-- The text of an answer. -/
def answerOf : EStateM.Result SourceError Source String → Option String
  | .ok text _ => some text
  | .error _ _ => none

/-- A tab stays a tab below the line, and a stretch that goes on behind the line is cut at its newline. -/
theorem tabbedLine_diagnostic_points :
    Plain "t" ∧ Plain "m" ∧ ∃ index after, ∃ picture : Picture,
      diagnosticAt 1 9 "m" (ofText "t" "\tab\nc") = .ok picture.rendered after ∧
      picture.rendered = "t:1:2-5: m\n| \tab⏎\n  \t~~~\n" ∧
      picture.Shows (ofText "t" "\tab\nc") 1 9 "m" index := by
  have answer : answerOf (diagnosticAt 1 9 "m" (ofText "t" "\tab\nc")) =
      some "t:1:2-5: m\n| \tab⏎\n  \t~~~\n" := by decide +kernel
  obtain ⟨index, after, -, picture, shown, -, shows⟩ :=
    diagnostic_points_at_stretch (by decide : Plain (ofText "t" "\tab\nc").name) (by decide : Plain "m")
      (⟨by decide, by decide +kernel⟩ : (0 : Int) ≤ 1 ∧ (1 : Int) ≤ (ofText "t" "\tab\nc").length)
      (by decide : (1 : Int) ≤ 9)
  rw [shown] at answer
  exact ⟨by decide, by decide, index, after, picture, shown, Option.some.inj answer, shows⟩

end Grammatic.Source
