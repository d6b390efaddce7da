import Grammatic.Literal

/-!
# Numerals that can be read

A decimal is a run of digits of any script, with or without a fraction and an exponent. It can be read as a
number, but for one case: a run of digits alone, which denotes a whole number, is refused if it is longer
than the limit (`readNumber_cases`). With a fraction or an exponent there is no limit.

No blank and no underscore stands in a decimal, so what reading does about them has no effect.
-/

namespace Grammatic

namespace Text

theorem exists_of_offsetInRun {firsts : List Nat} {n value : Nat}
    (found : offsetInRun firsts n = some value) :
    ∃ first ∈ firsts, n = first + value ∧ value < 10 := by
  induction firsts with
  | nil => cases found
  | cons first rest ih =>
    unfold offsetInRun at found
    split at found
    next => cases found
    next =>
      split at found
      next =>
        obtain rfl := Option.some.inj found
        exact ⟨first, List.mem_cons_self, by omega, by omega⟩
      next =>
        obtain ⟨other, mem, same, small⟩ := ih found
        exact ⟨other, List.mem_cons_of_mem _ mem, same, small⟩

/-- No digit is a blank. -/
theorem isNumeralBlank_of_isDigit {c : Char} (digit : isDigit c = true) : isNumeralBlank c = false := by
  have apart : ∀ first ∈ Table.zeros, ∀ value < 10,
      inRanges Table.space (first + value) = false ∧ 32 < first := by decide +kernel
  obtain ⟨value, found⟩ := Option.isSome_iff_exists.mp digit
  obtain ⟨first, mem, same, small⟩ := exists_of_offsetInRun found
  obtain ⟨outside, beyond⟩ := apart first mem value small
  unfold isNumeralBlank
  split
  · have other : c ≠ ' ' := by
      rintro rfl
      have : ' '.toNat = 32 := rfl
      omega
    simp only [isBasicSpace, other, decide_false, Bool.false_or, Bool.and_eq_false_iff,
      decide_eq_false_iff_not]
    omega
  · rw [isSpace, same]
    exact outside

end Text

namespace Numeral

/-! ## Decimals -/

/-- Digits of any script, and at least one. -/
def Digits (text : List Char) : Prop :=
  text ≠ [] ∧ ∀ c ∈ text, Text.isDigit c = true

/-- Nothing, or a point and digits. -/
def Fraction (text : List Char) : Prop :=
  text = [] ∨ ∃ digits, Digits digits ∧ text = '.' :: digits

/-- Nothing, or the mark of an exponent, a sign or none, and digits. -/
def Exponent (text : List Char) : Prop :=
  text = [] ∨ ∃ mark sign digits, (mark = 'e' ∨ mark = 'E') ∧ (sign = [] ∨ sign = ['+'] ∨ sign = ['-']) ∧
    Digits digits ∧ text = mark :: (sign ++ digits)

/-- Digits, with or without a fraction and an exponent. -/
def Decimal (text : List Char) : Prop :=
  ∃ whole fraction exponent, Digits whole ∧ Fraction fraction ∧ Exponent exponent ∧
    text = whole ++ (fraction ++ exponent)

/-- A run of digits alone that is longer than the limit. -/
def overlong (text : List Char) : Bool :=
  digitLimit < text.length && text.all Text.isDigit

/-- The characters of a decimal that are no digits. -/
def marks : List Char := ['.', 'e', 'E', '+', '-']

variable {text whole fraction exponent more : List Char} {c : Char}

theorem Fraction.cases (isFraction : Fraction fraction) (mem : c ∈ fraction) :
    Text.isDigit c = true ∨ c ∈ marks := by
  rcases isFraction with rfl | ⟨digits, isDigits, rfl⟩
  · cases mem
  · rcases List.mem_cons.mp mem with rfl | mem
    · exact .inr (by decide)
    · exact .inl (isDigits.2 c mem)

theorem Exponent.cases (isExponent : Exponent exponent) (mem : c ∈ exponent) :
    Text.isDigit c = true ∨ c ∈ marks := by
  rcases isExponent with rfl | ⟨mark, sign, digits, isMark, isSign, isDigits, rfl⟩
  · cases mem
  · rcases List.mem_cons.mp mem with rfl | mem
    · rcases isMark with rfl | rfl
      · exact .inr (by decide)
      · exact .inr (by decide)
    · rcases List.mem_append.mp mem with mem | mem
      · right
        rcases isSign with rfl | rfl | rfl
        · cases mem
        · rw [List.mem_singleton.mp mem]
          decide
        · rw [List.mem_singleton.mp mem]
          decide
      · exact .inl (isDigits.2 c mem)

/-- A decimal has no other characters than digits and marks. -/
theorem Decimal.cases (decimal : Decimal text) (mem : c ∈ text) : Text.isDigit c = true ∨ c ∈ marks := by
  obtain ⟨whole, fraction, exponent, isWhole, isFraction, isExponent, rfl⟩ := decimal
  rcases List.mem_append.mp mem with mem | mem
  · exact .inl (isWhole.2 c mem)
  · rcases List.mem_append.mp mem with mem | mem
    · exact isFraction.cases mem
    · exact isExponent.cases mem

theorem Digits.decimal (isDigits : Digits text) : Decimal text :=
  ⟨text, [], [], isDigits, .inl rfl, .inl rfl, by simp⟩

theorem Decimal.not_blank (decimal : Decimal text) (mem : c ∈ text) : Text.isNumeralBlank c = false := by
  rcases decimal.cases mem with digit | mark
  · exact Text.isNumeralBlank_of_isDigit digit
  · have none : marks.all (!Text.isNumeralBlank ·) = true := by decide +kernel
    simpa using List.all_eq_true.mp none c mark

theorem Decimal.not_underscore (decimal : Decimal text) : '_' ∉ text := by
  intro mem
  exact absurd (decimal.cases mem) (by decide +kernel)

/-- Behind digits stands what does not begin with a digit. -/
theorem head_fraction_exponent (isFraction : Fraction fraction) (isExponent : Exponent exponent) :
    ∀ c ∈ (fraction ++ exponent).head?, Text.isDigit c = false := by
  intro c isHead
  rcases isFraction with rfl | ⟨digits, -, rfl⟩
  · rcases isExponent with rfl | ⟨mark, sign, digits, isMark, -, -, rfl⟩
    · cases isHead
    · obtain rfl := Option.some.inj isHead
      rcases isMark with rfl | rfl <;> decide
  · obtain rfl := Option.some.inj isHead
    decide

/-! ## Reading their parts -/

theorem trim_eq_self (solid : ∀ c ∈ text, Text.isNumeralBlank c = false) : trim text = text := by
  have dropWhile_eq (text : List Char) (solid : ∀ c ∈ text, Text.isNumeralBlank c = false) :
      text.dropWhile Text.isNumeralBlank = text := by
    cases text with
    | nil => rfl
    | cons c rest => rw [List.dropWhile_cons_of_neg (by simp [solid c List.mem_cons_self])]
  rw [trim, dropWhile_eq text solid, dropWhile_eq, List.reverse_reverse]
  intro c mem
  exact solid c (List.mem_reverse.mp mem)

theorem underscoresBetween_of_not_mem (none : '_' ∉ text) (before : Bool) :
    underscoresBetween before text = true := by
  induction text generalizing before with
  | nil => rfl
  | cons c rest ih =>
    have other : c ≠ '_' := fun same => none (same ▸ List.mem_cons_self)
    have none' : '_' ∉ rest := fun mem => none (List.mem_cons_of_mem _ mem)
    rw [underscoresBetween]
    · exact ih none' _
    · exact fun same => other same

/-- Digits end where something else begins. -/
theorem takeWhile_digits {p : Char → Bool} (all : ∀ c ∈ whole, p c = true)
    (ends : ∀ c ∈ more.head?, p c = false) :
    (whole ++ more).takeWhile p = whole ∧ (whole ++ more).dropWhile p = more := by
  rw [List.takeWhile_append_of_pos all, List.dropWhile_append_of_pos all]
  cases more with
  | nil => simp
  | cons c rest =>
    have : p c = false := ends c rfl
    simp [this]

theorem splitSign_of_digits (isDigits : Digits whole) (more : List Char) :
    splitSign (whole ++ more) = (false, whole ++ more) := by
  obtain ⟨some, all⟩ := isDigits
  obtain ⟨c, rest, rfl⟩ := List.exists_cons_of_ne_nil some
  have digit := all c List.mem_cons_self
  unfold splitSign
  split
  next same =>
    obtain ⟨rfl, -⟩ := List.cons.inj same
    exact absurd digit (by decide)
  next same =>
    obtain ⟨rfl, -⟩ := List.cons.inj same
    exact absurd digit (by decide)
  next => rfl

theorem length_digitValues (all : ∀ c ∈ whole, Text.isDigit c = true) :
    (digitValues whole).length = whole.length := by
  rw [digitValues, List.length_filterMap_eq_countP]
  exact List.countP_eq_length.mpr all

theorem exists_readExponent (isExponent : Exponent exponent) : ∃ n, readExponent exponent = some n := by
  rcases isExponent with rfl | ⟨mark, sign, digits, isMark, isSign, isDigits, rfl⟩
  · exact ⟨0, rfl⟩
  · have split : ∃ negative, splitSign (sign ++ digits) = (negative, digits) := by
      rcases isSign with rfl | rfl | rfl
      · have := splitSign_of_digits isDigits []
        rw [List.append_nil] at this
        exact ⟨false, this⟩
      · exact ⟨false, rfl⟩
      · exact ⟨true, rfl⟩
    obtain ⟨negative, split⟩ := split
    have digits_all : digits.all Text.isDigit = true := List.all_eq_true.mpr isDigits.2
    simp only [readExponent, split, if_pos (And.intro isMark (And.intro isDigits.1 digits_all))]
    exact ⟨_, rfl⟩

theorem exists_readFraction (isWhole : Digits whole) (isFraction : Fraction fraction)
    (isExponent : Exponent exponent) :
    ∃ value, readFraction (whole ++ (fraction ++ exponent)) = some value := by
  obtain ⟨n, exponentRead⟩ := exists_readExponent isExponent
  have ends := head_fraction_exponent isFraction isExponent
  obtain ⟨taken, left⟩ := takeWhile_digits (p := Text.isDigit) isWhole.2 ends
  unfold readFraction
  simp only [taken, left, isWhole.1, false_and, if_false]
  rcases isFraction with rfl | ⟨digits, isDigits, rfl⟩
  · -- without a fraction the exponent comes next, and it does not begin with a point
    have noPoint : ∀ rest, [] ++ exponent ≠ '.' :: rest := by
      rintro rest same
      rcases isExponent with rfl | ⟨mark, sign, digits, isMark, -, -, rfl⟩
      · cases same
      · obtain ⟨rfl, -⟩ := List.cons.inj same
        exact absurd isMark (by decide)
    split
    next rest same => exact absurd same (noPoint rest)
    next =>
      rw [List.nil_append, exponentRead]
      exact ⟨_, rfl⟩
  · have ends' := head_fraction_exponent (.inl rfl) isExponent
    rw [List.nil_append] at ends'
    obtain ⟨-, left'⟩ := takeWhile_digits (p := Text.isDigit) isDigits.2 ends'
    simp only [List.cons_append, left', exponentRead]
    exact ⟨_, rfl⟩

/-! ## Reading decimals -/

/-- Digits are read as a whole number, unless there are too many. -/
theorem readInt_digits (isWhole : Digits whole) :
    readInt (String.ofList whole) = if digitLimit < whole.length then .error (.tooManyDigits whole.length)
      else .ok (ofDigits (digitValues whole)) := by
  have decimal := isWhole.decimal
  have sign := splitSign_of_digits isWhole []
  rw [List.append_nil] at sign
  have all : ∀ c ∈ whole, (Text.isDigit c || decide (c = '_')) = true := fun c mem => by
    simp [isWhole.2 c mem]
  have ends : ∀ c ∈ ([] : List Char).head?, (Text.isDigit c || decide (c = '_')) = false := by simp
  obtain ⟨taken, left⟩ := takeWhile_digits all ends
  rw [List.append_nil] at taken left
  simp only [readInt, String.toList_ofList, trim_eq_self fun c mem => decimal.not_blank mem, sign, taken,
    left, underscoresBetween_of_not_mem decimal.not_underscore, length_digitValues isWhole.2]
  simp [isWhole.1]

/-- A digit is no letter. -/
theorem lowerBasic_of_isDigit (digit : Text.isDigit c = true) : lowerBasic c = c := by
  refine if_neg fun ⟨low, high⟩ => ?_
  have letters : ∀ n < 26, Text.isDigit (Char.ofNat (65 + n)) = false := by decide +kernel
  have low : 65 ≤ c.toNat := low
  have high : c.toNat ≤ 90 := high
  obtain ⟨n, isCode⟩ := Nat.exists_eq_add_of_le low
  have letter := letters n (by omega)
  rw [← isCode, Char.ofNat_toNat] at letter
  cases digit.symm.trans letter

/-- No decimal is a word that begins with a letter. -/
theorem lower_decimal_ne (isWhole : Digits whole) (more : List Char) {letter : Char} (rest : List Char)
    (noDigit : Text.isDigit letter = false) :
    String.ofList ((whole ++ more).map lowerBasic) ≠ String.ofList (letter :: rest) := by
  intro same
  obtain ⟨some, all⟩ := isWhole
  obtain ⟨c, others, rfl⟩ := List.exists_cons_of_ne_nil some
  have digit := all c List.mem_cons_self
  obtain ⟨isLetter, -⟩ := List.cons.inj (String.ofList_injective same)
  rw [lowerBasic_of_isDigit digit] at isLetter
  rw [isLetter, noDigit] at digit
  cases digit

/-- A decimal can be read as a floating point number, and it is one without a sign. -/
theorem exists_readDouble (decimal : Decimal text) :
    ∃ coefficient exponent, readDouble (String.ofList text) = .ok (.ofDecimal false coefficient exponent) := by
  have solid : ∀ c ∈ text, Text.isNumeralBlank c = false := fun c mem => decimal.not_blank mem
  have plain : text.filter (· ≠ '_') = text := by
    rw [List.filter_eq_self]
    intro c mem
    exact decide_eq_true fun same => decimal.not_underscore (same ▸ mem)
  obtain ⟨whole, fraction, exponent, isWhole, isFraction, isExponent, rfl⟩ := decimal
  have decimal : Decimal (whole ++ (fraction ++ exponent)) :=
    ⟨whole, fraction, exponent, isWhole, isFraction, isExponent, rfl⟩
  obtain ⟨⟨coefficient, power⟩, fractionRead⟩ := exists_readFraction isWhole isFraction isExponent
  have notInf : String.ofList ((whole ++ (fraction ++ exponent)).map lowerBasic) ≠ "inf" :=
    lower_decimal_ne isWhole _ ['n', 'f'] (by decide)
  have notInfinity : String.ofList ((whole ++ (fraction ++ exponent)).map lowerBasic) ≠ "infinity" :=
    lower_decimal_ne isWhole _ ['n', 'f', 'i', 'n', 'i', 't', 'y'] (by decide)
  have notNan : String.ofList ((whole ++ (fraction ++ exponent)).map lowerBasic) ≠ "nan" :=
    lower_decimal_ne isWhole _ ['a', 'n'] (by decide)
  refine ⟨coefficient, power, ?_⟩
  simp only [readDouble, String.toList_ofList, trim_eq_self solid, plain,
    splitSign_of_digits isWhole, underscoresBetween_of_not_mem decimal.not_underscore, fractionRead, notInf,
    notInfinity, notNan]
  rfl

end Numeral

open Numeral in
/-- A decimal can be read as a number, unless it is a run of digits alone that is too long. -/
theorem Literal.readNumber_cases {text : List Char} (decimal : Decimal text) :
    (overlong text = true ∧ readNumber (String.ofList text) = .error (.tooManyDigits text.length)) ∨
      (overlong text = false ∧ ∃ value, readNumber (String.ofList text) = .ok value) := by
  have real {c : Char} (mem : c ∈ text) (mark : c = '.' ∨ c = 'e' ∨ c = 'E') :
      overlong text = false ∧ ∃ value, readNumber (String.ofList text) = .ok value := by
    constructor
    · have noDigit : Text.isDigit c = false := by rcases mark with rfl | rfl | rfl <;> decide
      rw [overlong, Bool.and_eq_false_iff]
      exact .inr (List.all_eq_false.mpr ⟨c, mem, by simp [noDigit]⟩)
    · obtain ⟨coefficient, power, read⟩ := exists_readDouble decimal
      have marked : text.any (fun c => decide (c = '.' ∨ c = 'e' ∨ c = 'E')) = true :=
        List.any_eq_true.mpr ⟨c, mem, decide_eq_true mark⟩
      simp only [readNumber, String.toList_ofList, marked, if_true, read]
      exact ⟨_, rfl⟩
  obtain ⟨whole, fraction, exponent, isWhole, isFraction, isExponent, rfl⟩ := decimal
  rcases isFraction with rfl | ⟨digits, -, rfl⟩
  · rcases isExponent with rfl | ⟨mark, sign, digits, isMark, -, -, rfl⟩
    · rw [List.append_nil, List.append_nil]
      have unmarked : whole.any (fun c => decide (c = '.' ∨ c = 'e' ∨ c = 'E')) = false := by
        rw [List.any_eq_false]
        intro c mem mark
        have digit := isWhole.2 c mem
        rcases of_decide_eq_true mark with rfl | rfl | rfl <;> exact absurd digit (by decide)
      have all : whole.all Text.isDigit = true := List.all_eq_true.mpr isWhole.2
      simp only [readNumber, String.toList_ofList, unmarked, readInt_digits isWhole, overlong, all,
        Bool.and_true]
      by_cases long : digitLimit < whole.length
      · left
        simp [long, Except.map]
      · right
        simp [long, Except.map]
    · exact .inr (real (List.mem_append_right _ List.mem_cons_self) (.inr isMark))
  · exact .inr (real (List.mem_append_right _ List.mem_cons_self) (.inl rfl))

open Numeral in
/-- Too many digits cannot be read. -/
theorem Literal.readNumber_digits {text : List Char} (isDigits : Digits text)
    (long : digitLimit < text.length) :
    readNumber (String.ofList text) = .error (.tooManyDigits text.length) := by
  have isOverlong : overlong text = true := by
    rw [overlong, Bool.and_eq_true, decide_eq_true_eq, List.all_eq_true]
    exact ⟨long, isDigits.2⟩
  rcases readNumber_cases isDigits.decimal with ⟨-, unread⟩ | ⟨short, -⟩
  · exact unread
  · cases isOverlong.symm.trans short

end Grammatic
