import Grammatic.Proofs.Number.Reading
import Grammatic.Value
import Mathlib.Algebra.Order.Field.Power
import Mathlib.Algebra.Order.Field.Rat
import Mathlib.Tactic.Linarith
import Mathlib.Tactic.Positivity
import Mathlib.Tactic.Ring

/-!
# Numbers in canonical form

One magnitude can be written with many mantissas. Rounding gives it the largest mantissa that there is room
for (`canonical_nearest`), and of these there is only one (`Normalized.unique`). So the numbers that two
decimals are read as are equal only if they are written the same (`eq_of_same`), and the test by cross
multiplication that tells whether they are equal is as good as an identity.

Powers of two with negative exponents are taken in the rationals. There the quotients of `scaleDown` are
the magnitude in units of the last place, and the two forms of a fraction need no cases after
`le_scaleDown`.
-/

namespace Grammatic

namespace Double

/-- A mantissa and an exponent as rounding gives them: the mantissa has room, and it is that of a normal
number unless the exponent is the least. -/
structure Normalized (mantissa : Nat) (exponent : Int) : Prop where
  lt : mantissa < 2 * normalMantissa
  least : leastExponent ≤ exponent
  normal : normalMantissa ≤ mantissa ∨ exponent = leastExponent

/-- The numbers that a decimal without a sign is read as. -/
def Canonical : Double → Prop
  | .finite negative mantissa exponent => negative = false ∧ Normalized mantissa exponent
  | .infinite negative => negative = false
  | .nan => False

/-! ## Equal numbers -/

section

variable {m m' : Nat} {e e' : Int}

/-- The fraction of a number is its magnitude. -/
theorem exists_toFraction? (m : Nat) (e : Int) :
    ∃ num den, toFraction? (.finite false m e) = some (num, den) ∧ 0 < den ∧ (num : ℚ) = m * 2 ^ e * den := by
  by_cases nonneg : 0 ≤ e
  · obtain ⟨k, rfl⟩ := Int.eq_ofNat_of_zero_le nonneg
    refine ⟨m * (2 ^ k : Nat), 1, by simp [toFraction?], Nat.one_pos, ?_⟩
    push_cast
    rw [mul_one, zpow_natCast]
  · obtain ⟨k, rfl⟩ : ∃ k : Nat, e = -k := ⟨(-e).toNat, by omega⟩
    have fraction : toFraction? (.finite false m (-k)) = some ((m : Int), 2 ^ k) := by
      simp only [toFraction?, if_neg nonneg, neg_neg, Int.toNat_natCast]
      rfl
    refine ⟨m, 2 ^ k, fraction, Nat.two_pow_pos k, ?_⟩
    push_cast
    rw [zpow_neg, zpow_natCast, inv_mul_cancel_right₀ (by positivity)]

/-- With a larger exponent the mantissa would be too small for a normal number. -/
theorem Normalized.exponent_le (normalized : Normalized m e) (normalized' : Normalized m' e')
    (same : (m : ℚ) * 2 ^ e = m' * 2 ^ e') : e' ≤ e := by
  by_contra larger
  have large : normalMantissa ≤ m' :=
    normalized'.normal.resolve_right (by have := normalized.least; omega)
  have step : (2 : ℚ) ^ (e + 1) ≤ 2 ^ e' := zpow_le_zpow_right₀ (by norm_num) (by omega)
  have below : (m : ℚ) * 2 ^ e < 2 * normalMantissa * 2 ^ e :=
    mul_lt_mul_of_pos_right (mod_cast normalized.lt) (by positivity)
  have above : 2 * (normalMantissa : ℚ) * 2 ^ e ≤ m' * 2 ^ e' := calc
    2 * (normalMantissa : ℚ) * 2 ^ e = normalMantissa * 2 ^ (e + 1) := by
      rw [zpow_add_one₀ (by norm_num)]; ring
    _ ≤ m' * 2 ^ e' := mul_le_mul (mod_cast large) step (by positivity) (by positivity)
  exact absurd same (below.trans_le above).ne

/-- A magnitude has one normalized form. -/
theorem Normalized.unique (normalized : Normalized m e) (normalized' : Normalized m' e')
    (same : (m : ℚ) * 2 ^ e = m' * 2 ^ e') : m = m' ∧ e = e' := by
  obtain rfl : e = e' :=
    le_antisymm (normalized'.exponent_le normalized same.symm) (normalized.exponent_le normalized' same)
  have := mul_right_cancel₀ (by positivity) same
  exact ⟨mod_cast this, rfl⟩

end

/-- Equal numbers in canonical form are identical. -/
theorem eq_of_same {a b : Double} (canonical : a.Canonical) (canonical' : b.Canonical)
    (same : a.same b = true) : a = b := by
  cases a with
  | nan => exact canonical.elim
  | infinite negative =>
    cases b with
    | nan => exact canonical'.elim
    | infinite negative' => rw [show negative = _ from canonical, show negative' = _ from canonical']
    | finite negative' m' e' => cases same
  | finite negative m e =>
    cases b with
    | nan => exact canonical'.elim
    | infinite negative' => simp [Double.same, toFraction?] at same
    | finite negative' m' e' =>
      obtain ⟨rfl, normalized⟩ := canonical
      obtain ⟨rfl, normalized'⟩ := canonical'
      obtain ⟨num, den, fraction, pos, value⟩ := exists_toFraction? m e
      obtain ⟨num', den', fraction', pos', value'⟩ := exists_toFraction? m' e'
      simp only [Double.same, fraction, fraction', beq_iff_eq] at same
      have cross : (num : ℚ) * den' = num' * den := mod_cast same
      rw [value, value', mul_right_comm] at cross
      have both : (den : ℚ) * den' ≠ 0 := by positivity
      obtain ⟨rfl, rfl⟩ := normalized.unique normalized' (mul_right_cancel₀ both (by linarith only [cross]))
      rfl

/-! ## Rounding -/

section

variable {num den : Nat}

/-- The quotient of a scaled fraction is the magnitude in units of the last place. -/
theorem le_scaleDown (num : Nat) (pos : 0 < den) (e : Int) (k : Nat) :
    k ≤ (scaleDown num den e).1 / (scaleDown num den e).2 ↔ (k : ℚ) * 2 ^ e ≤ num / den := by
  have pos' : (0 : ℚ) < den := mod_cast pos
  by_cases nonneg : 0 ≤ e
  · obtain ⟨j, rfl⟩ := Int.eq_ofNat_of_zero_le nonneg
    have scaled : scaleDown num den j = (num, den * 2 ^ j) := by simp [scaleDown]
    rw [scaled, Nat.le_div_iff_mul_le (by positivity), le_div_iff₀ pos', zpow_natCast, mul_assoc,
      mul_comm _ (den : ℚ)]
    exact_mod_cast Iff.rfl
  · obtain ⟨j, rfl⟩ : ∃ j : Nat, e = -j := ⟨(-e).toNat, by omega⟩
    have scaled : scaleDown num den (-j) = (num * 2 ^ j, den) := by
      simp only [scaleDown, if_neg nonneg, neg_neg, Int.toNat_natCast]
      rfl
    rw [scaled, Nat.le_div_iff_mul_le pos, zpow_neg, zpow_natCast, ← div_eq_mul_inv,
      div_le_div_iff₀ (by positivity) pos']
    exact_mod_cast Iff.rfl

theorem scaleDown_lt (num : Nat) (pos : 0 < den) (e : Int) (k : Nat) :
    (scaleDown num den e).1 / (scaleDown num den e).2 < k ↔ (num / den : ℚ) < k * 2 ^ e := by
  rw [← not_le, le_scaleDown num pos, not_le]

/-- Rounding to a whole number goes down, or up by one. -/
theorem roundQuotient_bounds (num den : Nat) :
    num / den ≤ roundQuotient num den ∧ roundQuotient num den ≤ num / den + 1 := by
  unfold roundQuotient
  dsimp only
  split
  · omega
  · split <;> omega

/-- A quotient lies between the powers of two that the lengths of its parts tell. -/
theorem quotient_bounds (hnum : num ≠ 0) (hden : den ≠ 0) :
    (2 : ℚ) ^ (num.log2 - den.log2 - 1 : Int) ≤ num / den ∧
      (num / den : ℚ) < 2 ^ (num.log2 - den.log2 + 1 : Int) := by
  have pos : (0 : ℚ) < den := mod_cast Nat.pos_of_ne_zero hden
  have two : (2 : ℚ) ≠ 0 := by norm_num
  have numLow : (2 : ℚ) ^ num.log2 ≤ num := mod_cast Nat.log2_self_le hnum
  have numHigh : (num : ℚ) < 2 ^ (num.log2 + 1) := mod_cast Nat.lt_log2_self
  have denLow : (2 : ℚ) ^ den.log2 ≤ den := mod_cast Nat.log2_self_le hden
  have denHigh : (den : ℚ) < 2 ^ (den.log2 + 1) := mod_cast Nat.lt_log2_self
  constructor
  · rw [le_div_iff₀ pos]
    calc (2 : ℚ) ^ (num.log2 - den.log2 - 1 : Int) * den
        ≤ 2 ^ (num.log2 - den.log2 - 1 : Int) * 2 ^ (den.log2 + 1) :=
          mul_le_mul_of_nonneg_left denHigh.le (by positivity)
      _ = 2 ^ num.log2 := by
          rw [← zpow_natCast, ← zpow_natCast, ← zpow_add₀ two]
          congr 1
          push_cast
          ring
      _ ≤ num := numLow
  · rw [div_lt_iff₀ pos]
    calc (num : ℚ) < 2 ^ (num.log2 + 1) := numHigh
      _ = 2 ^ (num.log2 - den.log2 + 1 : Int) * 2 ^ den.log2 := by
          rw [← zpow_natCast, ← zpow_natCast, ← zpow_add₀ two]
          congr 1
          push_cast
          ring
      _ ≤ 2 ^ (num.log2 - den.log2 + 1 : Int) * den := mul_le_mul_of_nonneg_left denLow (by positivity)

theorem normalMantissa_mul (e : Int) : (normalMantissa : ℚ) * 2 ^ e = 2 ^ (e + 52) := by
  have power : (normalMantissa : ℚ) = 2 ^ (52 : ℤ) := by norm_num [normalMantissa]
  rw [zpow_add₀ (by norm_num), power, mul_comm]

theorem twice_normalMantissa_mul (e : Int) :
    ((2 * normalMantissa : Nat) : ℚ) * 2 ^ e = 2 ^ (e + 53) := by
  have next : e + 53 = e + 52 + 1 := by ring
  rw [next, zpow_add_one₀ (by norm_num), ← normalMantissa_mul]
  push_cast
  ring

/-- In units of the last place a magnitude is below the bound of mantissas, and it is that of a normal number
unless the exponent is the least. -/
theorem unitExponent_spec (hnum : num ≠ 0) (hden : den ≠ 0) :
    leastExponent ≤ unitExponent num den ∧
      (num / den : ℚ) < 2 ^ (unitExponent num den + 53) ∧
      ((2 : ℚ) ^ (unitExponent num den + 52) ≤ num / den ∨ unitExponent num den = leastExponent) := by
  obtain ⟨low, high⟩ := quotient_bounds hnum hden
  -- the unit without the bound from below
  have normal : ∃ e : Int, unitExponent num den = max leastExponent e ∧
      (2 : ℚ) ^ (e + 52) ≤ num / den ∧ (num / den : ℚ) < 2 ^ (e + 53) := by
    generalize isGuess : (num.log2 - den.log2 - 52 : Int) = guess
    have small := scaleDown_lt num (Nat.pos_of_ne_zero hden) guess normalMantissa
    rw [normalMantissa_mul] at small
    refine ⟨_, by rw [unitExponent, isGuess], ?_⟩
    split
    next below =>
      have lower : guess - 1 + 52 = num.log2 - den.log2 - 1 := by omega
      have upper : guess - 1 + 53 = guess + 52 := by omega
      rw [lower, upper]
      exact ⟨low, small.mp below⟩
    next above =>
      have upper : guess + 53 = num.log2 - den.log2 + 1 := by omega
      rw [upper]
      exact ⟨not_lt.mp (small.not.mp above), high⟩
  obtain ⟨e, isUnit, low, high⟩ := normal
  rw [isUnit]
  refine ⟨le_max_left _ _, high.trans_le (zpow_le_zpow_right₀ (by norm_num) (by omega)), ?_⟩
  rcases le_total leastExponent e with below | above
  · exact .inl (by rwa [max_eq_right below])
  · exact .inr (max_eq_left above)

/-- The quotient in units of the last place has the form of a mantissa before it is rounded. -/
theorem normalized_quotient (hnum : num ≠ 0) (hden : den ≠ 0) :
    Normalized ((scaleDown num den (unitExponent num den)).1 / (scaleDown num den (unitExponent num den)).2)
      (unitExponent num den) := by
  obtain ⟨least, high, low⟩ := unitExponent_spec hnum hden
  have pos := Nat.pos_of_ne_zero hden
  refine ⟨(scaleDown_lt num pos _ _).mpr (by rwa [twice_normalMantissa_mul]), least, low.imp (fun low => ?_) id⟩
  exact (le_scaleDown num pos _ _).mpr (by rwa [normalMantissa_mul])

/-- Rounding gives numbers in canonical form. -/
theorem canonical_nearest (num : Nat) (hden : den ≠ 0) : Canonical (nearest false num den) := by
  unfold nearest
  split
  next => exact ⟨rfl, by decide, le_rfl, .inr rfl⟩
  next hnum =>
    obtain ⟨lt, least, normal⟩ := normalized_quotient hnum hden
    generalize unitExponent num den = e at lt least normal
    obtain ⟨down, up⟩ := roundQuotient_bounds (scaleDown num den e).1 (scaleDown num den e).2
    generalize (scaleDown num den e).1 / (scaleDown num den e).2 = quotient at lt normal down up
    generalize isRounded : roundQuotient (scaleDown num den e).1 (scaleDown num den e).2 = rounded at down up
    simp only [isRounded]
    -- a mantissa that rounding takes to the bound begins anew with the next exponent
    split
    next carry =>
      dsimp only
      split
      next => rfl
      next => exact ⟨rfl, by decide, by omega, .inl le_rfl⟩
    next fits =>
      dsimp only
      split
      next => rfl
      next => exact ⟨rfl, by omega, least, normal.imp (fun normal => normal.trans down) id⟩

/-- Decimals without a sign are read as numbers in canonical form. -/
theorem canonical_ofDecimal (coefficient : Nat) (exponent : Int) :
    Canonical (ofDecimal false coefficient exponent) := by
  have zero : Canonical (.zero false) := ⟨rfl, by decide, le_rfl, .inr rfl⟩
  unfold ofDecimal
  dsimp only
  split
  next => exact zero
  split
  next => rfl
  split
  next => exact zero
  split
  next => exact canonical_nearest _ Nat.one_ne_zero
  next => exact canonical_nearest _ (pow_ne_zero _ (by norm_num))

end

end Double

/-! ## Scalars -/

/-- A scalar, with its number in canonical form if it is a floating point number. -/
def Scalar.Canonical : Scalar → Prop
  | .real value => value.Canonical
  | _ => True

/-- Equal scalars of one type are identical, if their numbers are in canonical form. -/
theorem Scalar.eq_of_same {a b : Scalar} (canonical : a.Canonical) (canonical' : b.Canonical)
    (type : (Value.scalar a).typeName = (Value.scalar b).typeName) (same : a.same b = true) : a = b := by
  cases a with
  | absent | text _ =>
    cases b with
    | absent | text _ => exact eq_of_beq same
    | flag _ | int _ | real _ => exact absurd type (by simp [Value.typeName])
  | flag value =>
    cases b with
    | flag value' =>
      have flags : ∀ v w, (flag v).same (flag w) = true → flag v = flag w := by decide
      exact flags value value' same
    | absent | int _ | real _ | text _ => exact absurd type (by simp [Value.typeName])
  | int i =>
    cases b with
    | int j => exact congrArg Scalar.int (eq_of_beq same)
    | absent | flag _ | real _ | text _ => exact absurd type (by simp [Value.typeName])
  | real d =>
    cases b with
    | real e => exact congrArg Scalar.real (Double.eq_of_same canonical canonical' same)
    | absent | flag _ | int _ | text _ => exact absurd type (by simp [Value.typeName])

/-- A number that is read from a decimal is in canonical form. -/
theorem Literal.canonical_of_readNumber {text : List Char} {value : Scalar} (decimal : Numeral.Decimal text)
    (read : readNumber (String.ofList text) = .ok value) : value.Canonical := by
  unfold readNumber at read
  split at read
  next =>
    obtain ⟨coefficient, exponent, isDouble⟩ := Numeral.exists_readDouble decimal
    rw [isDouble] at read
    obtain rfl := Except.ok.inj read
    exact Double.canonical_ofDecimal coefficient exponent
  next =>
    cases isInt : Numeral.readInt (String.ofList text) with
    | error e =>
      rw [isInt] at read
      cases read
    | ok i =>
      rw [isInt] at read
      obtain rfl := Except.ok.inj read
      trivial

/-! ## Values -/

/-- The same value, with the types kept apart: equal scalars of one type, and tuples of such values. -/
inductive Value.SameTyped : Value → Value → Prop
  | scalar {a b : Scalar} (type : (Value.scalar a).typeName = (Value.scalar b).typeName)
      (equal : a.same b = true) : SameTyped (.scalar a) (.scalar b)
  | tuple {items items' : List Value} (each : List.Forall₂ SameTyped items items') :
      SameTyped (.tuple items) (.tuple items')

/-- Scalars, and tuples of them at any depth, with all numbers in canonical form. -/
inductive Value.Canonical : Value → Prop
  | scalar {value : Scalar} (canonical : value.Canonical) : Canonical (.scalar value)
  | tuple {items : List Value} (each : ∀ item ∈ items, Canonical item) : Canonical (.tuple items)

theorem Value.eq_of_sameTyped {value value' : Value} (canonical : value.Canonical)
    (canonical' : value'.Canonical) (same : value.SameTyped value') : value = value' := by
  induction canonical generalizing value' with
  | scalar canonical =>
    cases same with
    | scalar type equal =>
      cases canonical' with
      | scalar canonical' => rw [Scalar.eq_of_same canonical canonical' type equal]
  | @tuple items all ih =>
    clear all
    cases same with
    | @tuple _ items' each =>
      cases canonical' with
      | tuple all' =>
        suffices items = items' by rw [this]
        induction each with
        | nil => rfl
        | cons first _ rest =>
          rw [List.forall_mem_cons] at ih all'
          rw [ih.1 all'.1 first, rest ih.2 all'.2]

end Grammatic
