/-!
# Binary floating point numbers

Numbers of sixty-four bit floating point, given exactly: a sign, a mantissa below `2 ^ 53` and a
power of two that is at least `-1074`. Every finite number is made by `Double.nearest`, which
rounds an exact fraction to the nearest such number, a half to the even mantissa, and gives the
infinity from `2 ^ 1024` less half a unit on. Powers are written with `Nat.pow`, which means the same
whatever instances of `^` are in scope.
-/

namespace Grammatic

/-- A number of sixty-four bit floating point. -/
inductive Double where
  /-- The number `mantissa * 2 ^ exponent`, negated if `negative`. -/
  | finite (negative : Bool) (mantissa : Nat) (exponent : Int)
  | infinite (negative : Bool)
  | nan
  deriving DecidableEq, Repr, Inhabited

namespace Double

/-- The least power of two of a unit in the last place. -/
def leastExponent : Int := -1074

/-- The greatest power of two of a unit in the last place. -/
def greatestExponent : Int := 971

/-- Mantissas of normal numbers lie from here to below its double. -/
def normalMantissa : Nat := Nat.pow 2 52

/-- Zero, with a sign. -/
def zero (negative : Bool) : Double := .finite negative 0 leastExponent

/-- The quotient rounded to the nearest whole number, a half to the even one. -/
def roundQuotient (num den : Nat) : Nat :=
  let q := num / den
  let twice := 2 * (num % den)
  if twice < den then q else if den < twice then q + 1 else q + q % 2

/-- The fraction `num / den` divided by a power of two, as numerator and denominator. -/
def scaleDown (num den : Nat) (exponent : Int) : Nat × Nat :=
  if 0 ≤ exponent then (num, den * Nat.pow 2 exponent.toNat)
  else (num * Nat.pow 2 (-exponent).toNat, den)

/-- The power of two of the last place that `num / den` is rounded to. -/
def unitExponent (num den : Nat) : Int :=
  let guess : Int := num.log2 - den.log2 - 52
  let (n, d) := scaleDown num den guess
  max leastExponent (if n / d < normalMantissa then guess - 1 else guess)

/-- The number nearest to the fraction `num / den`, negated if `negative`. -/
def nearest (negative : Bool) (num den : Nat) : Double :=
  if num = 0 then zero negative
  else
    let e := unitExponent num den
    let (n, d) := scaleDown num den e
    let m := roundQuotient n d
    let (m, e) := if m = 2 * normalMantissa then (normalMantissa, e + 1) else (m, e)
    if greatestExponent < e then .infinite negative else .finite negative m e

/-- The number nearest to `coefficient * 10 ^ exponent`. The bounds on the magnitude are wide of
the range of finite numbers and keep the powers of ten small. -/
def ofDecimal (negative : Bool) (coefficient : Nat) (exponent : Int) : Double :=
  let magnitude : Int := (Nat.toDigits 10 coefficient).length + exponent
  if coefficient = 0 then zero negative
  else if 400 < magnitude then .infinite negative
  else if magnitude < -400 then zero negative
  else if 0 ≤ exponent then nearest negative (coefficient * Nat.pow 10 exponent.toNat) 1
  else nearest negative coefficient (Nat.pow 10 (-exponent).toNat)

/-- The signed numerator and the denominator of a finite number. -/
def toFraction? : Double → Option (Int × Nat)
  | .finite negative m e =>
    let n : Int := if negative then -(m : Int) else m
    some (if 0 ≤ e then (n * (Nat.pow 2 e.toNat : Nat), 1) else (n, Nat.pow 2 (-e).toNat))
  | _ => none

/-- Equality of numbers: the zeros are equal, and a NaN equals nothing. -/
def same : Double → Double → Bool
  | .infinite a, .infinite b => a == b
  | a, b =>
    match a.toFraction?, b.toFraction? with
    | some (n, d), some (m, e) => n * e == m * d
    | _, _ => false

/-- Whether a number is exactly a given whole number. -/
def isInt (a : Double) (i : Int) : Bool :=
  match a.toFraction? with
  | some (n, d) => n == i * d
  | none => false

end Double

end Grammatic
