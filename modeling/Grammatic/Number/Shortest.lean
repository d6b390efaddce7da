import Grammatic.Number.Double

/-!
# Shortest decimal text

The decimal text of a floating point number has the fewest significant digits that read back as the
number; of two such decimals the nearer one, a half to the even digit. The point is placed
positionally for decimal exponents from -4 to 15, and the text always shows a point or an exponent.
-/

namespace Grammatic

namespace Double

/-- The interval of fractions that round to a finite positive number, all over `den`. -/
structure Bracket where
  /-- Numerator of the lower end. -/
  low : Nat
  /-- Numerator of the number itself. -/
  mid : Nat
  /-- Numerator of the upper end. -/
  high : Nat
  den : Nat
  /-- Whether the ends belong to the interval. -/
  closed : Bool

/-- The bracket of `m * 2 ^ e`. Below a power of two the numbers lie twice as close. -/
def bracket (m : Nat) (e : Int) : Bracket :=
  let below := if m = normalMantissa ∧ leastExponent < e then 1 else 2
  let (scale, den) :=
    if 0 ≤ e - 2 then (Nat.pow 2 (e - 2).toNat, 1) else (1, Nat.pow 2 (2 - e).toNat)
  ⟨(4 * m - below) * scale, 4 * m * scale, (4 * m + 2) * scale, den, m % 2 = 0⟩

/-- Whether `digits * 10 ^ place` lies in the bracket. -/
def Bracket.contains (b : Bracket) (digits : Nat) (place : Int) : Bool :=
  let (n, d) :=
    if 0 ≤ place then (digits * Nat.pow 10 place.toNat * b.den, 1)
    else (digits * b.den, Nat.pow 10 (-place).toNat)
  if b.closed then b.low * d ≤ n && n ≤ b.high * d else b.low * d < n && n < b.high * d

/-- The whole number of units `10 ^ place` in the middle of the bracket, and what is left over, as
a numerator and a denominator. -/
def Bracket.unitsAt (b : Bracket) (place : Int) : Nat × Nat × Nat :=
  let (n, d) :=
    if 0 ≤ place then (b.mid, b.den * Nat.pow 10 place.toNat)
    else (b.mid * Nat.pow 10 (-place).toNat, b.den)
  (n / d, n % d, d)

/-- The decimal with its last digit at `place` that lies in the bracket, the nearer one of two. -/
def Bracket.decimalAt? (b : Bracket) (place : Int) : Option Nat :=
  let (units, left, d) := b.unitsAt place
  match b.contains units place, b.contains (units + 1) place with
  | true, true =>
    some (if 2 * left < d then units else if d < 2 * left then units + 1 else units + units % 2)
  | true, false => some units
  | false, true => some (units + 1)
  | false, false => none

/-- The first decimal found when the last place moves down from `place`, `tries` times at most. -/
def Bracket.firstDecimal (b : Bracket) : Nat → Int → Nat × Int
  | 0, place => ((b.unitsAt place).1, place)
  | tries + 1, place =>
    match b.decimalAt? place with
    | some digits => (digits, place)
    | none => b.firstDecimal tries (place - 1)

/-- A place not below that of the first significant digit. -/
def leadingPlace (m : Nat) (e : Int) : Int :=
  ((m.log2 : Int) + e) * 30103 / 100000 + 1

/-- The shortest decimal of `m * 2 ^ e`, as a whole number and the place of its last digit. -/
def shortest (m : Nat) (e : Int) : Nat × Int :=
  (bracket m e).firstDecimal 20 (leadingPlace m e)

/-- Splits the zeros off the end of a digit list, and counts them. -/
def dropZeros (digits : List Char) : List Char × Nat :=
  let kept := (digits.reverse.dropWhile (· = '0')).reverse
  (kept, digits.length - kept.length)

/-- The exponent mark, the sign, and at least two digits. -/
def exponentText (exponent : Int) : List Char :=
  let digits := Nat.toDigits 10 exponent.natAbs
  let sign := if exponent < 0 then '-' else '+'
  'e' :: sign :: (if digits.length < 2 then '0' :: digits else digits)

/-- The text of significant digits of which the first has the given decimal exponent. -/
def digitsText (digits : List Char) (exponent : Int) : List Char :=
  if exponent < -4 ∨ 16 ≤ exponent then
    match digits with
    | first :: second :: rest => first :: '.' :: second :: rest ++ exponentText exponent
    | _ => digits ++ exponentText exponent
  else if exponent < 0 then
    '0' :: '.' :: List.replicate (-exponent - 1).toNat '0' ++ digits
  else
    let whole := exponent.toNat + 1
    if digits.length ≤ whole then
      digits ++ List.replicate (whole - digits.length) '0' ++ ['.', '0']
    else digits.take whole ++ '.' :: digits.drop whole

/-- The text of a floating point number. -/
def text : Double → String
  | .nan => "nan"
  | .infinite negative => if negative then "-inf" else "inf"
  | .finite negative m e =>
    let body :=
      if m = 0 then ['0', '.', '0']
      else
        let (units, place) := shortest m e
        let (digits, dropped) := dropZeros (Nat.toDigits 10 units)
        digitsText digits (place + dropped + digits.length - 1)
    String.ofList (if negative then '-' :: body else body)

/-- One digit is enough for a tenth, though a tenth is no binary fraction. -/
example : (nearest false 1 10).text = "0.1" := by decide +kernel

/-- Zero keeps its sign. -/
example : (zero true).text = "-0.0" := by decide +kernel

/-- The ends of positional notation. -/
example : (ofDecimal false 1 15).text = "1000000000000000.0" ∧
    (ofDecimal false 1 16).text = "1e+16" ∧
    (ofDecimal false 1 (-4)).text = "0.0001" ∧
    (ofDecimal false 1 (-5)).text = "1e-05" := by decide +kernel

/-- The least and the greatest finite number. -/
example : (ofDecimal false 3 (-324)).text = "5e-324" ∧
    (nearest false ((2 ^ 53 - 1) * 2 ^ 971) 1).text = "1.7976931348623157e+308" := by
  decide +kernel

end Double

end Grammatic
