import GraphTemplate.Number.Binary

/-!
# Decimal text of numbers

A finite binary number is written with the fewest significant digits that read back as the same
number; of the decimals with that many digits the nearest is taken, and of two at the same distance
the larger.  The digits are laid out positionally, whatever the magnitude, and a whole number has
no decimal point.
-/

namespace GraphTemplate

def tenPow (exponent : Nat) : Nat :=
  Nat.pow 10 exponent

/-- The number `digits * 10 ^ exponent`. -/
structure Decimal where
  digits : Nat
  exponent : Int
deriving DecidableEq, Repr

namespace Decimal

/-- The number of decimal digits of a natural number, one for zero. -/
def digitCount (n : Nat) : Nat :=
  (Nat.toDigits 10 n).length

/-- The fraction part as digits after the point: padded on the left to a number of places, without
zeros at the end. -/
def fractionDigits (places part : Nat) : List Char :=
  let digits := Nat.toDigits 10 part
  let padded := List.replicate (places - digits.length) '0' ++ digits
  (padded.reverse.dropWhile (· == '0')).reverse

def text (d : Decimal) : List Char :=
  let whole := d.digits * tenPow d.exponent.toNat
  let places := (-d.exponent).toNat
  let part := whole % tenPow places
  let front := Nat.toDigits 10 (whole / tenPow places)
  if part = 0 then front else front ++ '.' :: fractionDigits places part

end Decimal

/-- The positive reals that round to one number: from `low / unit` to `high / unit` around
`value / unit`, the ends included if `closed`. -/
structure RoundingInterval where
  low : Nat
  value : Nat
  high : Nat
  unit : Nat
  closed : Bool
deriving DecidableEq, Repr

namespace RoundingInterval

/-- The point `n * step` lies in the interval, all being counted in parts of the unit. -/
def contains (interval : RoundingInterval) (point : Nat) : Bool :=
  if interval.closed then interval.low ≤ point && point ≤ interval.high
  else interval.low < point && point < interval.high

/-- The interval with every bound multiplied. -/
def magnify (interval : RoundingInterval) (factor : Nat) : RoundingInterval :=
  { interval with
    low := interval.low * factor
    value := interval.value * factor
    high := interval.high * factor }

/-- The multiple of `10 ^ exponent` in the interval that is nearest to its value, among the two
neighbours of the value; at equal distance the larger. -/
def nearest? (interval : RoundingInterval) (exponent : Int) : Option Decimal :=
  let fine := interval.magnify (tenPow (-exponent).toNat)
  let step := interval.unit * tenPow exponent.toNat
  let below := fine.value / step
  let above := below + 1
  match fine.contains (below * step), fine.contains (above * step) with
  | true, true =>
      if 2 * (fine.value - below * step) < step then some ⟨below, exponent⟩
      else some ⟨above, exponent⟩
  | true, false => some ⟨below, exponent⟩
  | false, true => some ⟨above, exponent⟩
  | false, false => none

/-- The decimal exponent of the leading digit of the value. -/
def leadingExponent (interval : RoundingInterval) : Int :=
  if interval.unit ≤ interval.value then
    (Decimal.digitCount (interval.value / interval.unit) : Int) - 1
  else
    -(Decimal.digitCount ((interval.unit - 1) / interval.value) : Int)

/-- The first hit on ever finer grids; where none of them has one, the last point below. -/
def firstHit (interval : RoundingInterval) : Nat → Int → Decimal
  | 0, exponent =>
      let fine := interval.magnify (tenPow (-exponent).toNat)
      ⟨fine.value / (interval.unit * tenPow exponent.toNat), exponent⟩
  | grids + 1, exponent =>
      match interval.nearest? exponent with
      | some decimal => decimal
      | none => firstHit interval grids (exponent - 1)

/-- The decimal in the interval with the fewest digits.  Seventeen digits always suffice for a
number of 64 bits. -/
def shortest (interval : RoundingInterval) : Decimal :=
  interval.firstHit 17 interval.leadingExponent

end RoundingInterval

namespace Binary64

/-- The reals that round to the magnitude of a finite number other than zero.  In quarters of the
last place: two on either side, but only one below a power of two, where the numbers lie closer. -/
def roundingInterval (x : Binary64) : RoundingInterval :=
  let below := if x.exponent ≠ 0 ∧ x.fraction = 0 then 1 else 2
  let up := twoPow (x.scale - 1077)
  { low := (4 * x.significand - below) * up
    value := 4 * x.significand * up
    high := (4 * x.significand + 2) * up
    unit := twoPow (1077 - x.scale)
    closed := x.significand % 2 == 0 }

def text (x : Binary64) : String :=
  if x.isNaN then "NaN"
  else
    let magnitude :=
      if x.isInfinite then ['i', 'n', 'f']
      else if x.isZero then ['0']
      else x.roundingInterval.shortest.text
    String.ofList (if x.isNegative then '-' :: magnitude else magnitude)

end Binary64

end GraphTemplate
