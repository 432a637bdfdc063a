/-!
# Binary floating-point numbers

Numbers of 64 and 32 bits in the binary interchange formats, held as their bits so that a number is
kept exactly, the payload of a NaN included.  `Binary64.same` is numerical equality: both zeros are
one number, and a NaN is equal to nothing.
-/

namespace GraphTemplate

def twoPow (exponent : Nat) : Nat :=
  Nat.pow 2 exponent

/-- A number of 64 bits: sign, 11 bits of exponent, 52 bits of fraction. -/
structure Binary64 where
  bits : UInt64
deriving DecidableEq, Repr

namespace Binary64

def fraction (x : Binary64) : Nat :=
  x.bits.toNat % twoPow 52

def exponent (x : Binary64) : Nat :=
  x.bits.toNat / twoPow 52 % twoPow 11

def isNegative (x : Binary64) : Bool :=
  twoPow 63 ≤ x.bits.toNat

def isNaN (x : Binary64) : Bool :=
  x.exponent == 2047 && x.fraction != 0

def isInfinite (x : Binary64) : Bool :=
  x.exponent == 2047 && x.fraction == 0

def isZero (x : Binary64) : Bool :=
  x.exponent == 0 && x.fraction == 0

def same (x y : Binary64) : Bool :=
  ! x.isNaN && ! y.isNaN && (x == y || (x.isZero && y.isZero))

theorem same_comm (x y : Binary64) : x.same y = y.same x := by
  have flip : (x == y) = (y == x) := by
    rw [Bool.eq_iff_iff, beq_iff_eq, beq_iff_eq]
    exact eq_comm
  unfold same
  rw [flip, Bool.and_comm (! x.isNaN), Bool.and_comm x.isZero]

/-- A number is equal to itself unless it is a NaN. -/
theorem same_self (x : Binary64) : x.same x = ! x.isNaN := by
  simp [same]

/-- The significand of a finite number: its magnitude is `significand * 2 ^ (scale - 1075)`. -/
def significand (x : Binary64) : Nat :=
  if x.exponent = 0 then x.fraction else twoPow 52 + x.fraction

/-- The exponent that belongs to `significand`, moved up by 1075. -/
def scale (x : Binary64) : Nat :=
  max x.exponent 1

end Binary64

/-- A number of 32 bits: sign, 8 bits of exponent, 23 bits of fraction. -/
structure Binary32 where
  bits : UInt32
deriving DecidableEq, Repr

namespace Binary32

def fraction (x : Binary32) : Nat :=
  x.bits.toNat % twoPow 23

def exponent (x : Binary32) : Nat :=
  x.bits.toNat / twoPow 23 % twoPow 8

def sign (x : Binary32) : Nat :=
  x.bits.toNat / twoPow 31

/-- The same number in 64 bits.  Every number of 32 bits has one, since the wider exponent makes
room to write a subnormal number with a leading one; a NaN becomes a quiet NaN. -/
def widen (x : Binary32) : Binary64 :=
  let magnitude :=
    if x.exponent = 255 then
      if x.fraction = 0 then 2047 * twoPow 52
      else 2047 * twoPow 52 + twoPow 51 + x.fraction % twoPow 22 * twoPow 29
    else if x.exponent = 0 then
      if x.fraction = 0 then 0
      else
        let lead := x.fraction.log2
        (lead + 874) * twoPow 52 + (x.fraction - twoPow lead) * twoPow (52 - lead)
    else
      (x.exponent + 896) * twoPow 52 + x.fraction * twoPow 29
  ⟨UInt64.ofNat (x.sign * twoPow 63 + magnitude)⟩

end Binary32

end GraphTemplate
