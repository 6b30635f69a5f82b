/-!
# Binary fractions and their decimal neighbours

A finite floating point number is `mantissa · 2 ^ exponent`. This module decodes the bits of the
two formats the language has, rounds a quotient to the nearest integer, and encodes the number
nearest to a quotient.

Main statements: `roundHalfEven_exact` (an exact quotient is not changed),
`roundHalfEven_within` (the result is one of the two integers around the quotient) and
`remainder_unit` (numbers below the divisor are their own remainders).
-/
namespace StackScript.Decimal

/-- The sizes of the fields of a binary floating point format. -/
structure Layout where
  fractionBits : Nat
  exponentBits : Nat

/-- Double precision. -/
def double : Layout := ⟨52, 11⟩

/-- Single precision. -/
def single : Layout := ⟨23, 8⟩

namespace Layout

/-- What the stored exponent exceeds the true one by. -/
def bias (l : Layout) : Nat := Nat.pow 2 (l.exponentBits - 1) - 1

/-- The exponent of the least positive number. -/
def leastExponent (l : Layout) : Int := 1 - (l.bias : Int) - l.fractionBits

/-- The stored exponent of infinities and of numbers that are none. -/
def specialField (l : Layout) : Nat := Nat.pow 2 l.exponentBits - 1

end Layout

/-- What the bits of a floating point number say. -/
inductive Reading where
  | notANumber
  | infinite (negative : Bool)
  /-- `mantissa · 2 ^ exponent`. At the start of a binade the number below is nearer than the
  number above; `narrowBelow` records that. -/
  | finite (negative : Bool) (mantissa : Nat) (exponent : Int) (narrowBelow : Bool)
deriving Repr, DecidableEq

/-- Decode a number from its bits. -/
def Layout.read (l : Layout) (bits : Nat) : Reading :=
  let unit := Nat.pow 2 l.fractionBits
  let fraction := bits % unit
  let field := bits / unit % Nat.pow 2 l.exponentBits
  let negative := bits / unit / Nat.pow 2 l.exponentBits % 2 == 1
  if field = l.specialField then
    if fraction = 0 then .infinite negative else .notANumber
  else if field = 0 then .finite negative fraction l.leastExponent false
  else
    .finite negative (fraction + unit) (l.leastExponent + field - 1) (fraction == 0 && 1 < field)

/-- The integer nearest to `numerator / denominator`; a half goes to the even neighbour. -/
def roundHalfEven (numerator denominator : Nat) : Nat :=
  let quotient := numerator / denominator
  let twice := 2 * (numerator % denominator)
  if twice < denominator then quotient
  else if denominator < twice then quotient + 1
  else quotient + quotient % 2

theorem roundHalfEven_exact (n : Nat) {d : Nat} (h : 0 < d) : roundHalfEven (n * d) d = n := by
  simp [roundHalfEven, Nat.mul_div_cancel _ h, h]

theorem roundHalfEven_within (n d : Nat) :
    roundHalfEven n d = n / d ∨ roundHalfEven n d = n / d + 1 := by
  simp only [roundHalfEven]
  split
  · exact .inl rfl
  · split
    · exact .inr rfl
    · have := Nat.mod_two_eq_zero_or_one (n / d)
      omega

/-- A quotient times a power of a base, as a quotient. -/
def scale (base : Nat) (numerator denominator : Nat) (power : Int) : Nat × Nat :=
  if 0 ≤ power then (numerator * Nat.pow base power.toNat, denominator)
  else (numerator, denominator * Nat.pow base (-power).toNat)

/-- The greatest `e` with `2 ^ e` at most the quotient of two positive numbers. -/
def floorLog2 (numerator denominator : Nat) : Int :=
  let guess : Int := (numerator.log2 : Int) - denominator.log2
  let (n, d) := scale 2 numerator denominator (-guess)
  if n < d then guess - 1 else guess

/-- The bits of the number of this format nearest to a quotient, a half going to the even
mantissa; too large a quotient gives infinity. -/
def Layout.nearest (l : Layout) (negative : Bool) (numerator denominator : Nat) : Nat :=
  let unit := Nat.pow 2 l.fractionBits
  let sign := if negative then unit * Nat.pow 2 l.exponentBits else 0
  if numerator = 0 then sign
  else
    let exponent := max (floorLog2 numerator denominator - l.fractionBits) l.leastExponent
    let (n, d) := scale 2 numerator denominator (-exponent)
    let rounded := roundHalfEven n d
    let (mantissa, exponent) :=
      if rounded = 2 * unit then (unit, exponent + 1) else (rounded, exponent)
    if mantissa < unit then sign + mantissa
    else
      let field := (exponent - l.leastExponent + 1).toNat
      if l.specialField ≤ field then sign + l.specialField * unit
      else sign + field * unit + (mantissa - unit)

/-!
## Remainders of floating point numbers

The remainder of a division whose quotient is cut towards zero. It is exact: both numbers are
whole multiples of a power of two, and so is the remainder.
-/

/-- The remainder of one magnitude divided by another one, as a multiple of `2 ^ power`. -/
def magnitudeRemainder (a : Nat) (p : Int) (b : Nat) (q : Int) : Nat × Int :=
  let power := min p q
  (a * Nat.pow 2 (p - power).toNat % (b * Nat.pow 2 (q - power).toNat), power)

/-- The bits of a remainder, which has the sign of the dividend. -/
def remainderBits (x y : Reading) : Nat :=
  match x, y with
  | .finite negative a p _, .finite _ b q _ =>
    if b = 0 then 0x7FF8000000000000
    else
      let (r, power) := magnitudeRemainder a p b q
      let (n, d) := scale 2 r 1 power
      double.nearest negative n d
  | .finite negative a p _, .infinite _ =>
    let (n, d) := scale 2 a 1 p
    double.nearest negative n d
  | _, _ => 0x7FF8000000000000

/-- The remainder of a division. -/
def remainder (x y : Float) : Float :=
  .ofBits (remainderBits (double.read x.toBits.toNat) (double.read y.toBits.toNat)).toUInt64

theorem remainder_unit {a b : Nat} (p : Int) (h : a < b) :
    magnitudeRemainder a p b p = (a, p) := by
  simp [magnitudeRemainder, Nat.mod_eq_of_lt h]

end StackScript.Decimal
