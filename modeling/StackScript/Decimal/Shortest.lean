import StackScript.Decimal.Basic

/-!
# Decimal text

How floating point numbers are written: with the fewest digits, with a fixed number of decimal
places, and with an exponent.
-/

/-!
## Shortest decimal text

The text of a floating point number is the shortest decimal that reads back as the same number,
of several the nearest to it, an exact tie going up. It is written positionally whatever its
size: never with an exponent, and without a point when the number is whole.
-/
namespace StackScript.Decimal

/-- A decimal `coefficient · 10 ^ exponent`. -/
structure Numeral where
  coefficient : Nat
  exponent : Int
deriving Repr, DecidableEq

/-- Move trailing zeros of the coefficient into the exponent; `fuel` bounds how many. -/
def Numeral.strip : (fuel : Nat) → Numeral → Numeral
  | 0, d => d
  | fuel + 1, d =>
    if d.coefficient ≠ 0 ∧ d.coefficient % 10 = 0 then
      strip fuel ⟨d.coefficient / 10, d.exponent + 1⟩
    else d

/-- The numbers that read back as a given one: `low` to `high` around `value`, all over the
same denominator, the ends included or not. -/
structure Interval where
  low : Nat
  value : Nat
  high : Nat
  denominator : Nat
  closed : Bool

/-- The interval of a positive number `mantissa · 2 ^ exponent`. -/
def Interval.around (mantissa : Nat) (exponent : Int) (narrowBelow : Bool) : Interval :=
  let (factor, denominator) := scale 2 1 1 (exponent - 2)
  { low := (4 * mantissa - if narrowBelow then 1 else 2) * factor
    value := 4 * mantissa * factor
    high := (4 * mantissa + 2) * factor
    denominator := denominator
    closed := mantissa % 2 == 0 }

/-- Whether `candidate` lies in the interval, in units of the interval's own scale. -/
def Interval.contains (i : Interval) (candidate : Nat) : Bool :=
  let c := candidate * i.denominator
  if i.closed then i.low ≤ c && c ≤ i.high else i.low < c && c < i.high

/-- The interval with all its numbers times `10 ^ power`. -/
def Interval.scaleTen (i : Interval) (power : Int) : Interval :=
  let (factor, denominator) := scale 10 1 i.denominator power
  { i with
    low := i.low * factor, value := i.value * factor, high := i.high * factor
    denominator := denominator }

/-- The decimal of the grid `10 ^ exponent` that lies in the interval, the nearer of two. -/
def Interval.onGrid (i : Interval) (exponent : Int) : Option Numeral :=
  let s := i.scaleTen (-exponent)
  let below := s.value / s.denominator
  let remainder := s.value % s.denominator
  match s.contains below, s.contains (below + 1) with
  | true, true =>
    some ⟨if s.denominator ≤ 2 * remainder then below + 1 else below, exponent⟩
  | true, false => some ⟨below, exponent⟩
  | false, true => some ⟨below + 1, exponent⟩
  | false, false => none

/-- Try ever finer grids, `fuel` of them. -/
def Interval.search (i : Interval) : (fuel : Nat) → (exponent : Int) → Numeral
  | 0, exponent => ⟨(i.scaleTen (-exponent)).value / (i.scaleTen (-exponent)).denominator, exponent⟩
  | fuel + 1, exponent =>
    match i.onGrid exponent with
    | some d => d
    | none => i.search fuel (exponent - 1)

/-- The least `k` from `k` on with the quotient below `10 ^ k`. -/
def leastPowerAbove (numerator denominator : Nat) : (fuel : Nat) → (k : Int) → Int
  | 0, k => k
  | fuel + 1, k =>
    let (n, d) := scale 10 numerator denominator (-k)
    if n < d then k else leastPowerAbove numerator denominator fuel (k + 1)

/-- The shortest decimal that reads back as the positive number `mantissa · 2 ^ exponent`. -/
def shortest (mantissa : Nat) (exponent : Int) (narrowBelow : Bool) : Numeral :=
  let i := Interval.around mantissa exponent narrowBelow
  let guess := floorLog2 i.value i.denominator * 30103 / 100000 - 1
  let magnitude := leastPowerAbove i.value i.denominator 5 guess
  (i.search 18 (magnitude - 1)).strip 20

/-- Decimal digits of a number. -/
def digits (n : Nat) : List Char := Nat.toDigits 10 n

/-- A decimal written out with all its zeros. -/
def Numeral.positional (d : Numeral) : String :=
  let ds := digits d.coefficient
  if 0 ≤ d.exponent then
    String.ofList (ds ++ List.replicate d.exponent.toNat '0')
  else
    let places := (-d.exponent).toNat
    let padded := List.replicate (places + 1 - ds.length) '0' ++ ds
    let whole := padded.length - places
    String.ofList (padded.take whole ++ '.' :: padded.drop whole)

/-- The text of a number that was read from its bits. -/
def Reading.text : Reading → String
  | .notANumber => "NaN"
  | .infinite negative => if negative then "-inf" else "inf"
  | .finite negative mantissa exponent narrowBelow =>
    let sign := if negative then "-" else ""
    if mantissa = 0 then sign ++ "0"
    else sign ++ (shortest mantissa exponent narrowBelow).positional

/-- The text of a double. -/
def ofFloat (x : Float) : String := (double.read x.toBits.toNat).text

/-- The text of a single. -/
def ofFloat32 (x : Float32) : String := (single.read x.toBits.toNat).text

/-- A whole number with a sign when negative. -/
def ofInt (n : Int) : String :=
  match n with
  | .ofNat n => String.ofList (digits n)
  | .negSucc n => "-" ++ String.ofList (digits (n + 1))

/-- The text of a natural number. -/
def ofNat (n : Nat) : String := String.ofList (digits n)

/-!
## Decimal text with a fixed number of places

The exact value of a floating point number rounded to a number of decimal places, a half going to
the even digit.
-/

/-- `mantissa · 2 ^ exponent` with `places` decimal places. -/
def fixedPlaces (mantissa : Nat) (exponent : Int) (places : Nat) : String :=
  let (n, d) := scale 2 (mantissa * Nat.pow 10 places) 1 exponent
  if places = 0 then ofNat (roundHalfEven n d)
  else Numeral.positional ⟨roundHalfEven n d, -(places : Int)⟩

/-- A read number with `places` decimal places. -/
def Reading.fixed (r : Reading) (places : Nat) : String :=
  match r with
  | .notANumber => "NaN"
  | .infinite negative => if negative then "-inf" else "inf"
  | .finite negative mantissa exponent _ =>
    (if negative then "-" else "") ++ fixedPlaces mantissa exponent places

/-- A double with `places` decimal places. -/
def fixed (x : Float) (places : Nat) : String := (double.read x.toBits.toNat).fixed places

/-!
## Decimal text with an exponent

The form of numbers in data files: the same shortest digits as elsewhere, always with a point or
an exponent. Numbers from a hundred-thousandth up to ten to the sixteenth are written
positionally; others have one digit before the point and a power of ten with its sign after an
`e`.
-/

/-- Digits with the point moved so that `whole` of them stand before it. -/
def placePoint (ds : List Char) (whole : Nat) : List Char :=
  if ds.length ≤ whole then ds ++ List.replicate (whole - ds.length) '0' ++ ['.', '0']
  else ds.take whole ++ '.' :: ds.drop whole

/-- Digits with one of them before the point, times a power of ten. -/
def withExponent (ds : List Char) (power : Int) : List Char :=
  let point := if ds.length ≤ 1 then ds else ds.take 1 ++ '.' :: ds.drop 1
  let sign := if power < 0 then '-' else '+'
  point ++ 'e' :: sign :: digits power.natAbs

/-- A decimal in this form; `whole` is the number of its digits before the point. -/
def Numeral.scientific (d : Numeral) : List Char :=
  let ds := digits d.coefficient
  let whole := (ds.length : Int) + d.exponent
  if 0 < whole ∧ whole ≤ 16 then placePoint ds whole.toNat
  else if -5 < whole ∧ whole ≤ 0 then
    ['0', '.'] ++ List.replicate (-whole).toNat '0' ++ ds
  else withExponent ds (whole - 1)

/-- The text of a finite double in this form. -/
def scientific (x : Float) : String :=
  match double.read x.toBits.toNat with
  | .finite negative mantissa exponent narrowBelow =>
    let sign := if negative then ['-'] else []
    if mantissa = 0 then String.ofList (sign ++ ['0', '.', '0'])
    else String.ofList (sign ++ (shortest mantissa exponent narrowBelow).scientific)
  | r => r.text

end StackScript.Decimal
