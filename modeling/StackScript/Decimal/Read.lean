import StackScript.Decimal.Basic
import StackScript.Text.Property

/-!
# Reading numbers

Whole numbers: an optional sign and digits of a radix. Floating point numbers: an optional sign,
then `inf`, `infinity` or `nan` in any case, or digits with at most one point and an optional
exponent; the result is the double nearest to the written decimal.
-/
namespace StackScript.Decimal

/-- Why a text is no whole number of a bounded range. -/
inductive IntegerFault where
  | empty
  | invalidDigit
  | tooLarge
  | tooSmall
deriving Repr, DecidableEq

/-- The value of a digit of some radix up to 36. -/
def digitValue (c : Char) : Option Nat :=
  if '0' ≤ c ∧ c ≤ '9' then some (c.toNat - '0'.toNat)
  else if 'a' ≤ c ∧ c ≤ 'z' then some (c.toNat - 'a'.toNat + 10)
  else if 'A' ≤ c ∧ c ≤ 'Z' then some (c.toNat - 'A'.toNat + 10)
  else none

/-- Read digits of a radix onto what was read before; `none` at a character that is no digit. -/
def readDigits (radix : Nat) (value : Nat) : List Char → Option Nat
  | [] => some value
  | c :: rest =>
    match digitValue c with
    | some d => if d < radix then readDigits radix (value * radix + d) rest else none
    | none => none

/-- The first character that is no digit comes before the value leaves the range. A long text
is read left to right, so whichever comes first is reported. -/
def readBounded (radix bound : Nat) (beyond : IntegerFault) (value : Nat) :
    List Char → Except IntegerFault Nat
  | [] => .ok value
  | c :: rest =>
    match digitValue c with
    | some d =>
      if d < radix then
        if bound < value * radix + d then .error beyond
        else readBounded radix bound beyond (value * radix + d) rest
      else .error .invalidDigit
    | none => .error .invalidDigit

/-- A whole number from `least` to `greatest` with an optional sign. -/
def readInteger (radix : Nat) (least greatest : Int) (text : List Char) :
    Except IntegerFault Int :=
  match text with
  | [] => .error .empty
  | ['+'] | ['-'] => .error .invalidDigit
  | '+' :: rest => (readBounded radix greatest.toNat .tooLarge 0 rest).map Int.ofNat
  | '-' :: rest =>
    if least < 0 then
      (readBounded radix (-least).toNat .tooSmall 0 rest).map fun n => -Int.ofNat n
    else .error .invalidDigit
  | rest => (readBounded radix greatest.toNat .tooLarge 0 rest).map Int.ofNat

/-- The least 64-bit integer. -/
def leastInt64 : Int := -0x8000000000000000

/-- The greatest 64-bit integer. -/
def greatestInt64 : Int := 0x7FFFFFFFFFFFFFFF

/-- A 64-bit whole number in decimal. -/
def readInt64 (text : String) : Option Int64 :=
  match readInteger 10 leastInt64 greatestInt64 text.toList with
  | .ok n => some (Int64.ofInt n)
  | .error _ => none

/-- The bits of the double nearest to `coefficient · 10 ^ exponent`, whose coefficient has
`length` digits. Far beyond the range of doubles the power is not computed. -/
def nearestDouble (negative : Bool) (coefficient length : Nat) (exponent : Int) : Nat :=
  if coefficient = 0 then double.nearest negative 0 1
  else if 400 < exponent + length then double.nearest negative (Nat.pow 10 400) 1
  else if exponent + length < -400 then double.nearest negative 0 1
  else
    let (n, d) := scale 10 coefficient 1 exponent
    double.nearest negative n d

/-- The written exponent: a mark, an optional sign, and digits to the end. -/
def readExponent : List Char → Option Int
  | [] => some 0
  | mark :: rest =>
    if mark = 'e' ∨ mark = 'E' then
      match rest with
      | '+' :: (d :: ds) => (readDigits 10 0 (d :: ds)).map Int.ofNat
      | '-' :: (d :: ds) => (readDigits 10 0 (d :: ds)).map fun n => -Int.ofNat n
      | d :: ds => (readDigits 10 0 (d :: ds)).map Int.ofNat
      | [] => none
    else none

/-- An unsigned decimal, as the bits of the nearest double. -/
def readUnsigned (negative : Bool) (text : List Char) : Option Nat :=
  let whole := text.takeWhile Text.isDigit
  let rest := text.dropWhile Text.isDigit
  let (fraction, rest) :=
    match rest with
    | '.' :: after => (after.takeWhile Text.isDigit, after.dropWhile Text.isDigit)
    | _ => ([], rest)
  if whole.isEmpty && fraction.isEmpty then none
  else
    match readExponent rest, readDigits 10 0 (whole ++ fraction) with
    | some exponent, some coefficient =>
      let significant := (whole ++ fraction).dropWhile (· == '0')
      some (nearestDouble negative coefficient significant.length (exponent - fraction.length))
    | _, _ => none

/-- The texts of infinity and of what is no number, in lower case. -/
def readSpecial (negative : Bool) (text : List Char) : Option Nat :=
  match String.ofList (text.map Char.toLower) with
  | "inf" | "infinity" => some (double.nearest negative (Nat.pow 10 400) 1)
  | "nan" => some (if negative then 0xFFF8000000000000 else 0x7FF8000000000000)
  | _ => none

/-- The bits of a double read from a text. -/
def readBits (text : String) : Option Nat :=
  let (negative, rest) :=
    match text.toList with
    | '-' :: rest => (true, rest)
    | '+' :: rest => (false, rest)
    | rest => (false, rest)
  (readSpecial negative rest).or (readUnsigned negative rest)

/-- A double read from a text. -/
def readFloat (text : String) : Option Float :=
  (readBits text).map fun bits => Float.ofBits (UInt64.ofNat bits)

end StackScript.Decimal
