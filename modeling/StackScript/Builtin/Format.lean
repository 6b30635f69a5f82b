import StackScript.Value.Display
import StackScript.Decimal.Shortest
import StackScript.Decimal.Read
import StackScript.Text.Bytes

/-!
# Formatting values

A format is text with verbs: a percent sign, for some a number of decimal places, and a letter
that says how the next value is written. A verb that no value is left for says so.

Main statements: `format_plain` (text without verbs stays as it is).
-/
namespace StackScript.Format

/-- The places of a floating point number when a verb does not say how many. -/
def defaultPlaces : Nat := 6

/-- A whole number in hexadecimal, a negative one as 64 bits. -/
def hexText (n : Int64) : String := String.ofList (Text.hexDigits n.toUInt64.toNat)

/-- A byte as two hexadecimal digits. -/
def byteText (b : UInt8) : String := Text.padLeft '0' 2 (String.ofList (Text.hexDigits b.toNat))

/-- A value as a verb writes it. -/
def valueText (s : Store) (places : Option Nat) (verb : Char) (v : Value) : String :=
  match verb with
  | 'd' =>
    match v.asInt? with
    | some n => Decimal.ofInt n.toInt
    | none => v.display s
  | 'f' => Decimal.fixed (v.asFloat?.getD 0) (places.getD defaultPlaces)
  | 'q' => Text.quote (v.display s)
  | 'x' =>
    match v with
    | .string text => String.join ((Text.bytes text).map byteText)
    | v => (v.asInt?.map hexText).getD ""
  | 'T' => v.typeName s
  | _ => v.display s

/-- What a verb is replaced by, and the values that are left. -/
def verbText (s : Store) (places : Option Nat) (verb : Char) (args : List Value) :
    String × List Value :=
  if verb = '%' then ("%", args)
  else
    match args with
    | [] => ("%!" ++ String.singleton verb ++ "(MISSING)", [])
    | v :: rest => (valueText s places verb v, rest)

/-- The decimal places that a verb starts with, if they are a number. -/
def readPlaces (ds : List Char) : Option Nat :=
  match Decimal.readInteger 10 0 0xFFFFFFFFFFFFFFFF ds with
  | .ok n => some n.toNat
  | .error _ => none

/-- Where in a verb the reading of a format is. -/
inductive Phase where
  | text
  /-- After a percent sign. -/
  | verb
  /-- After a point; the digits are in reverse. -/
  | places (digits : List Char)

/-- Format the rest of a text. -/
def formatFrom (s : Store) : Phase → List Char → List Value → String
  | .text, [], _ => ""
  | .text, c :: rest, args =>
    if c = '%' then formatFrom s .verb rest args
    else String.singleton c ++ formatFrom s .text rest args
  | .verb, [], _ | .places _, [], _ => "%"
  | .verb, c :: rest, args =>
    if c = '.' then formatFrom s (.places []) rest args
    else
      let (text, args) := verbText s none c args
      text ++ formatFrom s .text rest args
  | .places ds, c :: rest, args =>
    if Text.isDigit c then formatFrom s (.places (c :: ds)) rest args
    else
      let (text, args) := verbText s (readPlaces ds.reverse) c args
      text ++ formatFrom s .text rest args

/-- Replace the verbs of a format by values. -/
def format (s : Store) (text : String) (args : List Value) : String :=
  formatFrom s .text text.toList args

theorem formatFrom_plain (s : Store) (args : List Value) {text : List Char} (h : '%' ∉ text) :
    formatFrom s .text text args = String.ofList text := by
  induction text with
  | nil => simp [formatFrom]
  | cons c rest ih =>
    simp only [List.mem_cons, not_or] at h
    rw [formatFrom, if_neg (Ne.symm h.1), ih h.2]
    simp

theorem format_plain (s : Store) (args : List Value) {text : String} (h : '%' ∉ text.toList) :
    format s text args = text := by
  simp [format, formatFrom_plain s args h]

end StackScript.Format
