import StackScript.Calendar
import StackScript.Decimal.Shortest
import StackScript.Text.Layout

/-!
# Layouts of dates and times

A layout is text with fields: a percent sign, perhaps a sign for the padding of a number, and
letters that name a part of the instant. Some letters stand for several fields. A layout with a
percent sign that starts no field cannot be written at all.

Main statements: `format?_of_text` (text without fields is written as it is).
-/
namespace StackScript.Calendar

/-- How a number that is shorter than its field is filled. -/
inductive Padding where
  | none
  | zero
  | space
deriving Repr, DecidableEq

/-- A number in a field. A year beyond four digits has a sign. -/
def number (width : Nat) (n : Int) (p : Padding) (signed : Bool) : String :=
  let sign := if n < 0 then "-" else if signed then "+" else ""
  let digits := Decimal.ofNat n.natAbs
  let width := if signed then width + 1 else width
  match p with
  | .none => sign ++ digits
  | .zero => sign ++ Text.padLeft '0' (width - sign.length) digits
  | .space => Text.padLeft ' ' width (sign ++ digits)

/-- A year in a field. -/
def year (n : Int) (p : Padding) : String := number 4 n p (n < 0 || 9999 < n)

/-- The names of months. -/
def monthNames : List String :=
  ["January", "February", "March", "April", "May", "June", "July", "August", "September",
   "October", "November", "December"]

/-- The names of days of the week. -/
def dayNames : List String :=
  ["Monday", "Tuesday", "Wednesday", "Thursday", "Friday", "Saturday", "Sunday"]

/-- The first three letters of a name. -/
def short (name : String) : String := String.ofList (name.toList.take 3)

/-- The name of the month. -/
def monthName (t : Instant) : String := monthNames.getD (t.date.month - 1) ""

/-- The name of the day of the week. -/
def dayName (t : Instant) : String := dayNames.getD t.weekday ""

/-- The numeric field of a letter, with the padding it has unless told otherwise. -/
def numeric? (t : Instant) (letter : Char) : Option (Padding × (Padding → String)) :=
  let one (n : Nat) (_ : Padding) : String := Decimal.ofNat n
  let two (n : Int) (p : Padding) : String := number 2 n p false
  let d := t.date
  match letter with
  | 'Y' => some (.zero, year d.year)
  | 'C' => some (.zero, two (d.year / 100))
  | 'y' => some (.zero, two (d.year % 100))
  | 'q' => some (.none, one ((d.month - 1) / 3 + 1))
  | 'm' => some (.zero, two d.month)
  | 'd' => some (.zero, two d.day)
  | 'e' => some (.space, two d.day)
  | 'w' => some (.none, one ((t.weekday + 1) % 7))
  | 'u' => some (.none, one (t.weekday + 1))
  | 'U' => some (.zero, two (t.week true))
  | 'W' => some (.zero, two (t.week false))
  | 'G' => some (.zero, year t.thursday.year)
  | 'g' => some (.zero, two (t.thursday.year % 100))
  | 'V' => some (.zero, two t.isoWeek)
  | 'j' => some (.zero, fun p => number 3 d.ordinal p false)
  | 'H' => some (.zero, two t.hour)
  | 'k' => some (.space, two t.hour)
  | 'I' => some (.zero, two t.hour12)
  | 'l' => some (.space, two t.hour12)
  | 'M' => some (.zero, two t.minute)
  | 'S' => some (.zero, two t.second)
  | 'f' => some (.zero, fun p => number 9 (t.fraction * 1000000) p false)
  | 's' => some (.none, fun p => number 9 t.timestamp p false)
  | _ => none

/-- The milliseconds as a fraction of a second with some number of digits. -/
def fractionDigits (t : Instant) (digits : Nat) : String :=
  Text.padLeft '0' 3 (Decimal.ofNat t.fraction) ++ String.ofList (List.replicate (digits - 3) '0')

/-- The fraction of a second, if there is one. -/
def fractionText (t : Instant) : String :=
  if t.fraction = 0 then "" else "." ++ fractionDigits t 3

/-- The field of a letter in its usual padding. -/
def plain? (t : Instant) (letter : Char) : Option String :=
  match numeric? t letter with
  | some (p, write) => some (write p)
  | none =>
    match letter with
    | 'b' | 'h' => some (short (monthName t))
    | 'B' => some (monthName t)
    | 'a' => some (short (dayName t))
    | 'A' => some (dayName t)
    | 'p' => some (if t.hour < 12 then "AM" else "PM")
    | 'P' => some (if t.hour < 12 then "am" else "pm")
    | 'Z' => some "+00:00"
    | 'z' => some "+0000"
    | 't' => some "\t"
    | 'n' => some "\n"
    | '%' => some "%"
    | _ => none

/-- Text with fields of one letter, all in their usual padding. -/
def plainFields (t : Instant) : List Char → Option String
  | '%' :: letter :: rest => do pure ((← plain? t letter) ++ (← plainFields t rest))
  | c :: rest => (String.singleton c ++ ·) <$> plainFields t rest
  | [] => some ""

/-- What a letter stands for that names several fields. -/
def combined? : Char → Option String
  | 'D' | 'x' => some "%m/%d/%y"
  | 'F' => some "%Y-%m-%d"
  | 'v' => some "%e-%b-%Y"
  | 'R' => some "%H:%M"
  | 'T' | 'X' => some "%H:%M:%S"
  | 'r' => some "%I:%M:%S %p"
  | 'c' => some "%a %b %e %H:%M:%S %Y"
  | _ => none

/-- An instant as data files write it. -/
def standard? (t : Instant) : Option String :=
  (· ++ fractionText t ++ "+00:00") <$> plainFields t "%Y-%m-%dT%H:%M:%S".toList

/-- The field of a letter, or the fields it stands for. -/
def field? (t : Instant) (letter : Char) : Option String :=
  match combined? letter with
  | some layout => plainFields t layout.toList
  | none => if letter = '+' then standard? t else plain? t letter

/-- The padding that a sign asks for. -/
def padding? : Char → Option Padding
  | '-' => some .none
  | '_' => some .space
  | '0' => some .zero
  | _ => none

/-- A field at the start of a text that follows a percent sign, and how long it is. -/
def fieldAt? (t : Instant) (text : List Char) : Option (String × Nat) :=
  match text with
  | [] => none
  | '.' :: 'f' :: _ => some (fractionText t, 2)
  | '.' :: '3' :: 'f' :: _ => some ("." ++ fractionDigits t 3, 3)
  | '.' :: '6' :: 'f' :: _ => some ("." ++ fractionDigits t 6, 3)
  | '.' :: '9' :: 'f' :: _ => some ("." ++ fractionDigits t 9, 3)
  | '3' :: 'f' :: _ => some (fractionDigits t 3, 2)
  | '6' :: 'f' :: _ => some (fractionDigits t 6, 2)
  | '9' :: 'f' :: _ => some (fractionDigits t 9, 2)
  | ':' :: ':' :: ':' :: 'z' :: _ => some ("+00", 4)
  | ':' :: ':' :: 'z' :: _ => some ("+00:00:00", 3)
  | ':' :: 'z' :: _ => some ("+00:00", 2)
  | c :: rest =>
    match padding? c, rest with
    | some p, letter :: _ => (numeric? t letter).map fun (_, write) => (write p, 2)
    | some _, [] => none
    | none, _ => (field? t c).map fun text => (text, 1)

/-- Write the rest of a layout after skipping some of it. -/
def formatFrom (t : Instant) : (skipped : Nat) → List Char → Option String
  | _, [] => some ""
  | skipped + 1, _ :: rest => formatFrom t skipped rest
  | 0, c :: rest =>
    if c = '%' then do
      let (text, length) ← fieldAt? t rest
      (text ++ ·) <$> formatFrom t length rest
    else (String.singleton c ++ ·) <$> formatFrom t 0 rest

/-- An instant in a layout, unless the layout has a percent sign that starts no field. -/
def format? (t : Instant) (layout : String) : Option String := formatFrom t 0 layout.toList

theorem format?_of_text (t : Instant) {layout : String} (h : '%' ∉ layout.toList) :
    format? t layout = some layout := by
  suffices text : ∀ cs : List Char, '%' ∉ cs → formatFrom t 0 cs = some (String.ofList cs) by
    rw [format?, text _ h, String.ofList_toList]
  intro cs h
  induction cs with
  | nil => rfl
  | cons c rest ih =>
    rw [List.mem_cons, not_or] at h
    rw [formatFrom, if_neg (Ne.symm h.1), ih h.2]
    simp

end StackScript.Calendar
