import StackScript.Json
import StackScript.Text.Bytes
import StackScript.Fault

/-!
# Reading JSON

A reader walks the bytes of a text and keeps the line and the column of the next one. A fault
stands either where the reader is or at the byte that it looks at, one column further. Numbers
with a point or an exponent are read as their digits times or divided by a power of ten, and so
can differ in the last place from the nearest number.

Main statements: `advance_rest` (a reader takes one byte at a time).
-/
namespace StackScript.JsonReader

/-! ## Readers and faults -/

/-- What is wrong with a text. -/
inductive Problem where
  | endInList | endInObject | endInString | endInValue
  | expectedColon | expectedListEnd | expectedObjectEnd | expectedIdent | expectedValue
  | invalidEscape | invalidNumber | outOfRange | controlCharacter | keyMustBeString
  | loneSurrogate | trailingComma | trailingCharacters | endOfHexEscape | tooDeep
  /-- A value of a sort that the reader of a certain structure does not take. -/
  | other (text : String)
deriving Repr, DecidableEq

/-- The text of a problem. -/
def Problem.text : Problem → String
  | endInList => "EOF while parsing a list"
  | endInObject => "EOF while parsing an object"
  | endInString => "EOF while parsing a string"
  | endInValue => "EOF while parsing a value"
  | expectedColon => "expected \x60:\x60"
  | expectedListEnd => "expected \x60,\x60 or \x60]\x60"
  | expectedObjectEnd => "expected \x60,\x60 or \x60\x7d\x60"
  | expectedIdent => "expected ident"
  | expectedValue => "expected value"
  | invalidEscape => "invalid escape"
  | invalidNumber => "invalid number"
  | outOfRange => "number out of range"
  | controlCharacter =>
    "control character (\\u0000-\\u001F) found while parsing a string"
  | keyMustBeString => "key must be a string"
  | loneSurrogate => "lone leading surrogate in hex escape"
  | trailingComma => "trailing comma"
  | trailingCharacters => "trailing characters"
  | endOfHexEscape => "unexpected end of hex escape"
  | tooDeep => "recursion limit exceeded"
  | other text => text

/-- Bytes that are not read yet, and the place of the first of them. -/
structure Reader where
  rest : List UInt8
  line : Nat := 1
  column : Nat := 0

/-- A problem with its place. -/
structure Located where
  problem : Problem
  line : Nat
  column : Nat
deriving Repr, DecidableEq

/-- A problem as a fault. -/
def Located.fault (l : Located) : Fault :=
  .about .json (l.problem.text ++ " at line " ++ Decimal.ofNat l.line ++ " column " ++
    Decimal.ofNat l.column)

/-- A reader past the next byte. -/
def Reader.advance (r : Reader) : Reader :=
  match r.rest with
  | [] => r
  | b :: rest =>
    if b == 0x0A then ⟨rest, r.line + 1, 0⟩ else ⟨rest, r.line, r.column + 1⟩

/-- Steps of reading. -/
abbrev ReadM := ExceptT Located (StateM Reader)

/-- Fail where the reader is. -/
def failHere {α : Type} (p : Problem) : ReadM α := fun r => (.error ⟨p, r.line, r.column⟩, r)

/-- Fail at the byte that the reader looks at. -/
def failPeek {α : Type} (p : Problem) : ReadM α := fun r =>
  let next := r.advance
  (.error ⟨p, next.line, next.column⟩, r)

/-- The next byte, which stays. -/
def peek : ReadM (Option UInt8) := fun r => (.ok r.rest.head?, r)

/-- Move past the next byte. -/
def skip : ReadM Unit := fun r => (.ok (), r.advance)

/-- Take the next byte. -/
def take : ReadM (Option UInt8) := fun r => (.ok r.rest.head?, r.advance)

/-- A byte of a character. -/
def code (c : Char) : UInt8 := c.toNat.toUInt8

/-- Whether a byte is that of a character. -/
def isByte (b : Option UInt8) (c : Char) : Bool := b == some (code c)

/-- Whether a byte is a decimal digit. -/
def isDigit (b : Option UInt8) : Bool :=
  match b with
  | some b => 48 ≤ b && b ≤ 57
  | none => false

/-- The value of the byte of a digit. -/
def digit (b : UInt8) : Nat := b.toNat - 48

/-- What a turn of a loop comes to. -/
inductive Turn (σ β : Type) where
  | again (state : σ)
  | done (result : β)

/-- Take turns, at most `bound` of them. -/
def turns {σ β : Type} (turn : σ → ReadM (Turn σ β)) : (bound : Nat) → σ → ReadM β
  | 0, _ => failHere .tooDeep
  | bound + 1, state => do
    match ← turn state with
    | .again state => turns turn bound state
    | .done result => pure result

/-- Take turns until one is the last. Every turn reads a byte or is the last, so that there are
no more turns than bytes and one. -/
def repeatTurns {σ β : Type} (state : σ) (turn : σ → ReadM (Turn σ β)) : ReadM β := do
  turns turn ((← get).rest.length + 2) state

/-- Move past blanks; the next byte is the result. -/
def skipBlanks : ReadM (Option UInt8) :=
  repeatTurns () fun _ => do
    match ← peek with
    | some b =>
      if b == 0x20 || b == 0x0A || b == 0x09 || b == 0x0D then
        skip
        pure (.again ())
      else pure (.done (some b))
    | none => pure (.done none)

/-! ## Words and numbers -/

/-- The rest of a word. -/
def word : List Char → ReadM Unit
  | [] => pure ()
  | c :: cs => do
    match ← take with
    | none => failHere .endInValue
    | some b => if b == code c then word cs else failHere .expectedIdent

/-- A number as its digits and a power of ten. -/
structure Scaled where
  negative : Bool
  significand : UInt64
  exponent : Int

/-- Divide by powers of ten until the power that is left is in the table of doubles. -/
def shrink : (rounds : Nat) → Float → Int → Float × Int
  | 0, f, e => (f, e)
  | rounds + 1, f, e =>
    if e < -308 ∧ f != 0 then shrink rounds (f / 1e308) (e + 308) else (f, e)

/-- The number of digits and a power of ten. -/
def Scaled.toFloat (s : Scaled) : ReadM Float := do
  let signed (f : Float) : Float := if s.negative then -f else f
  let f := s.significand.toFloat
  if f == 0 then pure (signed f)
  else if 308 < s.exponent then failHere .outOfRange
  else
    let (f, e) := shrink 8 f s.exponent
    if f == 0 then pure (signed f)
    else if 0 ≤ e then
      let f := f * Float.ofScientific 1 false e.toNat
      if f.isInf then failHere .outOfRange else pure (signed f)
    else pure (signed (f / Float.ofScientific 1 false (-e).toNat))

/-- Move past digits. -/
def skipDigits : ReadM Unit :=
  repeatTurns () fun _ => do
    if isDigit (← peek) then
      skip
      pure (.again ())
    else pure (.done ())

/-- Whether a number and one more digit still fit in 64 bits. -/
def fits (n d : Nat) : Bool := n * 10 + d < 0x10000000000000000

/-- The digits of an exponent; `none` when they are too many. -/
def exponentDigits (first : Nat) : ReadM (Option Nat) :=
  repeatTurns first fun n => do
    match ← peek with
    | some b =>
      if !isDigit (some b) then pure (.done (some n))
      else
        skip
        let n := n * 10 + digit b
        if n < 0x80000000 then pure (.again n) else pure (.done none)
    | none => pure (.done (some n))

/-- A number with an exponent, from the letter on. -/
def exponentPart (s : Scaled) : ReadM Float := do
  skip
  let sign ← peek
  if isByte sign '+' || isByte sign '-' then skip
  let positive := !isByte sign '-'
  match ← take with
  | none => failHere .endInValue
  | some b =>
    if !isDigit (some b) then failHere .invalidNumber
    match ← exponentDigits (digit b) with
    | some n =>
      Scaled.toFloat { s with exponent := if positive then s.exponent + n else s.exponent - n }
    | none =>
      if s.significand != 0 && positive then failHere .outOfRange
      skipDigits
      pure (if s.negative then -0.0 else 0.0)

/-- What follows the digits of a number. -/
def afterDigits (s : Scaled) : ReadM Float := do
  let b ← peek
  if isByte b 'e' || isByte b 'E' then exponentPart s else s.toFloat

/-- The digits after a point; those that do not fit any more are passed over. -/
def fractionPart (s : Scaled) : ReadM Float := do
  skip
  let (s', count) ← repeatTurns (s, 0) fun (s, count) => do
    match ← peek with
    | some b =>
      let n := s.significand.toNat
      if !isDigit (some b) then pure (.done (s, count))
      else if !fits n (digit b) then
        skipDigits
        pure (.done (s, count + 1))
      else
        skip
        pure (.again
          ({ s with significand := (n * 10 + digit b).toUInt64, exponent := s.exponent - 1 },
            count + 1))
    | none => pure (.done (s, count))
  if count = 0 then
    failPeek (if (← peek).isSome then .invalidNumber else .endInValue)
  else afterDigits s'

/-- The rest of a number whose digits fill 64 bits. -/
def longNumber (s : Scaled) : ReadM Float := do
  let s ← repeatTurns s fun s => do
    if isDigit (← peek) then
      skip
      pure (.again { s with exponent := s.exponent + 1 })
    else pure (.done s)
  if isByte (← peek) '.' then fractionPart s else afterDigits s

/-- A number whose whole digits are read. -/
def numberFrom (negative : Bool) (n : Nat) : ReadM JsonValue := do
  let s : Scaled := ⟨negative, n.toUInt64, 0⟩
  let b ← peek
  if isByte b '.' then pure (.fraction (← fractionPart s))
  else if isByte b 'e' || isByte b 'E' then pure (.fraction (← exponentPart s))
  else if !negative then pure (.whole n)
  else if n = 0 ∨ 0x8000000000000000 < n then pure (.fraction (-n.toUInt64.toFloat))
  else pure (.whole (-n))

/-- A number after its sign. -/
def number (negative : Bool) : ReadM JsonValue := do
  match ← take with
  | none => failHere .endInValue
  | some b =>
    if b == code '0' then
      if isDigit (← peek) then failPeek .invalidNumber else numberFrom negative 0
    else if !isDigit (some b) then failHere .invalidNumber
    else
      let (n, whole) ← repeatTurns (digit b) fun n => do
        match ← peek with
        | some b =>
          if !isDigit (some b) then pure (.done (n, true))
          else if !fits n (digit b) then pure (.done (n, false))
          else
            skip
            pure (.again (n * 10 + digit b))
        | none => pure (.done (n, true))
      if whole then numberFrom negative n
      else pure (.fraction (← longNumber ⟨negative, n.toUInt64, 0⟩))

/-! ## Strings -/

/-- The value of the byte of a hexadecimal digit. -/
def hexDigit? (b : UInt8) : Option Nat :=
  if 48 ≤ b && b ≤ 57 then some (b.toNat - 48)
  else if 97 ≤ b && b ≤ 102 then some (b.toNat - 87)
  else if 65 ≤ b && b ≤ 70 then some (b.toNat - 55)
  else none

/-- Four hexadecimal digits. -/
def hexEscape : ReadM Nat := do
  match (← get).rest with
  | a :: b :: c :: d :: _ =>
    skip; skip; skip; skip
    match hexDigit? a, hexDigit? b, hexDigit? c, hexDigit? d with
    | some a, some b, some c, some d => pure (((a * 16 + b) * 16 + c) * 16 + d)
    | _, _, _, _ => failHere .invalidEscape
  | short =>
    short.forM fun _ => skip
    failHere .endInString

/-- Require the next byte of a second escape. -/
def expectByte (c : Char) : ReadM Unit := do
  match ← peek with
  | none => failHere .endInString
  | some b =>
    skip
    if b != code c then failHere .endOfHexEscape

/-- The bytes of a character given by its code; two codes may stand for one character. -/
def unicodeEscape : ReadM (List UInt8) := do
  let n ← hexEscape
  if 0xDC00 ≤ n ∧ n ≤ 0xDFFF then failHere .loneSurrogate
  else if n < 0xD800 ∨ 0xDBFF < n then
    pure (Text.bytes (String.singleton (Char.ofNat n)))
  else
    expectByte '\\'
    expectByte 'u'
    let low ← hexEscape
    if low < 0xDC00 ∨ 0xDFFF < low then failHere .loneSurrogate
    else
      let c := Char.ofNat (((n - 0xD800) * 1024 + (low - 0xDC00)) + 0x10000)
      pure (Text.bytes (String.singleton c))

/-- The bytes that an escape stands for. -/
def escaped : ReadM (List UInt8) := do
  match ← take with
  | none => failHere .endInString
  | some b =>
    match Char.ofNat b.toNat with
    | '"' | '\\' | '/' => pure [b]
    | 'b' => pure [0x08]
    | 'f' => pure [0x0C]
    | 'n' => pure [0x0A]
    | 'r' => pure [0x0D]
    | 't' => pure [0x09]
    | 'u' => unicodeEscape
    | _ => failHere .invalidEscape

/-- The rest of a string after its opening quote. -/
def stringRest : ReadM String := do
  let reversed ← repeatTurns ([] : List UInt8) fun done => do
    match ← take with
    | none => failHere .endInString
    | some b =>
      if b == code '"' then pure (.done done)
      else if b == code '\\' then
        let bytes ← escaped
        pure (.again (bytes.reverse ++ done))
      else if b < 0x20 then failHere .controlCharacter
      else pure (.again (b :: done))
  pure (Text.ofBytes reversed.reverse)

/-! ## Values -/

/-- Where a reader of a list or of an object goes on. -/
structure Progress (α : Type) where
  first : Bool := true
  parts : List α := []

/-- The end of a list or an object. -/
def closing (c : Char) (missing : Problem) : ReadM Unit := do
  match ← skipBlanks with
  | none => failPeek missing
  | some b =>
    if b == code c then skip
    else if b == code ',' then
      skip
      let next ← skipBlanks
      failPeek (if isByte next c then .trailingComma else .trailingCharacters)
    else failPeek .trailingCharacters

/-- Whether another item follows in a list. -/
def hasItem (first : Bool) : ReadM Bool := do
  match ← skipBlanks with
  | none => failPeek .endInList
  | some b =>
    if b == code ']' then pure false
    else if first then pure true
    else if b == code ',' then
      skip
      match ← skipBlanks with
      | none => failPeek .endInValue
      | some b => if b == code ']' then failPeek .trailingComma else pure true
    else failPeek .expectedListEnd

/-- Whether another member follows in an object. -/
def hasMember (first : Bool) : ReadM Bool := do
  match ← skipBlanks with
  | none => failPeek .endInObject
  | some b =>
    if b == code '\x7d' then pure false
    else if first then
      if b == code '"' then pure true else failPeek .keyMustBeString
    else if b == code ',' then
      skip
      match ← skipBlanks with
      | none => failPeek .endInValue
      | some b =>
        if b == code '"' then pure true
        else if b == code '\x7d' then failPeek .trailingComma
        else failPeek .keyMustBeString
    else failPeek .expectedObjectEnd

/-- The name of a member; its quote is next. -/
def memberName : ReadM String := do
  skip
  stringRest

/-- The colon after a name. -/
def colon : ReadM Unit := do
  match ← skipBlanks with
  | none => failPeek .endInObject
  | some b => if b == code ':' then skip else failPeek .expectedColon

/-- Items up to the end of a list, whose bracket was read. -/
def items {α : Type} (item : ReadM α) : ReadM (List α) := do
  let found ← repeatTurns ({} : Progress α) fun p => do
    if ← hasItem p.first then
      let v ← item
      pure (.again ⟨false, v :: p.parts⟩)
    else pure (.done p.parts)
  closing ']' .endInList
  pure found.reverse

/-- Members up to the end of an object, whose bracket was read. -/
def members {α : Type} (value : String → ReadM α) : ReadM (List (String × α)) := do
  let found ← repeatTurns ({} : Progress (String × α)) fun p => do
    if ← hasMember p.first then
      let name ← memberName
      colon
      let v ← value name
      pure (.again ⟨false, (name, v) :: p.parts⟩)
    else pure (.done p.parts)
  closing '\x7d' .endInObject
  pure found.reverse

/-- A value that starts with a byte and has no parts. -/
def leaf (b : UInt8) : ReadM JsonValue := do
  match Char.ofNat b.toNat with
  | 'n' =>
    skip
    word ['u', 'l', 'l']
    pure .null
  | 't' =>
    skip
    word ['r', 'u', 'e']
    pure (.bool true)
  | 'f' =>
    skip
    word ['a', 'l', 's', 'e']
    pure (.bool false)
  | '-' =>
    skip
    number true
  | '"' =>
    skip
    pure (.string (← stringRest))
  | _ => if isDigit (some b) then number false else failPeek .expectedValue

/-- How deep lists and objects nest. -/
def depthLimit : Nat := 127

/-- A value whose parts are read by `part`; without it a list or an object is too deep. -/
def valueWith (part : Option (ReadM JsonValue)) : ReadM JsonValue := do
  match ← skipBlanks, part with
  | none, _ => failPeek .endInValue
  | some b, none =>
    if b == code '[' || b == code '\x7b' then failPeek .tooDeep else leaf b
  | some b, some part =>
    if b == code '[' then
      skip
      pure (.array (← items part))
    else if b == code '\x7b' then
      skip
      pure (.ofMembers (← members fun _ => part))
    else leaf b

/-- A value nested at most so deep. -/
def valueTo : (depth : Nat) → ReadM JsonValue
  | 0 => valueWith none
  | depth + 1 => valueWith (some (valueTo depth))

/-- The whole of a text, blanks around it passed over. -/
def whole {α : Type} (value : ReadM α) : ReadM α := do
  let v ← value
  match ← skipBlanks with
  | none => pure v
  | some _ => failPeek .trailingCharacters

/-- Read a text to its end. -/
def run {α : Type} (value : ReadM α) (text : String) : Except Fault α :=
  match (whole value).run.run { rest := Text.bytes text } with
  | (.ok v, _) => .ok v
  | (.error l, _) => .error l.fault

/-- Read a value from a text. -/
def read (text : String) : Except Fault JsonValue := run (valueTo depthLimit) text

theorem advance_rest (r : Reader) : r.advance.rest = r.rest.tail := by
  unfold Reader.advance
  cases h : r.rest with
  | nil => simp [h]
  | cons b rest => by_cases hb : b = 0x0A <;> simp [hb]

end StackScript.JsonReader
