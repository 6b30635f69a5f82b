import StackScript.Token
import StackScript.Text.Property
import StackScript.Decimal.Read

/-!
# Scanning

A source text is cut into lexemes with gaps of blanks and comments between them. A lexeme knows
how many characters it takes, so positions follow from the text alone and the scan ends because
every lexeme takes at least one.

Main definitions: `gapLength`, `recognize` and `scanFrom`, which alternates them.
-/
namespace StackScript.Token

/-! ## Positions -/

/-- A place in the source, line and column counted from one. -/
structure Position where
  line : Nat := 1
  column : Nat := 1
deriving Repr, DecidableEq

/-- The place after one character. -/
def Position.after (p : Position) (c : Char) : Position :=
  if c = '\n' then ⟨p.line + 1, 1⟩ else ⟨p.line, p.column + 1⟩

/-- The place after the first `count` characters of a text. -/
def Position.advance (p : Position) : (count : Nat) → List Char → Position
  | 0, _ | _, [] => p
  | count + 1, c :: rest => (p.after c).advance count rest

/-! ## Gaps -/

/-- Characters up to the end of the line. -/
def commentLength : List Char → Nat
  | [] => 0
  | c :: rest => if c = '\n' then 0 else commentLength rest + 1

/-- Whether a character separates tokens. -/
def isGap (c : Char) : Bool := c == ' ' || c == '\t' || c == '\r' || c == '\n'

/-- How many characters of blanks and comments start the text. -/
def gapLength (text : List Char) : Nat :=
  match text with
  | [] => 0
  | '/' :: '/' :: rest =>
    let comment := commentLength rest
    comment + 2 + gapLength (rest.drop comment)
  | c :: rest => if isGap c then gapLength rest + 1 else 0
termination_by text.length
decreasing_by all_goals (simp only [List.length_drop, List.length_cons]; omega)

/-! ## Lexemes -/

/-- A recognised word: how many characters it takes, what it spells, and its class. -/
structure Lexeme where
  length : Nat
  spelling : String
  tag : TokenClass
deriving Repr, DecidableEq

/-- The decoded text of a quoted string and the characters it takes, its closing quote
included; `text` starts after the opening quote. -/
structure Decoded where
  length : Nat
  value : List Char

/-- The value of hexadecimal digits. -/
def hexValue (ds : List Char) : Nat :=
  ds.foldl (fun n d => n * 16 + (Decimal.digitValue d).getD 0) 0

/-- The escapes of one letter. -/
def simpleEscape : Char → Option Char
  | 'n' => some '\n'
  | 't' => some '\t'
  | 'r' => some '\r'
  | '0' => some '\x00'
  | '\\' => some '\\'
  | '"' => some '"'
  | '\'' => some '\''
  | _ => none

/-- Whether a number is the code of a character. -/
def isScalar (n : Nat) : Bool := n < 0xD800 || (0xDFFF < n && n < 0x110000)

/-- Decode the escape after a backslash: the character and how much of the text it takes. -/
def scanEscape (text : List Char) : Except Fault (Char × Nat) :=
  match text with
  | [] => .error (.of .unterminatedString)
  | 'x' :: a :: b :: _ =>
    if Text.isHexDigit a && Text.isHexDigit b then .ok (Char.ofNat (hexValue [a, b]), 3)
    else .error (.about .invalidEscape "\\x")
  | 'x' :: _ => .error (.about .invalidEscape "\\x")
  | 'u' :: '\x7b' :: rest =>
    let ds := rest.takeWhile Text.isHexDigit
    if rest[ds.length]? = some '\x7d' ∧ 0 < ds.length ∧ ds.length ≤ 6 ∧ isScalar (hexValue ds) then
      .ok (Char.ofNat (hexValue ds), ds.length + 3)
    else .error (.about .invalidEscape "\\u")
  | 'u' :: _ => .error (.about .invalidEscape "\\u")
  | c :: _ =>
    match simpleEscape c with
    | some d => .ok (d, 1)
    | none => .error (.about .invalidEscape (String.ofList ['\\', c]))

/-- A quoted string up to its closing quote, which has to stand on the same line. -/
def scanString (text : List Char) : Except Fault Decoded :=
  match text with
  | [] => .error (.of .unterminatedString)
  | '\n' :: _ => .error (.of .unterminatedString)
  | '"' :: _ => .ok ⟨1, []⟩
  | '\\' :: rest =>
    match scanEscape rest with
    | .error f => .error f
    | .ok (c, n) =>
      match scanString (rest.drop n) with
      | .error f => .error f
      | .ok d => .ok ⟨d.length + n + 1, c :: d.value⟩
  | c :: rest =>
    match scanString rest with
    | .error f => .error f
    | .ok d => .ok ⟨d.length + 1, c :: d.value⟩
termination_by text.length
decreasing_by all_goals (simp only [List.length_drop, List.length_cons]; omega)

/-- A raw string up to its closing backquote: no escapes, and it may span lines. -/
def scanRaw : List Char → Option Decoded
  | [] => none
  | '\x60' :: _ => some ⟨1, []⟩
  | c :: rest => (scanRaw rest).map fun d => ⟨d.length + 1, c :: d.value⟩

/-- Whether an exponent follows its mark: digits, with or without a sign. -/
def exponentFollows : List Char → Bool
  | d :: rest =>
    if d = '+' ∨ d = '-' then (rest.head?.map Text.isDigit).getD false else Text.isDigit d
  | [] => false

/-- The exponent after its mark. -/
def scanExponent (text : List Char) : List Char :=
  match text with
  | sign :: rest =>
    if sign = '+' ∨ sign = '-' then sign :: rest.takeWhile Text.isDigit
    else text.takeWhile Text.isDigit
  | [] => []

/-- What a decimal number reads as. `kept` leaves out the separators. -/
structure Numeral where
  length : Nat
  kept : List Char
  isFloat : Bool

/-- Put a character in front of a numeral. -/
def Numeral.cons (c : Char) (n : Numeral) : Numeral := ⟨n.length + 1, c :: n.kept, n.isFloat⟩

/-- A decimal number: digits and separators, at most one point that a digit follows, and at
most one exponent, which ends it. -/
def scanDecimal (pointSeen : Bool) : List Char → Numeral
  | [] => ⟨0, [], pointSeen⟩
  | c :: rest =>
    if Text.isDigit c then (scanDecimal pointSeen rest).cons c
    else if c = '_' then
      let n := scanDecimal pointSeen rest
      { n with length := n.length + 1 }
    else if c = '.' ∧ pointSeen = false ∧ (rest.head?.map Text.isDigit).getD false then
      (scanDecimal true rest).cons c
    else if (c = 'e' ∨ c = 'E') ∧ exponentFollows rest then
      let e := scanExponent rest
      ⟨e.length + 1, c :: e, true⟩
    else ⟨0, [], pointSeen⟩

/-- The radix that the letter after a leading zero announces. -/
def radixOf : Char → Option Nat
  | 'x' | 'X' => some 16
  | 'o' | 'O' => some 8
  | 'b' | 'B' => some 2
  | _ => none

/-- A number with a radix mark; it spells its value in decimal. -/
def scanRadix (radix : Nat) (mark : Char) (rest : List Char) : Except Fault Lexeme :=
  let taken := rest.takeWhile fun c => c == '_' || Text.isAsciiAlphanumeric c
  let ds := taken.filter (· != '_')
  match Decimal.readInteger radix Decimal.leastInt64 Decimal.greatestInt64 ds with
  | .ok n => .ok ⟨taken.length + 2, Decimal.ofInt n, .integer⟩
  | .error _ => .error (.about .invalidNumber (String.ofList ('0' :: mark :: ds)))

/-- A number in decimal, whole or floating. -/
def scanNumeral (text : List Char) : Except Fault Lexeme :=
  let n := scanDecimal false text
  let spelling := String.ofList n.kept
  if n.isFloat then .ok ⟨n.length, spelling, .float⟩
  else if (Decimal.readInt64 spelling).isSome then .ok ⟨n.length, spelling, .integer⟩
  else .error (.about .invalidNumber spelling)

/-- A number. -/
def scanNumber (text : List Char) : Except Fault Lexeme :=
  match text with
  | '0' :: mark :: rest =>
    match radixOf mark with
    | some radix => scanRadix radix mark rest
    | none => scanNumeral text
  | _ => scanNumeral text

/-- Whether a character may start a name. -/
def startsWord (c : Char) : Bool := Text.isAlphabetic c || c == '_' || c == '$'

/-- Whether a character may stand inside a name. -/
def isWordPart (c : Char) : Bool := Text.isAlphanumeric c || c == '_' || c == '$'

/-- The class of a word. -/
def wordClass (word : String) : TokenClass :=
  if word = "true" ∨ word = "false" then .boolean
  else if reservedWords.contains word then .reserved
  else .identifier

/-- A name, a boolean or a reserved word. -/
def scanWord (text : List Char) : Lexeme :=
  let taken := text.takeWhile isWordPart
  let word := String.ofList taken
  ⟨taken.length, word, wordClass word⟩

/-- The longest punctuation that starts the text. -/
def scanPunctuation (text : List Char) : Except Fault Lexeme :=
  match compounds.find? fun p => p.toList.isPrefixOf text with
  | some p => .ok ⟨p.length, p, .punctuation⟩
  | none =>
    match text with
    | c :: _ =>
      if marks.contains c then .ok ⟨1, c.toString, .punctuation⟩
      else .error (.about .unexpectedCharacter c.toString)
    | [] => .error (.of .unexpectedCharacter)

/-- The lexeme at the start of a text that starts with no gap. -/
def recognize (text : List Char) : Except Fault Lexeme :=
  match text with
  | [] => .error (.of .unexpectedEnd)
  | '"' :: rest => (scanString rest).map fun d => ⟨d.length + 1, String.ofList d.value, .string⟩
  | '\x60' :: rest =>
    match scanRaw rest with
    | some d => .ok ⟨d.length + 1, String.ofList d.value, .string⟩
    | none => .error (.of .unterminatedString)
  | c :: rest =>
    if Text.isDigit c then scanNumber text
    else if c = '.' ∧ (rest.head?.map Text.isDigit).getD false then scanNumber text
    else if startsWord c then .ok (scanWord text)
    else scanPunctuation text

/-! ## The whole text -/

/-- The result of a scan: the tokens before the end or the first fault, and the fault. -/
structure Scan where
  tokens : List Token
  fault : Option Fault

/-- What is left behind a gap and a lexeme is shorter than the text. -/
theorem length_behind_lt {text : List Char} {gap taken : Nat} (h : ¬text.length ≤ gap)
    (some : 1 ≤ taken) : ((text.drop gap).drop taken).length < text.length := by
  rw [List.length_drop, List.length_drop]
  omega

/-- Scan on from a place in the text. A lexeme takes at least one character. -/
def scanFrom (position : Position) (text : List Char) : Scan :=
  let gap := gapLength text
  if _ : text.length ≤ gap then ⟨[], none⟩
  else
    let start := position.advance gap text
    let rest := text.drop gap
    match recognize rest with
    | .error f => ⟨[], some (f.positioned start.line start.column)⟩
    | .ok lexeme =>
      let taken := max lexeme.length 1
      let scan := scanFrom (start.advance taken rest) (rest.drop taken)
      { scan with tokens := ⟨lexeme.spelling, lexeme.tag, start.line, start.column⟩ :: scan.tokens }
termination_by text.length
decreasing_by exact length_behind_lt ‹_› (Nat.le_max_right _ 1)

/-- Scan a source text: its tokens and the fault that ended the scan early, if any. -/
def scan (source : String) : Scan := scanFrom {} source.toList

/-- No memory holds a source of so many characters. -/
def sourceLimit : Nat := 0x1000000000000000

/-- The tokens of a source text. -/
def scanAll (source : String) : Except Fault (List Token) :=
  if sourceLimit ≤ source.length then .error (.of .limitReached)
  else
    let s := scan source
    match s.fault with
    | some f => .error f
    | none => .ok s.tokens

end StackScript.Token
