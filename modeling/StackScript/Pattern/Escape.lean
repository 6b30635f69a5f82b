import StackScript.Pattern.Members
import StackScript.Text.Layout

/-!
# Escapes in patterns

What follows a backslash: characters by their numbers or by letters, classes, assertions, and
characters that would mean something else without it.
-/
namespace StackScript.PatternReader

/-- The characters that mean something in a pattern. -/
def isMeta (c : Char) : Bool := "\\.+*?()|[]\x7b\x7d^$#&-~".toList.contains c

/-- The characters that may be escaped although they mean nothing. -/
def isEscapable (c : Char) : Bool :=
  c.toNat < 128 && !(isAsciiLetter c || c.isDigit || c == '<' || c == '>')

/-- The character of a number, unless there is none. -/
def scalar? (n : Nat) : Option Char := if n.isValidChar then some (Char.ofNat n) else none

/-- The value of hexadecimal digits. -/
def hexValue (ds : List Char) : Nat :=
  ds.foldl (fun n d => n * 16 + (if d.isDigit then d.toNat - 48 else d.toLower.toNat - 87)) 0

/-- The character that hexadecimal digits stand for. -/
def hexCharacter (ds : List Char) (span : Span) : ReadM Char :=
  match scalar? (hexValue ds) with
  | some c => pure c
  | none => fail .escapeHexInvalid span

/-- A hexadecimal digit that is next. -/
def hexDigit : ReadM Char := do
  match (← peek).filter Text.isHexDigit with
  | some c => pure c
  | none => fail .escapeHexInvalidDigit (← spanNext)

/-- So many hexadecimal digits after the first one. -/
def hexDigitsAfter : (count : Nat) → ReadM (List Char)
  | 0 => pure []
  | count + 1 => do
    if !(← skipOn) then fail .escapeUnexpectedEnd (← spanHere)
    let d ← hexDigit
    pure (d :: (← hexDigitsAfter count))

/-- A number of so many digits. -/
def hexFixed (count : Nat) : ReadM Char := do
  let first ← here
  let d ← hexDigit
  let ds ← hexDigitsAfter (count - 1)
  let _ ← skipOn
  hexCharacter (d :: ds) (← spanFrom first)

/-- A number between braces. -/
def hexBraced : ReadM Char := do
  let brace ← here
  let first := (← spanNext).after
  let ds ← repeatTurns [] fun ds => do
    let more ← skipOn
    if !more || (← isNext '\x7d') then pure (.done ds.reverse)
    else
      let d ← hexDigit
      pure (.again (d :: ds))
  if ← atEnd then fail .escapeUnexpectedEnd (← spanFrom brace)
  let digits ← spanFrom first
  let _ ← skipOn
  if ds.isEmpty then fail .escapeHexEmpty (← spanFrom brace)
  hexCharacter ds digits

/-- A character by its number. -/
def hexEscape (count : Nat) : ReadM AtomKind := do
  if !(← skipOn) then fail .escapeUnexpectedEnd (← spanHere)
  if ← isNext '\x7b' then pure (.literal (← hexBraced) false)
  else pure (.literal (← hexFixed count) (count == 2))

/-- A property with its value, or its name alone; whether the value is excluded. -/
def propertyQuery (name : String) : Except Text.PropertyFault Members × Bool :=
  let cut (mark : String) : Option (String × String) :=
    (Text.find? name mark).map fun n =>
      ((name.take n).toString, (name.drop (n + mark.length)).toString)
  match cut "!=", (cut ":").or (cut "=") with
  | some (name, value), _ => (Text.valued? name value, true)
  | none, some (name, value) => (Text.valued? name value, false)
  | none, none => (Text.named? name, false)

/-- A property of one letter or of a name between braces. -/
def propertyEscape (negate : Bool) : ReadM AtomKind := do
  if !(← skipOn) then fail .escapeUnexpectedEnd (← spanHere)
  if ← isNext '\x7b' then
    let cs ← repeatTurns [] fun cs => do
      let more ← skipOn
      match (← peek).filter fun c => more && c != '\x7d' with
      | some c => pure (.again (c :: cs))
      | none => pure (.done cs.reverse)
    if ← atEnd then fail .escapeUnexpectedEnd (← spanHere)
    let _ ← skip
    let (found, excluded) := propertyQuery (String.ofList cs)
    pure (.property found (negate != excluded))
  else
    let letter := (← peek).getD '\\'
    if letter = '\\' then fail .propertyInvalid (← spanNext)
    let _ ← skipOn
    pure (.property (Text.named? letter.toString) negate)

/-- The name of a word boundary. -/
def boundaryNamed? : String → Option Assertion
  | "start" => some .wordStart
  | "end" => some .wordEnd
  | "start-half" => some .wordStartHalf
  | "end-half" => some .wordEndHalf
  | _ => none

/-- Whether a character can be in the name of a word boundary. -/
def inBoundaryName (c : Char) : Bool := isAsciiLetter c || c == '-'

/-- A word boundary, which a name in braces can follow; other braces are a repetition. -/
def boundaryEscape (first : Place) : ReadM Assertion := do
  if !(← isNext '\x7b') then pure .boundary
  else
    let before ← get
    if !(← skipOn) then fail .boundaryUnexpectedEnd (← spanFrom first)
    if !(← peek).any inBoundaryName then
      set before
      pure .boundary
    else
      let name ← here
      let cs ← repeatTurns [] fun cs => do
        match (← peek).filter inBoundaryName with
        | some c =>
          let _ ← skipOn
          pure (.again (c :: cs))
        | none => pure (.done cs.reverse)
      if !(← isNext '\x7d') then fail .boundaryUnclosed (← spanFrom before.place)
      let inside ← spanFrom name
      let _ ← skip
      match boundaryNamed? (String.ofList cs) with
      | some a => pure a
      | none => fail .boundaryUnrecognized inside

/-- The meaning of a character after a backslash that says nothing about what follows it. -/
def shortEscape? (c : Char) : Option AtomKind :=
  if isMeta c || isEscapable c then some (.literal c false)
  else
    match c with
    | 'a' => some (.literal '\x07' false)
    | 'f' => some (.literal '\x0c' false)
    | 't' => some (.literal '\t' false)
    | 'n' => some (.literal '\n' false)
    | 'r' => some (.literal '\r' false)
    | 'v' => some (.literal '\x0b' false)
    | 'A' => some (.assertion .textStart)
    | 'z' => some (.assertion .textEnd)
    | 'B' => some (.assertion .noBoundary)
    | '<' => some (.assertion .wordStart)
    | '>' => some (.assertion .wordEnd)
    | 'd' => some (.letterClass .digit false)
    | 'D' => some (.letterClass .digit true)
    | 's' => some (.letterClass .blank false)
    | 'S' => some (.letterClass .blank true)
    | 'w' => some (.letterClass .word false)
    | 'W' => some (.letterClass .word true)
    | _ => none

/-- The meaning of what follows a backslash at a place. -/
def escapeKind (first : Place) (c : Char) : ReadM AtomKind := do
  if c.isDigit then fail .backreference ⟨first, (← spanNext).after⟩
  match c with
  | 'x' => hexEscape 2
  | 'u' => hexEscape 4
  | 'U' => hexEscape 8
  | 'p' => propertyEscape false
  | 'P' => propertyEscape true
  | 'b' =>
    let _ ← skip
    .assertion <$> boundaryEscape first
  | c =>
    let _ ← skip
    match shortEscape? c with
    | some kind => pure kind
    | none => fail .escapeUnrecognized (← spanFrom first)

/-- A backslash and what follows it. -/
def escape : ReadM Atom := do
  let first ← here
  if !(← skip) then fail .escapeUnexpectedEnd (← spanFrom first)
  let kind ← escapeKind first ((← peek).getD '\\')
  pure ⟨kind, ← spanFrom first⟩

/-- An atom outside of brackets. -/
def atom : ReadM Atom := do
  match ← peek with
  | some '\\' => escape
  | c =>
    let span ← spanNext
    let _ ← skip
    let kind : AtomKind := match c with
      | some '.' => .any
      | some '^' => .assertion .lineStart
      | some '$' => .assertion .lineEnd
      | c => .literal (c.getD ' ') false
    pure ⟨kind, span⟩

end StackScript.PatternReader
