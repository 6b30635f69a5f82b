import StackScript.Decimal.Shortest
import StackScript.Text.Layout

/-!
# Problems of patterns

What can be wrong with the text of a pattern, where it is wrong, and the report that shows the
pattern with marks below that place. A pattern of several lines is shown with their numbers between
rules.

Main statements: `marks_length` (as many marks as characters are wrong, but at least one).
-/
namespace StackScript.PatternReader

/-- A place in a pattern. Lines and columns count from one. -/
structure Place where
  line : Nat := 1
  column : Nat := 1
deriving Repr, DecidableEq, Inhabited

/-- The place behind a character. -/
def Place.behind (p : Place) (c : Char) : Place :=
  if c = '\n' then ⟨p.line + 1, 1⟩ else ⟨p.line, p.column + 1⟩

/-- Whether a place stands before another one. -/
def Place.precedes (p q : Place) : Bool :=
  p.line < q.line || (p.line == q.line && p.column < q.column)

/-- A part of a pattern, from a place up to another one. -/
structure Span where
  first : Place
  after : Place
deriving Repr, DecidableEq, Inhabited

/-- What is wrong with a pattern. -/
inductive ProblemKind where
  | classEscapeInvalid
  | classRangeInvalid
  | classRangeLiteral
  | classUnclosed
  | decimalInvalid
  | escapeHexEmpty
  | escapeHexInvalid
  | escapeHexInvalidDigit
  | escapeUnexpectedEnd
  | escapeUnrecognized
  | flagDanglingNegation
  | flagDuplicate
  | flagRepeatedNegation
  | flagUnexpectedEnd
  | flagUnrecognized
  | groupNameDuplicate
  | groupNameEmpty
  | groupNameInvalid
  | groupNameUnexpectedEnd
  | groupUnclosed
  | groupUnopened
  | tooDeep
  | repetitionCountInvalid
  | repetitionCountEmpty
  | repetitionCountUnclosed
  | repetitionMissing
  | boundaryUnclosed
  | boundaryUnrecognized
  | boundaryUnexpectedEnd
  | propertyInvalid
  | backreference
  | lookAround
  | unicodeNotAllowed
  | invalidUtf8
  | propertyUnknown
  | propertyValueUnknown
deriving Repr, DecidableEq

/-- The text of a problem. -/
def ProblemKind.text : ProblemKind → String
  | classEscapeInvalid => "invalid escape sequence found in character class"
  | classRangeInvalid => "invalid character class range, the start must be <= the end"
  | classRangeLiteral => "invalid range boundary, must be a literal"
  | classUnclosed => "unclosed character class"
  | decimalInvalid => "decimal literal invalid"
  | escapeHexEmpty => "hexadecimal literal empty"
  | escapeHexInvalid => "hexadecimal literal is not a Unicode scalar value"
  | escapeHexInvalidDigit => "invalid hexadecimal digit"
  | escapeUnexpectedEnd => "incomplete escape sequence, reached end of pattern prematurely"
  | escapeUnrecognized => "unrecognized escape sequence"
  | flagDanglingNegation => "dangling flag negation operator"
  | flagDuplicate => "duplicate flag"
  | flagRepeatedNegation => "flag negation operator repeated"
  | flagUnexpectedEnd => "expected flag but got end of regex"
  | flagUnrecognized => "unrecognized flag"
  | groupNameDuplicate => "duplicate capture group name"
  | groupNameEmpty => "empty capture group name"
  | groupNameInvalid => "invalid capture group character"
  | groupNameUnexpectedEnd => "unclosed capture group name"
  | groupUnclosed => "unclosed group"
  | groupUnopened => "unopened group"
  | tooDeep => "exceed the maximum number of nested parentheses/brackets (250)"
  | repetitionCountInvalid =>
    "invalid repetition count range, the start must be <= the end"
  | repetitionCountEmpty => "repetition quantifier expects a valid decimal"
  | repetitionCountUnclosed => "unclosed counted repetition"
  | repetitionMissing => "repetition operator missing expression"
  | boundaryUnclosed =>
    "special word boundary assertion is either unclosed or contains an invalid character"
  | boundaryUnrecognized =>
    "unrecognized special word boundary assertion, valid choices are: start, end, start-half " ++
      "or end-half"
  | boundaryUnexpectedEnd =>
    "found either the beginning of a special word boundary or a bounded repetition on a \\b " ++
      "with an opening brace, but no closing brace"
  | propertyInvalid => "invalid Unicode character class"
  | backreference => "backreferences are not supported"
  | lookAround => "look-around, including look-ahead and look-behind, is not supported"
  | unicodeNotAllowed => "Unicode not allowed here"
  | invalidUtf8 => "pattern can match invalid UTF-8"
  | propertyUnknown => "Unicode property not found"
  | propertyValueUnknown => "Unicode property value not found"

/-- A problem and where it is. A second place is the earlier one of two things that exclude each
other. -/
structure Problem where
  kind : ProblemKind
  span : Span
  earlier : Option Span := none
deriving Repr, DecidableEq

namespace Problem

/-- The problem's spans in order. -/
def spans (p : Problem) : List Span :=
  match p.earlier with
  | none => [p.span]
  | some e => if p.span.first.precedes e.first then [p.span, e] else [e, p.span]

/-- How many marks stand below a part of a line. -/
def markCount (s : Span) : Nat := max 1 (s.after.column - s.first.column)

/-- Marks below parts of a line, of which some columns are behind already. -/
def marks : (column : Nat) → List Span → List Char
  | _, [] => []
  | column, s :: rest =>
    let gap := s.first.column - 1 - column
    List.replicate gap ' ' ++ List.replicate (markCount s) '^' ++
      marks (column + gap + markCount s) rest

/-- How wide the numbers of lines are. A single line has none. -/
def numberWidth (lineCount : Nat) : Nat :=
  if lineCount ≤ 1 then 0 else (Decimal.ofNat lineCount).length

/-- A line of the pattern as it is shown, with marks below it if it has any. -/
def shownLine (width : Nat) (parts : List Span) (number : Nat) (line : String) : String :=
  let label :=
    if width = 0 then "    " else Text.padLeft ' ' width (Decimal.ofNat number) ++ ": "
  let below := parts.filter fun s => s.first.line == number
  label ++ line ++ "\n" ++
    if below.isEmpty then ""
    else
      String.ofList (List.replicate label.length ' ' ++ marks 0 below) ++ "\n"

/-- The pattern with marks. -/
def shown (p : Problem) (pattern : String) : String :=
  let lines := Text.lines pattern
  let count := lines.length + if pattern.endsWith "\n" then 1 else 0
  let parts := p.spans.filter fun s => s.first.line == s.after.line
  String.join (lines.mapIdx fun i line => shownLine (numberWidth count) parts (i + 1) line)

/-- Where a part of several lines is. -/
def rangeText (s : Span) : String :=
  "on line " ++ Decimal.ofNat s.first.line ++ " (column " ++ Decimal.ofNat s.first.column ++
    ") through line " ++ Decimal.ofNat s.after.line ++ " (column " ++
    Decimal.ofNat (s.after.column - 1) ++ ")\n"

/-- The rule above and below a pattern of several lines. -/
def rule : String := String.ofList (List.replicate 79 '~') ++ "\n"

/-- The report on a pattern. -/
def report (p : Problem) (pattern : String) : String :=
  let shown := p.shown pattern
  let ranges := p.spans.filter fun s => s.first.line != s.after.line
  "regex parse error:\n" ++
    (if pattern.contains '\n' then rule ++ shown ++ rule ++ String.join (ranges.map rangeText)
    else shown) ++
    "error: " ++ p.kind.text

theorem marks_length (column : Nat) (s : Span) :
    (marks column [s]).count '^' = max 1 (s.after.column - s.first.column) := by
  simp [marks, markCount, List.count_replicate]

end Problem

end StackScript.PatternReader
