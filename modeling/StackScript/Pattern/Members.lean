import StackScript.Pattern.Reader
import StackScript.Text.Case
import StackScript.Text.PropertyName

/-!
# Sets of characters in patterns

The classes that patterns can name, and what the flags make of a set: where case is ignored, a set
has every form of its characters, and without Unicode it stands for bytes, of which those beyond
ASCII would not be text.

Main statements: `subset_folded` (ignoring case never loses a character) and
`negated_negated`.
-/
namespace StackScript.PatternReader

/-- A set of characters. -/
abbrev Members := Char → Bool

namespace Members

/-- No characters. -/
def none : Members := fun _ => false

/-- The characters of either set. -/
def union (a b : Members) : Members := fun c => a c || b c

/-- The characters that are not in a set. -/
def negated (a : Members) : Members := fun c => !a c

/-- A set or all other characters. -/
def negatedIf (negate : Bool) (a : Members) : Members := if negate then a.negated else a

/-- The characters between two. -/
def range (first last : Char) : Members := fun c => first ≤ c && c ≤ last

/-- A set with every form of its characters, where case is ignored. -/
def folded (f : Flags) (a : Members) : Members :=
  if !f.ignoreCase then a
  else if f.unicode then fun c => (Text.forms c).any a
  else fun c => a c || a c.toLower || a c.toUpper

/-- Whether a set of bytes is within ASCII. -/
def isAscii (a : Members) : Bool := (List.range 128).all fun n => !a (Char.ofNat (n + 128))

theorem negated_negated (a : Members) : a.negated.negated = a := by
  funext c
  simp [negated]

theorem subset_folded (f : Flags) (a : Members) (c : Char) (h : a c = true) :
    a.folded f c = true := by
  unfold folded
  split
  · exact h
  · split
    · exact List.any_eq_true.2 ⟨c, Text.mem_forms_self c, h⟩
    · simp [h]

end Members

/-! ## Named classes -/

/-- A letter of ASCII. -/
def isAsciiLetter (c : Char) : Bool := c.isLower || c.isUpper

/-- A blank of ASCII. -/
def isAsciiBlank (c : Char) : Bool := c == ' ' || (9 ≤ c.toNat && c.toNat ≤ 13)

/-- A character of words in ASCII. -/
def isAsciiWord (c : Char) : Bool := isAsciiLetter c || c.isDigit || c == '_'

/-- A visible character of ASCII. -/
def isAsciiGraph (c : Char) : Bool := 33 ≤ c.toNat && c.toNat ≤ 126

/-- A class of ASCII characters by its name between colons. -/
def asciiNamed? : String → Option Members
  | "alnum" => some fun c => isAsciiLetter c || c.isDigit
  | "alpha" => some isAsciiLetter
  | "ascii" => some fun c => c.toNat < 128
  | "blank" => some fun c => c == '\t' || c == ' '
  | "cntrl" => some fun c => c.toNat < 32 || c.toNat == 127
  | "digit" => some Char.isDigit
  | "graph" => some isAsciiGraph
  | "lower" => some Char.isLower
  | "print" => some fun c => isAsciiGraph c || c == ' '
  | "punct" => some fun c => isAsciiGraph c && !(isAsciiLetter c || c.isDigit)
  | "space" => some isAsciiBlank
  | "upper" => some Char.isUpper
  | "word" => some isAsciiWord
  | "xdigit" => some Text.isHexDigit
  | _ => none

/-- A class that a letter after a backslash stands for. -/
inductive LetterClass where
  | digit
  | blank
  | word
deriving Repr, DecidableEq

/-- The members of the class. -/
def LetterClass.members (f : Flags) : LetterClass → Members
  | digit => if f.unicode then fun c => Text.category c == .nd else Char.isDigit
  | blank => if f.unicode then Text.isBlank else isAsciiBlank
  | word => if f.unicode then Text.isWordPart else isAsciiWord

/-! ## Assertions -/

/-- What is asked for at a place. -/
inductive Assertion where
  | lineStart
  | lineEnd
  | textStart
  | textEnd
  | boundary
  | noBoundary
  | wordStart
  | wordEnd
  | wordStartHalf
  | wordEndHalf
deriving Repr, DecidableEq

/-- Whether a line starts between two characters. -/
def startsLine (f : Flags) (before after : Option Char) : Bool :=
  before.isNone || before == some '\n' ||
    (f.crlf && before == some '\r' && after != some '\n')

/-- Whether a line ends between two characters. -/
def endsLine (f : Flags) (before after : Option Char) : Bool :=
  if f.crlf then
    after.isNone || after == some '\r' || (after == some '\n' && before != some '\r')
  else after.isNone || after == some '\n'

/-- Whether the assertion holds between two characters. -/
def Assertion.holds (f : Flags) (a : Assertion) (before after : Option Char) : Bool :=
  let word := LetterClass.word.members f
  let behind := before.any word
  let ahead := after.any word
  match a with
  | lineStart => if f.multiLine then startsLine f before after else before.isNone
  | lineEnd => if f.multiLine then endsLine f before after else after.isNone
  | textStart => before.isNone
  | textEnd => after.isNone
  | boundary => behind != ahead
  | noBoundary => behind == ahead
  | wordStart => !behind && ahead
  | wordEnd => behind && !ahead
  | wordStartHalf => !behind
  | wordEndHalf => !ahead

/-! ## Atoms -/

/-- The smallest parts of a pattern. -/
inductive AtomKind where
  /-- A character, and whether it was written as the number of a byte. -/
  | literal (c : Char) (byte : Bool)
  /-- A point. -/
  | any
  | assertion (a : Assertion)
  | letterClass (k : LetterClass) (negate : Bool)
  | property (found : Except Text.PropertyFault Members) (negate : Bool)

/-- A smallest part and where it stands. -/
structure Atom where
  kind : AtomKind
  span : Span

/-- A point: everything but the ends of lines, or everything. -/
def anyMembers (f : Flags) : Members := fun c =>
  f.dotAll || (c != '\n' && !(f.crlf && c == '\r'))

/-- The members of a class named by a letter. -/
def letterMembers (f : Flags) (span : Span) (k : LetterClass) (negate : Bool) :
    ReadM Members := do
  let m := (k.members f).negatedIf negate
  if !f.unicode && !m.isAscii then refuse .invalidUtf8 span
  pure m

/-- The members of a property. -/
def propertyMembers (f : Flags) (span : Span) (found : Except Text.PropertyFault Members)
    (negate : Bool) : ReadM Members := do
  if !f.unicode then refuse .unicodeNotAllowed span
  match found with
  | .ok m => pure ((m.folded f).negatedIf negate)
  | .error e =>
    refuse (match e with
      | .unknownName => .propertyUnknown
      | .unknownValue => .propertyValueUnknown) span
    pure .none

/-- The pattern of an atom. -/
def Atom.pattern (a : Atom) : ReadM Pattern := do
  let f := (← get).flags
  match a.kind with
  | .literal c byte =>
    if byte && !f.unicode && 127 < c.toNat then refuse .invalidUtf8 a.span
    pure (.one (Members.folded f (· == c)))
  | .any =>
    if !f.unicode then refuse .invalidUtf8 a.span
    pure (.one (anyMembers f))
  | .assertion l => pure (.look (l.holds f))
  | .letterClass k negate => .one <$> letterMembers f a.span k negate
  | .property found negate => .one <$> propertyMembers f a.span found negate

end StackScript.PatternReader
