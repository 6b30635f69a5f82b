import StackScript.Token.Scan
import StackScript.Text.Layout

/-!
# Cursors

A place in a sequence of tokens. Reading past the end gives an end token that stands on the last
line, so a cursor never fails.

Main statements: `pos_le_reset` and `pos_le_advance` (a cursor stays within its tokens).
-/
namespace StackScript.Token

/-- A sequence of tokens, the lines they were scanned from, and a place among them. -/
structure Cursor where
  tokens : Array Token := #[]
  lines : Array String := #[]
  pos : Nat := 0
  /-- The token after the last one, on its line. -/
  last : Token := { sentinel with line := 1 }
deriving DecidableEq

namespace Cursor

/-- A cursor at the first token of a scanned text. -/
def ofTokens (tokens : List Token) (source : String) : Cursor :=
  { tokens := tokens.toArray
    lines := (Text.lines source).toArray
    last := { sentinel with line := (tokens.getLast?.map Token.line).getD 1 } }

/-- Scan a text and stand at its first token. -/
def ofSource (source : String) : Except Fault Cursor :=
  (scanAll source).map fun tokens => ofTokens tokens source

/-- The token `n` places ahead, counted from one. -/
def peek (c : Cursor) (n : Nat) : Token := c.tokens.getD (c.pos + (n - 1)) c.last

/-- The token that is read next. -/
def current (c : Cursor) : Token := c.peek 1

/-- The token read last. -/
def previous (c : Cursor) : Token :=
  if c.pos = 0 then c.last else c.tokens.getD (c.pos - 1) c.last

/-- Whether all tokens were read. -/
def atEnd (c : Cursor) : Bool := c.tokens.size ≤ c.pos

/-- Move past the current token. -/
def skip (c : Cursor) : Cursor :=
  if c.pos < c.tokens.size then { c with pos := c.pos + 1 } else c

/-- Move by a number of tokens, not beyond either end. -/
def advance (c : Cursor) (n : Int) : Cursor :=
  { c with pos := min ((c.pos : Int) + n).toNat c.tokens.size }

/-- Move to a place, not beyond the end. -/
def reset (c : Cursor) (mark : Nat) : Cursor := { c with pos := min mark c.tokens.size }

/-- Whether the next token is this punctuation or reserved word. -/
def isNext (c : Cursor) (text : String) : Bool := c.current.is text

/-- Whether the next token is one of these. -/
def isAnyNext (c : Cursor) (texts : List String) : Bool := texts.any c.isNext

/-- A line of the source, counted from one. -/
def line? (c : Cursor) (n : Nat) : Option String :=
  if n = 0 then none else c.lines[n - 1]?

/-- The tokens from one place up to another. -/
def slice (c : Cursor) (start stop : Nat) : List Token :=
  let stop := min stop c.tokens.size
  (c.tokens.extract (min start stop) stop).toList

theorem pos_le_reset (c : Cursor) (mark : Nat) : (c.reset mark).pos ≤ c.tokens.size :=
  Nat.min_le_right ..

theorem pos_le_advance (c : Cursor) (n : Int) : (c.advance n).pos ≤ c.tokens.size :=
  Nat.min_le_right ..

end Cursor

end StackScript.Token
