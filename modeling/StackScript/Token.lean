import StackScript.Fault

/-!
# Tokens

The words of a source text: their classes, the reserved words and the punctuation.
-/
namespace StackScript

/-- What sort of word a token is. -/
inductive TokenClass where
  | identifier
  | integer
  | float
  | string
  | boolean
  | punctuation
  | reserved
  | endOfInput
deriving Repr, DecidableEq

/-- The name of a class of tokens. -/
def TokenClass.name : TokenClass → String
  | identifier => "identifier"
  | integer => "integer"
  | float => "float"
  | string => "string"
  | boolean => "boolean"
  | punctuation => "punctuation"
  | reserved => "reserved"
  | endOfInput => "end"

/-- A word of the source and the line and column of its first character, both counted from one.
The spelling of a string is the text it stands for. -/
structure Token where
  spelling : String
  tag : TokenClass
  line : Nat
  column : Nat
deriving Repr, DecidableEq

namespace Token

/-- Words that name no symbol. -/
def reservedWords : List String :=
  ["array", "assert", "break", "call", "case", "catch", "chan", "const", "continue", "default",
   "else", "fallthrough", "for", "func", "go", "if", "import", "interface", "map", "nil",
   "package", "print", "range", "return", "struct", "switch", "try", "type", "var"]

/-- Punctuation of two and three characters, the longest first. -/
def compounds : List String :=
  ["...", ":=", "==", "!=", "<=", ">=", "->", "<-", "++", "--", "+=", "-=", "*=", "/=", "&&",
   "||", "<<", ">>"]

/-- Punctuation of one character. -/
def marks : List Char := "+-*/%^&|!<>=()[]\x7b\x7d,;:.?@~".toList

/-- The token that stands after the last one. -/
def sentinel : Token := ⟨"", .endOfInput, 0, 0⟩

instance : Inhabited Token := ⟨sentinel⟩

/-- Whether this is the end of the input. -/
def isEnd (t : Token) : Bool := t.tag == .endOfInput

/-- Whether this is the punctuation or reserved word `text`; a string never is. -/
def is (t : Token) (text : String) : Bool :=
  (t.tag == .punctuation || t.tag == .reserved) && t.spelling == text

/-- Whether this may name a symbol. -/
def isIdentifier (t : Token) : Bool := t.tag == .identifier

/-- Whether this stands for a value. -/
def isLiteral (t : Token) : Bool :=
  t.tag == .integer || t.tag == .float || t.tag == .string || t.tag == .boolean

/-- The text of a token in messages. -/
def display (t : Token) : String :=
  match t.tag with
  | .string => "\"" ++ t.spelling ++ "\""
  | .endOfInput => "end of input"
  | _ => t.spelling

theorem is_iff (t : Token) (text : String) :
    t.is text = true ↔ (t.tag = .punctuation ∨ t.tag = .reserved) ∧ t.spelling = text := by
  simp [is]

end Token

end StackScript
