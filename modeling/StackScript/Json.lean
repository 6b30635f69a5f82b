import StackScript.Association
import StackScript.Decimal.Shortest
import StackScript.Text.Layout

/-!
# JSON

Values of JSON and their texts, on one line or indented. The members of an object stand in the
order of their names.

Main statements: `escape_plain` (most characters stand for themselves).
-/
namespace StackScript

/-- A value of JSON. -/
inductive JsonValue where
  | null
  | bool (b : Bool)
  /-- A whole number of 64 bits with or without a sign. -/
  | whole (n : Int)
  | fraction (x : Float)
  | string (s : String)
  | array (items : List JsonValue)
  | object (members : List (String × JsonValue))

namespace JsonValue

instance : Inhabited JsonValue := ⟨null⟩

/-- An object from members in any order; of members of one name the last one stays. -/
def ofMembers (members : List (String × JsonValue)) : JsonValue :=
  object ((Association.ofList members).mergeSort fun a b => !(b.1 < a.1))

/-- A hexadecimal number of four digits. -/
def fourHexDigits (n : Nat) : List Char :=
  let ds := Nat.toDigits 16 n
  List.replicate (4 - ds.length) '0' ++ ds

/-- A character between quotes: quotes, backslashes and controls are escaped. -/
def escape (c : Char) : List Char :=
  match c with
  | '"' => ['\\', '"']
  | '\\' => ['\\', '\\']
  | '\x08' => ['\\', 'b']
  | '\x0c' => ['\\', 'f']
  | '\n' => ['\\', 'n']
  | '\r' => ['\\', 'r']
  | '\t' => ['\\', 't']
  | c => if c.toNat < 0x20 then ['\\', 'u'] ++ fourHexDigits c.toNat else [c]

/-- A text between quotes. -/
def quote (s : String) : String := String.ofList ('"' :: (s.toList.flatMap escape ++ ['"']))

/-- The text of a value without parts. -/
def leafText : JsonValue → String
  | bool b => if b then "true" else "false"
  | whole n => Decimal.ofInt n
  | fraction x => Decimal.scientific x
  | string s => quote s
  | _ => "null"

/-- How the parts of a value are set apart: by nothing, or each on a line of its own. -/
structure Style where
  indented : Bool
  depth : Nat

/-- The style of the parts of a value. -/
def Style.deeper (s : Style) : Style := { s with depth := s.depth + 1 }

/-- What stands before a part and before the closing bracket. -/
def Style.newline (s : Style) : String :=
  if s.indented then "\n" ++ String.ofList (List.replicate (2 * s.depth) ' ') else ""

/-- Parts between brackets. -/
def Style.enclose (s : Style) (opening closing : String) (parts : List String) : String :=
  if parts.isEmpty then opening ++ closing
  else
    opening ++ s.deeper.newline ++ Text.join ("," ++ s.deeper.newline) parts ++ s.newline ++ closing

/-- The name of a member with its colon. -/
def Style.label (s : Style) (name : String) : String :=
  quote name ++ if s.indented then ": " else ":"

mutual
/-- The text of a value in a style. -/
def textIn (s : Style) : JsonValue → String
  | array items => s.enclose "[" "]" (textsIn s.deeper items)
  | object members => s.enclose "\x7b" "\x7d" (memberTextsIn s.deeper members)
  | leaf => leaf.leafText

/-- The texts of items. -/
def textsIn (s : Style) : List JsonValue → List String
  | [] => []
  | item :: rest => textIn s item :: textsIn s rest

/-- The texts of members. -/
def memberTextsIn (s : Style) : List (String × JsonValue) → List String
  | [] => []
  | (name, item) :: rest => (s.label name ++ textIn s item) :: memberTextsIn s rest
end

/-- The text of a value on one line. -/
def text (v : JsonValue) : String := textIn ⟨false, 0⟩ v

/-- The text of a value with every part on a line of its own. -/
def prettyText (v : JsonValue) : String := textIn ⟨true, 0⟩ v

theorem escape_plain {c : Char} (h : 0x20 ≤ c.toNat) (quote : c ≠ '"') (slash : c ≠ '\\') :
    escape c = [c] := by
  have control (d : Char) (hd : d.toNat < 0x20) : c ≠ d := by
    rintro rfl; omega
  have := control '\x08' (by decide)
  have := control '\x0c' (by decide)
  have := control '\n' (by decide)
  have := control '\r' (by decide)
  have := control '\t' (by decide)
  simp [escape, *]

end JsonValue

end StackScript
