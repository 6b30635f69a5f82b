/-!
# Laying out text

Joining with separators, padding to a width, cutting into lines, and searching.

Main statements: `find?_nil` (the empty text is found at the start).
-/
namespace StackScript.Text

/-- Texts with a separator between them. -/
def join (separator : String) : List String → String
  | [] => ""
  | [s] => s
  | s :: rest => s ++ separator ++ join separator rest

/-- Pad with blanks on the right to at least `width` characters. -/
def padRight (width : Nat) (text : String) : String :=
  text ++ String.ofList (List.replicate (width - text.length) ' ')

/-- Pad with `fill` on the left to at least `width` characters. -/
def padLeft (fill : Char) (width : Nat) (text : String) : String :=
  String.ofList (List.replicate (width - text.length) fill) ++ text

/-- Cut at every line feed; a line feed at the end ends the last line and starts no other. -/
def splitLines : List Char → List (List Char)
  | [] => []
  | '\n' :: rest => [] :: splitLines rest
  | c :: rest =>
    match splitLines rest with
    | [] => [[c]]
    | line :: lines => (c :: line) :: lines

/-- The lines of a text, without their ends; a carriage return before a line feed belongs to the
line's end. -/
def lines (text : String) : List String :=
  let whole := text.toList
  let parts := splitLines whole
  let ended := whole.getLast? == some '\n'
  parts.mapIdx fun i line =>
    let terminated := ended || i + 1 < parts.length
    let line := if terminated && line.getLast? == some '\r' then line.dropLast else line
    String.ofList line

/-- Whether `front` starts the text. -/
def startsWith (text front : String) : Bool := front.toList.isPrefixOf text.toList

/-!
## Searching text

The first place of a text in another one, cutting at a text, and replacing.
-/

/-- How many characters precede the first occurrence of `needle`. -/
def findFrom (needle : List Char) : (place : Nat) → List Char → Option Nat
  | place, [] => if needle.isEmpty then some place else none
  | place, c :: rest =>
    if needle.isPrefixOf (c :: rest) then some place else findFrom needle (place + 1) rest

/-- The place of the first occurrence of a text. -/
def find? (text needle : String) : Option Nat := findFrom needle.toList 0 text.toList

/-- Whether a text occurs in another one. -/
def contains (text needle : String) : Bool := (find? text needle).isSome

/-- Cut at every occurrence of a text that is not empty; `part` is read backwards. -/
def cutFrom (separator : List Char) : (skipped : Nat) → (part : List Char) → List Char →
    List (List Char)
  | _, part, [] => [part.reverse]
  | skipped + 1, part, _ :: rest => cutFrom separator skipped part rest
  | 0, part, c :: rest =>
    if separator.isPrefixOf (c :: rest) then
      part.reverse :: cutFrom separator (separator.length - 1) [] rest
    else cutFrom separator 0 (c :: part) rest

/-- The parts between occurrences of a text; an empty one would separate nothing. -/
def split (text separator : String) : List String :=
  if separator.isEmpty then [text]
  else (cutFrom separator.toList 0 [] text.toList).map String.ofList

/-- A text without the occurrences of another one. -/
def without (text removed : String) : String := String.join (split text removed)

theorem find?_nil (text : String) : find? text "" = some 0 := by
  unfold find?
  cases h : text.toList <;> simp [findFrom]

end StackScript.Text
