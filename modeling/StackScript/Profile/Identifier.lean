import StackScript.Decimal.Shortest
import StackScript.Text.Bytes

/-!
# Identifiers of profiles

An identifier is a number of 128 bits, written as 32 hexadecimal digits in five groups. It is read
with the groups or without, in braces or after its scheme.

Main statements: `text_length` (a written identifier has 36 characters).
-/
namespace StackScript

/-- The 32 digits of an identifier, in lower case. -/
structure Identifier where
  digits : List Char
  length_eq : digits.length = 32

namespace Identifier

/-- Why a text is no identifier. -/
inductive Problem where
  | character (c : Char) (index : Nat)
  | simpleLength (length : Nat)
  | groupCount (count : Nat)
  | groupLength (group length : Nat)
deriving Repr, DecidableEq

/-- The digits that each group has. -/
def groupLengths : List Nat := [8, 4, 4, 4, 12]

/-- The text of a problem. -/
def Problem.text : Problem → String
  | character c index =>
    "invalid character: found \x60" ++ String.singleton c ++ "\x60 at " ++ Decimal.ofNat index
  | simpleLength n =>
    "invalid length: expected length 32 for simple format, found " ++ Decimal.ofNat n
  | groupCount n => "invalid group count: expected 5, found " ++ Decimal.ofNat n
  | groupLength group n =>
    "invalid group length in group " ++ Decimal.ofNat group ++ ": expected " ++
      Decimal.ofNat (groupLengths.getD group 12) ++ ", found " ++ Decimal.ofNat n

/-- The scheme that may stand before an identifier. -/
def scheme : List Char := "urn:uuid:".toList

/-- Whether a character is a hexadecimal digit. -/
def isHex (c : Char) : Bool :=
  ('0' ≤ c && c ≤ '9') || ('a' ≤ c && c ≤ 'f') || ('A' ≤ c && c ≤ 'F')

/-- A digit in lower case. -/
def lowerHex (c : Char) : Char := if 'A' ≤ c ∧ c ≤ 'F' then Char.ofNat (c.toNat + 32) else c

/-- The text without braces or scheme, how many characters were taken off its front, and whether
nothing was taken off. -/
def unwrap (cs : List Char) : List Char × Nat × Bool :=
  match cs, cs.getLast? with
  | '\x7b' :: _, some '\x7d' =>
    if cs.length < 2 then (cs, 0, true) else ((cs.drop 1).dropLast, 1, false)
  | _, _ =>
    if scheme.isPrefixOf cs then (cs.drop scheme.length, scheme.length, false) else (cs, 0, true)

/-- The lengths of the groups between hyphens. -/
def groups (cs : List Char) : List Nat :=
  (cs.foldl (fun (done, n) c => if c = '-' then (done ++ [n], 0) else (done, n + 1))
    (([] : List Nat), 0)) |> fun (done, n) => done ++ [n]

/-- The first character that no identifier has, with its place in bytes. -/
def badCharacter? : (index : Nat) → List Char → Option Problem
  | _, [] => none
  | index, c :: rest =>
    if c = '-' || isHex c then badCharacter? (index + 1) rest
    else some (.character c index)

/-- The first group of the wrong length; the last group is blamed when no other one is. -/
def badGroup (lengths : List Nat) (total : Nat) : Problem :=
  match (lengths.zip groupLengths).take 4 |>.findIdx? fun (n, m) => n != m with
  | some group => .groupLength group (lengths.getD group 0)
  | none => .groupLength 4 (total - 24)

/-- What is wrong with a text that is no identifier. -/
def problem (cs : List Char) : Problem :=
  let (inner, offset, simple) := unwrap cs
  let size := (String.ofList cs).utf8ByteSize
  match badCharacter? offset inner with
  | some p => p
  | none =>
    let lengths := groups inner
    if lengths.length = 1 ∧ simple then .simpleLength size
    else if lengths.length ≠ 5 then .groupCount lengths.length
    else badGroup lengths size

/-- Read an identifier. -/
def read (text : String) : Except Problem Identifier :=
  let cs := text.toList
  let (inner, _, simple) := unwrap cs
  let lengths := groups inner
  let digits := (inner.filter isHex).map lowerHex
  let shaped := lengths == groupLengths || (simple && lengths == [32])
  if h : digits.length = 32 then
    if shaped && inner.all fun c => c = '-' || isHex c then .ok ⟨digits, h⟩
    else .error (problem cs)
  else .error (problem cs)

/-- Cut a text into groups with hyphens between them. -/
def hyphenate : List Nat → List Char → List Char
  | [], cs => cs
  | [_], cs => cs
  | n :: rest, cs => cs.take n ++ '-' :: hyphenate rest (cs.drop n)

/-- The text of an identifier. -/
def text (i : Identifier) : String := String.ofList (hyphenate groupLengths i.digits)

/-- An identifier made from a number: its digits stand around the marks of a random identifier. -/
def ofNat (n : Nat) : Identifier :=
  let ds := Nat.toDigits 16 (n % 0x1000000000000)
  let padded := (List.replicate 12 '0' ++ ds).drop ds.length
  ⟨"00000000000040008000".toList ++ padded, by
    simp only [List.length_append, padded, List.length_drop, List.length_replicate]
    have : "00000000000040008000".toList.length = 20 := by decide
    omega⟩

theorem length_hyphenate (cs : List Char) (h : cs.length = 32) :
    (hyphenate groupLengths cs).length = 36 := by
  simp [hyphenate, groupLengths, h]

theorem text_length (i : Identifier) : i.text.length = 36 := by
  simp [text, length_hyphenate _ i.length_eq]

end Identifier

end StackScript
