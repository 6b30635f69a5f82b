/-!
# Bytes of text

Text is stored in UTF-8. Bytes that are no UTF-8 decode with a replacement character for every
longest run of bytes that could have started a character.

Main statements: `decode_ascii` (a byte below 128 is its own character).
-/
namespace StackScript.Text

/-- What stands for bytes that are no text. -/
def replacement : Char := Char.ofNat 0xFFFD

/-- Whether a byte continues a character. -/
def continues (b : UInt8) : Bool := 0x80 ≤ b && b ≤ 0xBF

/-- Whether the second byte fits the first one of a character of three bytes. -/
def fitsThree (a b : UInt8) : Bool :=
  if a == 0xE0 then 0xA0 ≤ b && b ≤ 0xBF
  else if a == 0xED then 0x80 ≤ b && b ≤ 0x9F
  else continues b

/-- Whether the second byte fits the first one of a character of four bytes. -/
def fitsFour (a b : UInt8) : Bool :=
  if a == 0xF0 then 0x90 ≤ b && b ≤ 0xBF
  else if a == 0xF4 then 0x80 ≤ b && b ≤ 0x8F
  else continues b

/-- The payload of a continuing byte. -/
def payload (b : UInt8) : Nat := b.toNat % 64

/-- The character that starts a list of bytes, and how many bytes it takes. -/
def decodeFirst (a : UInt8) (rest : List UInt8) : Char × Nat :=
  if a < 0x80 then (Char.ofNat a.toNat, 1)
  else if 0xC2 ≤ a && a ≤ 0xDF then
    match rest with
    | b :: _ => if continues b then (Char.ofNat (a.toNat % 32 * 64 + payload b), 2)
                else (replacement, 1)
    | [] => (replacement, 1)
  else if 0xE0 ≤ a && a ≤ 0xEF then
    match rest with
    | b :: rest =>
      if !fitsThree a b then (replacement, 1)
      else
        match rest with
        | c :: _ =>
          if continues c then
            (Char.ofNat ((a.toNat % 16 * 64 + payload b) * 64 + payload c), 3)
          else (replacement, 2)
        | [] => (replacement, 2)
    | [] => (replacement, 1)
  else if 0xF0 ≤ a && a ≤ 0xF4 then
    match rest with
    | b :: rest =>
      if !fitsFour a b then (replacement, 1)
      else
        match rest with
        | c :: rest =>
          if !continues c then (replacement, 2)
          else
            match rest with
            | d :: _ =>
              if continues d then
                (Char.ofNat (((a.toNat % 8 * 64 + payload b) * 64 + payload c) * 64 + payload d), 4)
              else (replacement, 3)
            | [] => (replacement, 3)
        | [] => (replacement, 2)
    | [] => (replacement, 1)
  else (replacement, 1)

/-- Decode bytes, invalid ones replaced. -/
def decodeChars (bytes : List UInt8) : List Char :=
  match bytes with
  | [] => []
  | a :: rest =>
    let (c, n) := decodeFirst a rest
    c :: decodeChars (rest.drop (n - 1))
termination_by bytes.length
decreasing_by simp only [List.length_drop, List.length_cons]; omega

/-- The text of bytes, invalid ones replaced. -/
def ofBytes (bytes : List UInt8) : String := String.ofList (decodeChars bytes)

/-- The bytes of a text. -/
def bytes (text : String) : List UInt8 := text.toUTF8.toList

theorem decode_ascii {a : UInt8} (h : a < 0x80) (rest : List UInt8) :
    decodeFirst a rest = (Char.ofNat a.toNat, 1) := by
  simp [decodeFirst, h]

end StackScript.Text
