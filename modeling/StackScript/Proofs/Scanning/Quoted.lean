import Mathlib.Data.List.Forall2
import StackScript.Proofs.Scanning.Lexemes
import StackScript.Value.Display

/-!
# Quoted strings scan back

Between quotes a character stands for itself or is escaped, by a letter or by its code in
hexadecimal. Whichever of them are escaped, the scanner reads the string back, as the only token of
the text. The written form of a string inside another value is such a text.

Main statements: `Text.quote_quotes` (what is written is quoted), `scanString_spellings` (by
induction on the text) and `scan_quoted`.
-/
namespace StackScript

open Token (hexValue isScalar scanEscape scanString recognize scanFrom)

namespace Text

/-! ## Hexadecimal digits -/

theorem hexDigit_read : ∀ d < 16, Decimal.digitValue (Nat.digitChar d) = some d ∧
    isHexDigit (Nat.digitChar d) = true := by decide

theorem hexValue_append (ds : List Char) {d : Nat} (small : d < 16) :
    hexValue (ds ++ [Nat.digitChar d]) = hexValue ds * 16 + d := by
  simp [hexValue, (hexDigit_read d small).1]

theorem hexDigits_eq (n : Nat) : hexDigits n =
    if n < 16 then [Nat.digitChar n] else hexDigits (n / 16) ++ [Nat.digitChar (n % 16)] :=
  Nat.toDigits_eq_if (by decide)

theorem hexValue_hexDigits (n : Nat) : hexValue (hexDigits n) = n := by
  induction n using Nat.strong_induction_on with
  | h n ih =>
    rw [hexDigits_eq]
    split
    · next small => simpa [hexValue] using hexValue_append [] small
    · rw [hexValue_append _ (Nat.mod_lt _ (by decide)), ih _ (by omega)]
      omega

theorem isHexDigit_of_mem {n : Nat} {d : Char} (mem : d ∈ hexDigits n) : isHexDigit d = true := by
  induction n using Nat.strong_induction_on with
  | h n ih =>
    rw [hexDigits_eq] at mem
    split at mem
    · next small =>
      rw [List.mem_singleton.1 mem]
      exact (hexDigit_read n small).2
    · rcases List.mem_append.1 mem with inner | last
      · exact ih _ (by omega) inner
      · rw [List.mem_singleton.1 last]
        exact (hexDigit_read _ (Nat.mod_lt _ (by decide))).2

/-! ## Quoted forms -/

/-- The escapes of one letter, each with the character that it stands for. -/
def letterEscapes : List (Char × Char) :=
  [('"', '"'), ('\\', '\\'), ('n', '\n'), ('r', '\r'), ('t', '\t'), ('0', '\x00')]

/-- The ways to write a character between quotes: as it is, unless that would end the string or its
line or start an escape; by a letter; or by its code. -/
inductive Spells (c : Char) : List Char → Prop
  | plain (noQuote : c ≠ '"') (noBackslash : c ≠ '\\') (noLine : c ≠ '\n') : Spells c [c]
  | letter {letter : Char} (known : (letter, c) ∈ letterEscapes) : Spells c ['\\', letter]
  | code : Spells c ('\\' :: 'u' :: '\x7b' :: (hexDigits c.toNat ++ ['\x7d']))

/-- A written form of a text between quotes. -/
def Quotes (written text : String) : Prop :=
  ∃ spellings, List.Forall₂ Spells text.toList spellings ∧
    written.toList = '"' :: (spellings.flatten ++ ['"'])

theorem escape_spells (c : Char) : Spells c (escape c) := by
  unfold escape
  split
  · exact .letter (by decide)
  · exact .letter (by decide)
  · exact .letter (by decide)
  · exact .letter (by decide)
  · exact .letter (by decide)
  · exact .letter (by decide)
  · split
    · exact .code
    · exact .plain ‹_› ‹_› ‹_›

theorem quote_quotes (text : String) : Quotes (quote text) text := by
  refine ⟨text.toList.map escape, ?_, by simp [quote, List.flatMap]⟩
  exact List.forall₂_map_right_iff.2 (List.forall₂_same.2 fun c _ => escape_spells c)

end Text

namespace Token

theorem isScalar_toNat (c : Char) : isScalar c.toNat = true := by
  have valid : c.toNat.isValidChar := c.valid
  simpa [isScalar, Nat.isValidChar] using valid

theorem scanEscape_code (c : Char) (rest : List Char) :
    scanEscape ('u' :: '\x7b' :: (Text.hexDigits c.toNat ++ '\x7d' :: rest)) =
      .ok (c, (Text.hexDigits c.toNat).length + 3) := by
  have taken : (Text.hexDigits c.toNat ++ '\x7d' :: rest).takeWhile Text.isHexDigit =
      Text.hexDigits c.toNat := by
    rw [List.takeWhile_append_of_pos fun _ => Text.isHexDigit_of_mem,
      List.takeWhile_cons_of_neg (by decide), List.append_nil]
  have short : (Text.hexDigits c.toNat).length ≤ 6 := by
    refine (Nat.length_toDigits_le_iff (by decide) (by decide)).2 ?_
    have valid : c.toNat.isValidChar := c.valid
    simp only [Nat.isValidChar] at valid
    omega
  have some : 0 < (Text.hexDigits c.toNat).length := Nat.length_toDigits_pos
  simp only [scanEscape, taken]
  simp [some, short, Text.hexValue_hexDigits, isScalar_toNat]

/-- However a character is spelled, a string goes on behind it. -/
theorem scanString_spells {c : Char} {spelling : List Char} (h : Text.Spells c spelling)
    (rest : List Char) {d : Decoded} (behind : scanString rest = .ok d) :
    scanString (spelling ++ rest) = .ok ⟨d.length + spelling.length, c :: d.value⟩ := by
  cases h with
  | plain noQuote noBackslash noLine =>
    rw [List.singleton_append, scanString, behind]
    · rfl
    all_goals assumption
  | @letter l known =>
    have read : scanEscape (l :: rest) = .ok (c, 1) := by
      simp only [Text.letterEscapes, List.mem_cons, List.not_mem_nil, or_false, Prod.mk.injEq] at known
      rcases known with ⟨rfl, rfl⟩ | ⟨rfl, rfl⟩ | ⟨rfl, rfl⟩ | ⟨rfl, rfl⟩ | ⟨rfl, rfl⟩ | ⟨rfl, rfl⟩ <;>
        rfl
    rw [List.cons_append, List.singleton_append, scanString, read]
    simp [behind]
  | code =>
    have read := scanEscape_code c rest
    have dropped : ('u' :: '\x7b' :: (Text.hexDigits c.toNat ++ '\x7d' :: rest)).drop
        ((Text.hexDigits c.toNat).length + 3) = rest := by
      rw [List.drop_succ_cons, List.drop_succ_cons, ← List.drop_drop, List.drop_left]
      rfl
    rw [show '\\' :: 'u' :: '\x7b' :: (Text.hexDigits c.toNat ++ ['\x7d']) ++ rest =
      '\\' :: 'u' :: '\x7b' :: (Text.hexDigits c.toNat ++ '\x7d' :: rest) by simp, scanString, read]
    simp only [dropped, behind]
    simp
    omega

theorem scanString_spellings {text : List Char} {spellings : List (List Char)}
    (h : List.Forall₂ Text.Spells text spellings) :
    scanString (spellings.flatten ++ ['"']) = .ok ⟨spellings.flatten.length + 1, text⟩ := by
  induction h with
  | nil => rw [List.flatten_nil, List.nil_append, scanString]; rfl
  | cons spelled _ ih =>
    rw [List.flatten_cons, List.append_assoc, scanString_spells spelled _ ih]
    simp
    omega

/-- A text that is one lexeme from end to end has one token. -/
theorem scan_of_recognize {source : String} {l : Lexeme} (noGap : gapLength source.toList = 0)
    (read : recognize source.toList = .ok l) (all : l.length = source.toList.length) :
    scan source = ⟨[⟨l.spelling, l.tag, 1, 1⟩], none⟩ := by
  have some : 0 < source.toList.length := by
    refine List.length_pos_iff.2 fun none => ?_
    rw [none] at read
    cases read
  have taken : max l.length 1 = source.toList.length := by omega
  have ends (p : Position) : scanFrom p [] = ⟨[], none⟩ := by
    rw [scanFrom]
    simp
  unfold scan
  rw [scanFrom]
  simp only [noGap, List.drop_zero, read, taken, List.drop_length, ends, Position.advance]
  rw [dif_neg (by omega)]

/-- **Quoted strings scan back.** The written form of a string is quoted, and every quoted form of
it is scanned as one string token that spells it. -/
theorem scan_quoted (text : String) (s : Store) :
    Text.Quotes ((Value.string text).displayNested s) text ∧
      ∀ written, Text.Quotes written text →
        scan written = ⟨[⟨text, .string, 1, 1⟩], none⟩ := by
  refine ⟨Text.quote_quotes text, fun written ⟨spellings, spelled, parts⟩ => ?_⟩
  have read := recognize_string (scanString_spellings spelled)
  rw [← parts] at read
  have noGap : gapLength written.toList = 0 := by
    rw [parts, gapLength]
    · rfl
    · simp
  rw [scan_of_recognize noGap read (by rw [parts]; simp)]
  simp

/-- A character written by its code, and one by a letter. -/
theorem face_scanned : Text.Quotes "\"\\u\x7b1f600\x7d\\n\"" "😀\n" ∧
    scan "\"\\u\x7b1f600\x7d\\n\"" = ⟨[⟨"😀\n", .string, 1, 1⟩], none⟩ := by
  have digits : Text.hexDigits '😀'.toNat = ['1', 'f', '6', '0', '0'] := by decide
  have coded : Text.Spells '😀' ('\\' :: 'u' :: '\x7b' :: (['1', 'f', '6', '0', '0'] ++ ['\x7d'])) :=
    digits ▸ .code
  have ended : Text.Spells '\n' ['\\', 'n'] := .letter (by decide)
  have spelled : List.Forall₂ Text.Spells "😀\n".toList [_, _] := .cons coded (.cons ended .nil)
  have quoted : Text.Quotes "\"\\u\x7b1f600\x7d\\n\"" "😀\n" := ⟨_, spelled, by decide⟩
  exact ⟨quoted, (scan_quoted "😀\n" {}).2 _ quoted⟩

end Token

end StackScript
