import Mathlib.Algebra.Ring.Nat
import StackScript.Json.Read
import StackScript.Profile.Identifier

/-!
# Texts through JSON and back

A text is written as bytes between quotes, with quotes, backslashes and controls escaped. A reader
takes these bytes one after the other, keeps what they stand for, and decodes it at the end.

Main statements: `Text.ofBytes_bytes` and `JsonReader.stringRest_reads`.
-/
namespace StackScript

open String (utf8EncodeChar)

/-! ## Bytes of characters -/

namespace Text

theorem toList_loop (bs : ByteArray) (i : Nat) (done : List UInt8) :
    ByteArray.toList.loop bs i done = done.reverse ++ bs.data.toList.drop i := by
  fun_induction ByteArray.toList.loop bs i done with
  | case1 i done inside ih =>
    have here : i < bs.data.toList.length := by simpa using inside
    have get : bs.get! i = bs.data.toList[i] := by
      cases bs
      exact getElem!_pos _ i (by simpa using here)
    rw [ih, List.drop_eq_getElem_cons here, get]
    simp
  | case2 i done outside =>
    rw [List.drop_eq_nil_of_le (by simpa using Nat.le_of_not_lt outside)]
    simp

theorem toList_eq (bs : ByteArray) : bs.toList = bs.data.toList := by
  simpa [ByteArray.toList] using toList_loop bs 0 []

theorem bytes_ofList (cs : List Char) : bytes (String.ofList cs) = cs.flatMap utf8EncodeChar := by
  simp [bytes, toList_eq, List.utf8Encode]

theorem bytes_append (s t : String) : bytes (s ++ t) = bytes s ++ bytes t := by
  simp [bytes, toList_eq]

theorem toNat_ofNat {n : Nat} (small : n < 256) : (UInt8.ofNat n).toNat = n := by
  simpa using small

/-- A byte that continues a character holds six of its binary digits. -/
theorem continues_ofNat (n : Nat) : continues (.ofNat (n % 64 + 128)) = true := by
  have byte : (UInt8.ofNat (n % 64 + 128)).toNat = n % 64 + 128 := toNat_ofNat (by omega)
  simp only [continues, UInt8.le_iff_toNat_le, byte, UInt8.reduceToNat, Bool.and_eq_true,
    decide_eq_true_eq]
  omega

theorem payload_ofNat (n : Nat) : payload (.ofNat (n % 64 + 128)) = n % 64 := by
  rw [payload, toNat_ofNat (by omega)]
  omega

/-- A character of one byte. -/
theorem decodeFirst_one {v : Nat} (few : v ≤ 0x7f) (rest : List UInt8) :
    decodeFirst (.ofNat v) rest = (Char.ofNat v, 1) := by
  have a : (UInt8.ofNat v).toNat = v := toNat_ofNat (by omega)
  rw [decode_ascii (by rw [UInt8.lt_iff_toNat_lt, a]; exact Nat.lt_succ_of_le few), a]

/-- A character of two bytes. -/
theorem decodeFirst_two {v : Nat} (more : 0x7f < v) (few : v ≤ 0x7ff) (rest : List UInt8) :
    decodeFirst (.ofNat (v / 64 % 32 + 192)) (.ofNat (v % 64 + 128) :: rest) = (Char.ofNat v, 2) := by
  have a : (UInt8.ofNat (v / 64 % 32 + 192)).toNat = v / 64 % 32 + 192 := toNat_ofNat (by omega)
  have whole : (v / 64 % 32 + 192) % 32 * 64 + v % 64 = v := by omega
  simp only [decodeFirst, continues_ofNat, payload_ofNat, UInt8.lt_iff_toNat_lt,
    UInt8.le_iff_toNat_le, a, UInt8.reduceToNat, whole, Bool.and_eq_true, decide_eq_true_eq, if_true]
  rw [if_neg (by omega), if_pos (by omega)]

/-- The second byte of a character of three bytes is neither one of a shorter character nor one of
half a pair. -/
theorem fitsThree_ofNat {v : Nat} (more : 0x7ff < v) (few : v ≤ 0xffff)
    (whole : v < 0xd800 ∨ 0xdfff < v) :
    fitsThree (.ofNat (v / 4096 % 16 + 224)) (.ofNat (v / 64 % 64 + 128)) = true := by
  have a : (UInt8.ofNat (v / 4096 % 16 + 224)).toNat = v / 4096 % 16 + 224 := toNat_ofNat (by omega)
  have b : (UInt8.ofNat (v / 64 % 64 + 128)).toNat = v / 64 % 64 + 128 := toNat_ofNat (by omega)
  simp only [fitsThree, continues_ofNat, beq_iff_eq, ← UInt8.toNat_inj, UInt8.le_iff_toNat_le, a, b,
    UInt8.reduceToNat]
  split
  · simp only [Bool.and_eq_true, decide_eq_true_eq]; omega
  · split
    · simp only [Bool.and_eq_true, decide_eq_true_eq]; omega
    · rfl

/-- A character of three bytes. -/
theorem decodeFirst_three {v : Nat} (more : 0x7ff < v) (few : v ≤ 0xffff)
    (whole : v < 0xd800 ∨ 0xdfff < v) (rest : List UInt8) :
    decodeFirst (.ofNat (v / 4096 % 16 + 224))
      (.ofNat (v / 64 % 64 + 128) :: .ofNat (v % 64 + 128) :: rest) = (Char.ofNat v, 3) := by
  have a : (UInt8.ofNat (v / 4096 % 16 + 224)).toNat = v / 4096 % 16 + 224 := toNat_ofNat (by omega)
  have whole' : ((v / 4096 % 16 + 224) % 16 * 64 + v / 64 % 64) * 64 + v % 64 = v := by omega
  simp only [decodeFirst, fitsThree_ofNat more few whole, continues_ofNat, payload_ofNat,
    UInt8.lt_iff_toNat_lt, UInt8.le_iff_toNat_le, a, UInt8.reduceToNat, whole', Bool.and_eq_true,
    decide_eq_true_eq, if_true, Bool.not_true, Bool.false_eq_true, if_false]
  rw [if_neg (by omega), if_neg (by omega), if_pos (by omega)]

/-- The second byte of a character of four bytes is neither one of a shorter character nor one
beyond the last character. -/
theorem fitsFour_ofNat {v : Nat} (more : 0xffff < v) (few : v < 0x110000) :
    fitsFour (.ofNat (v / 262144 % 8 + 240)) (.ofNat (v / 4096 % 64 + 128)) = true := by
  have a : (UInt8.ofNat (v / 262144 % 8 + 240)).toNat = v / 262144 % 8 + 240 := toNat_ofNat (by omega)
  have b : (UInt8.ofNat (v / 4096 % 64 + 128)).toNat = v / 4096 % 64 + 128 := toNat_ofNat (by omega)
  simp only [fitsFour, continues_ofNat, beq_iff_eq, ← UInt8.toNat_inj, UInt8.le_iff_toNat_le, a, b,
    UInt8.reduceToNat]
  split
  · simp only [Bool.and_eq_true, decide_eq_true_eq]; omega
  · split
    · simp only [Bool.and_eq_true, decide_eq_true_eq]; omega
    · rfl

/-- A character of four bytes. -/
theorem decodeFirst_four {v : Nat} (more : 0xffff < v) (few : v < 0x110000) (rest : List UInt8) :
    decodeFirst (.ofNat (v / 262144 % 8 + 240))
      (.ofNat (v / 4096 % 64 + 128) :: .ofNat (v / 64 % 64 + 128) :: .ofNat (v % 64 + 128) :: rest) =
      (Char.ofNat v, 4) := by
  have a : (UInt8.ofNat (v / 262144 % 8 + 240)).toNat = v / 262144 % 8 + 240 := toNat_ofNat (by omega)
  have whole : (((v / 262144 % 8 + 240) % 8 * 64 + v / 4096 % 64) * 64 + v / 64 % 64) * 64 + v % 64 =
      v := by omega
  simp only [decodeFirst, fitsFour_ofNat more few, continues_ofNat, payload_ofNat,
    UInt8.lt_iff_toNat_lt, UInt8.le_iff_toNat_le, a, UInt8.reduceToNat, whole, Bool.and_eq_true,
    decide_eq_true_eq, if_true, Bool.not_true, Bool.false_eq_true, if_false]
  rw [if_neg (by omega), if_neg (by omega), if_neg (by omega), if_pos (by omega)]

theorem decodeChars_cons {a : UInt8} {rest : List UInt8} {c : Char} {n : Nat}
    (first : decodeFirst a rest = (c, n + 1)) :
    decodeChars (a :: rest) = c :: decodeChars (rest.drop n) := by
  rw [decodeChars, first]
  rfl

theorem decodeChars_append (c : Char) (rest : List UInt8) :
    decodeChars (utf8EncodeChar c ++ rest) = c :: decodeChars rest := by
  obtain ⟨v, code, same, valid⟩ : ∃ v, c.val.toNat = v ∧ Char.ofNat v = c ∧
      (v < 0xd800 ∨ 0xdfff < v ∧ v < 0x110000) :=
    ⟨_, rfl, Char.ofNat_toNat c, c.valid⟩
  simp only [utf8EncodeChar, code]
  split
  · next one => exact (decodeChars_cons (decodeFirst_one one rest)).trans (by rw [same]; rfl)
  · split
    · next one two =>
      exact (decodeChars_cons (decodeFirst_two (Nat.lt_of_not_le one) two rest)).trans (by rw [same]; rfl)
    · split
      · next two three =>
        exact (decodeChars_cons (decodeFirst_three (Nat.lt_of_not_le two) three (by omega) rest)).trans
          (by rw [same]; rfl)
      · next three =>
        exact (decodeChars_cons (decodeFirst_four (Nat.lt_of_not_le three) (by omega) rest)).trans
          (by rw [same]; rfl)

/-- Bytes of a text are decoded to the text. -/
theorem ofBytes_bytes (s : String) : ofBytes (bytes s) = s := by
  have all (cs : List Char) : decodeChars (cs.flatMap utf8EncodeChar) = cs := by
    induction cs with
    | nil => simp [decodeChars]
    | cons c cs ih => rw [List.flatMap_cons, decodeChars_append, ih]
  rw [← String.ofList_toList (s := s), bytes_ofList, ofBytes, all]

end Text

/-! ## Readers on a list of bytes -/

namespace JsonReader

variable {α β σ : Type} {ahead middle behind rest : List UInt8}

/-- A reader takes bytes down to those behind it and gives a value, whatever its place is. -/
def Reads (m : ReadM α) (ahead behind : List UInt8) (a : α) : Prop :=
  ∀ line column, ∃ line' column', m ⟨ahead, line, column⟩ = (.ok a, ⟨behind, line', column'⟩)

theorem Reads.pure (a : α) : Reads (Pure.pure a) ahead ahead a := fun line column =>
  ⟨line, column, rfl⟩

theorem Reads.bind {m : ReadM α} {f : α → ReadM β} {a : α} {v : β} (first : Reads m ahead middle a)
    (second : Reads (f a) middle behind v) : Reads (m >>= f) ahead behind v := fun line column => by
  obtain ⟨l, c, read⟩ := first line column
  obtain ⟨l', c', read'⟩ := second l c
  refine ⟨l', c', ?_⟩
  show StateT.bind m (ExceptT.bindCont f) _ = _
  rw [StateT.bind, read]
  exact read'

/-- What is read may depend on the whole of the reader. -/
theorem Reads.get {f : Reader → ReadM β} {v : β}
    (read : ∀ line column, Reads (f ⟨ahead, line, column⟩) ahead behind v) :
    Reads (MonadState.get >>= f) ahead behind v := fun line column => read line column line column

theorem skip_reads (b : UInt8) : Reads skip (b :: rest) rest () := fun line column => by
  by_cases feed : (b == 0x0A) = true
  · exact ⟨line + 1, 0, by simp [skip, Reader.advance, feed]⟩
  · exact ⟨line, column + 1, by simp [skip, Reader.advance, feed]⟩

theorem peek_reads : Reads peek ahead ahead ahead.head? := fun line column => ⟨line, column, rfl⟩

theorem take_reads (b : UInt8) : Reads take (b :: rest) rest (some b) := fun line column => by
  have moved : Reads skip (b :: rest) rest () := skip_reads b
  obtain ⟨l, c, read⟩ := moved line column
  exact ⟨l, c, by rw [take, (Prod.mk.inj read).2]; rfl⟩

/-- A loop reads to its end, whatever the bound of its turns is that is more than the bytes. -/
def Ends (turn : σ → ReadM (Turn σ β)) (start : σ) (ahead behind : List UInt8) (v : β) : Prop :=
  ∀ bound, ahead.length < bound → Reads (turns turn bound start) ahead behind v

theorem Ends.reads {turn : σ → ReadM (Turn σ β)} {start : σ} {v : β}
    (h : Ends turn start ahead behind v) : Reads (repeatTurns start turn) ahead behind v :=
  .get fun _ _ => h (ahead.length + 2) (by omega)

theorem Ends.done {turn : σ → ReadM (Turn σ β)} {state : σ} {v : β}
    (last : Reads (turn state) ahead behind (.done v)) : Ends turn state ahead behind v := by
  intro bound more
  obtain ⟨bound, rfl⟩ := Nat.exists_eq_add_one_of_ne_zero (Nat.ne_zero_of_lt more)
  exact last.bind (Reads.pure v)

theorem Ends.again {turn : σ → ReadM (Turn σ β)} {state next : σ} {v : β}
    (read : Reads (turn state) ahead middle (.again next)) (shorter : middle.length < ahead.length)
    (later : Ends turn next middle behind v) : Ends turn state ahead behind v := by
  intro bound more
  obtain ⟨bound, rfl⟩ := Nat.exists_eq_add_one_of_ne_zero (Nat.ne_zero_of_lt more)
  exact read.bind (later bound (by omega))

/-! ## Strings -/

/-- A byte that stands for itself between quotes. -/
def Plain (b : UInt8) : Prop := 0x20 ≤ b ∧ b ≠ 0x22 ∧ b ≠ 0x5c

/-- The bytes of a character that is neither a quote, a backslash nor a control. -/
theorem plain_bytes {c : Char} (high : 0x20 ≤ c.toNat) (quote : c ≠ '"') (slash : c ≠ '\\') :
    ∀ b ∈ utf8EncodeChar c, Plain b := by
  have byte {n : Nat} (small : n < 256) (high : 0x20 ≤ n) (quote : n ≠ 0x22) (slash : n ≠ 0x5c) :
      Plain (.ofNat n) := by
    simp only [Plain, UInt8.le_iff_toNat_le, ne_eq, ← UInt8.toNat_inj, Text.toNat_ofNat small,
      UInt8.reduceToNat]
    exact ⟨high, quote, slash⟩
  have continuing (n : Nat) : Plain (.ofNat (n % 64 + 128)) :=
    byte (by omega) (by omega) (by omega) (by omega)
  have code (d : Char) (ne : c ≠ d) : c.val.toNat ≠ d.toNat := fun same => ne (Char.toNat_inj.1 same)
  have small : c.val.toNat < 0x110000 := by
    have := c.valid
    simp only [UInt32.isValidChar, Nat.isValidChar] at this
    omega
  simp only [utf8EncodeChar]
  split
  · exact List.forall_mem_singleton.2 (byte (by omega) high (code _ quote) (code _ slash))
  · split
    · exact List.forall_mem_cons.2 ⟨byte (by omega) (by omega) (by omega) (by omega),
        List.forall_mem_singleton.2 (continuing _)⟩
    · split
      · exact List.forall_mem_cons.2 ⟨byte (by omega) (by omega) (by omega) (by omega),
          List.forall_mem_cons.2 ⟨continuing _, List.forall_mem_singleton.2 (continuing _)⟩⟩
      · exact List.forall_mem_cons.2 ⟨byte (by omega) (by omega) (by omega) (by omega),
          List.forall_mem_cons.2 ⟨continuing _,
            List.forall_mem_cons.2 ⟨continuing _, List.forall_mem_singleton.2 (continuing _)⟩⟩⟩

/-- One turn of reading the rest of a string: what it stands for so far, in reverse. -/
def stringTurn (done : List UInt8) : ReadM (Turn (List UInt8) (List UInt8)) := do
  match ← take with
  | none => failHere .endInString
  | some b =>
    if b == code '"' then pure (.done done)
    else if b == code '\\' then
      let bytes ← escaped
      pure (.again (bytes.reverse ++ done))
    else if b < 0x20 then failHere .controlCharacter
    else pure (.again (b :: done))

theorem stringRest_eq :
    stringRest = repeatTurns [] stringTurn >>= fun done => pure (Text.ofBytes done.reverse) := rfl

variable {done : List UInt8} {v : List UInt8}

theorem stringTurn_plain {b : UInt8} (plain : Plain b) :
    Reads (stringTurn done) (b :: rest) rest (.again (b :: done)) := by
  obtain ⟨high, quote, slash⟩ := plain
  have quote : (b == code '"') = false := beq_false_of_ne quote
  have slash : (b == code '\\') = false := beq_false_of_ne slash
  refine (take_reads b).bind ?_
  simp only [quote, slash, Bool.false_eq_true, if_false, if_neg (UInt8.not_lt.2 high)]
  exact Reads.pure _

theorem stringTurn_escaped {bs : List UInt8} (read : Reads escaped ahead rest bs) :
    Reads (stringTurn done) (code '\\' :: ahead) rest (.again (bs.reverse ++ done)) :=
  (take_reads _).bind (read.bind (Reads.pure _))

theorem stringTurn_quote : Reads (stringTurn done) (code '"' :: rest) rest (.done done) :=
  (take_reads _).bind (Reads.pure _)

/-- Bytes that stand for themselves. -/
theorem Ends.plain {bs : List UInt8} (plain : ∀ b ∈ bs, Plain b)
    (later : Ends stringTurn (bs.reverse ++ done) rest behind v) :
    Ends stringTurn done (bs ++ rest) behind v := by
  induction bs generalizing done with
  | nil => exact later
  | cons b bs ih =>
    obtain ⟨here, there⟩ := List.forall_mem_cons.1 plain
    refine .again (stringTurn_plain here) (by simp) (ih there ?_)
    simpa using later

/-- The digits of a control: the first two are noughts. -/
theorem fourHexDigits_control : ∀ n < 0x20, ∃ a b : Nat,
    (JsonValue.fourHexDigits n).flatMap utf8EncodeChar = [0x30, 0x30, .ofNat a, .ofNat b] ∧
      ∃ high low, hexDigit? (.ofNat a) = some high ∧ hexDigit? (.ofNat b) = some low ∧
        high * 16 + low = n := by
  intro n small
  refine ⟨(Nat.digitChar (n / 16)).toNat, (Nat.digitChar (n % 16)).toNat, ?_, n / 16, n % 16, ?_⟩
  · revert n; decide
  · revert n; decide

theorem hexEscape_reads {n : Nat} (small : n < 0x20) :
    Reads hexEscape ((JsonValue.fourHexDigits n).flatMap utf8EncodeChar ++ rest) rest n := by
  obtain ⟨a, b, digits, high, low, first, second, same⟩ := fourHexDigits_control n small
  rw [digits]
  refine .get fun _ _ => (skip_reads _).bind <| (skip_reads _).bind <| (skip_reads _).bind <|
    (skip_reads _).bind ?_
  have nought : hexDigit? 0x30 = some 0 := by decide
  simp only [nought, first, second, Nat.zero_mul, Nat.zero_add, same]
  exact Reads.pure n

/-- A control given by its code. -/
theorem unicodeEscape_reads {c : Char} (control : c.toNat < 0x20) :
    Reads unicodeEscape ((JsonValue.fourHexDigits c.toNat).flatMap utf8EncodeChar ++ rest) rest
      (utf8EncodeChar c) := by
  refine (hexEscape_reads control).bind ?_
  rw [if_neg (by omega), if_pos (by omega), Char.ofNat_toNat]
  have bytes : Text.bytes (String.singleton c) = utf8EncodeChar c := by
    simpa using Text.bytes_ofList [c]
  rw [bytes]
  exact Reads.pure _

/-- What is written for a character is read as its bytes. -/
theorem Ends.escape {c : Char}
    (later : Ends stringTurn ((utf8EncodeChar c).reverse ++ done) rest behind v) :
    Ends stringTurn done ((JsonValue.escape c).flatMap utf8EncodeChar ++ rest) behind v := by
  have short {ahead : List UInt8} (read : Reads escaped ahead rest (utf8EncodeChar c))
      (shorter : rest.length ≤ ahead.length) :
      Ends stringTurn done (code '\\' :: ahead) behind v :=
    .again (stringTurn_escaped read) (Nat.lt_succ_of_le shorter) later
  have letter {b : UInt8} (read : Reads escaped (b :: rest) rest (utf8EncodeChar c)) :
      Ends stringTurn done (code '\\' :: b :: rest) behind v :=
    short read (by simp)
  unfold JsonValue.escape
  split
  · exact letter ((take_reads _).bind (Reads.pure _))
  · exact letter ((take_reads _).bind (Reads.pure _))
  · exact letter ((take_reads _).bind (Reads.pure _))
  · exact letter ((take_reads _).bind (Reads.pure _))
  · exact letter ((take_reads _).bind (Reads.pure _))
  · exact letter ((take_reads _).bind (Reads.pure _))
  · exact letter ((take_reads _).bind (Reads.pure _))
  · next quote slash _ _ _ _ _ =>
    split
    · next control =>
      have read : Reads escaped (code 'u' :: ((JsonValue.fourHexDigits c.toNat).flatMap
          utf8EncodeChar ++ rest)) rest (utf8EncodeChar c) :=
        (take_reads _).bind (unicodeEscape_reads control)
      have written := short read (by simp only [List.length_cons, List.length_append]; omega)
      exact written
    · next high =>
      rw [List.flatMap_singleton]
      exact .plain (plain_bytes (Nat.le_of_not_lt high) quote slash) later

/-- A text between quotes is read back. -/
theorem stringRest_reads (s : String) :
    Reads stringRest ((s.toList.flatMap JsonValue.escape).flatMap utf8EncodeChar ++ code '"' :: rest)
      rest s := by
  have all (cs : List Char) (done : List UInt8) :
      Ends stringTurn done ((cs.flatMap JsonValue.escape).flatMap utf8EncodeChar ++ code '"' :: rest)
        rest ((cs.flatMap utf8EncodeChar).reverse ++ done) := by
    induction cs generalizing done with
    | nil => exact .done stringTurn_quote
    | cons c cs ih =>
      rw [List.flatMap_cons, List.flatMap_append, List.append_assoc]
      refine .escape ?_
      simpa using ih ((utf8EncodeChar c).reverse ++ done)
  rw [stringRest_eq]
  refine (all s.toList []).reads.bind ?_
  have same : Text.ofBytes (s.toList.flatMap utf8EncodeChar) = s := by
    rw [← Text.bytes_ofList, String.ofList_toList, Text.ofBytes_bytes]
  simp only [List.append_nil, List.reverse_reverse, same]
  exact Reads.pure s

end JsonReader

/-!
## Identifiers are read back

Only lower case is written. What was read or made from a number has its digits in lower case, and
is the same identifier again when it is read from its own text.

Main statements: `Identifier.written_of_read`, `written_ofNat` and `read_text`.
-/

namespace Identifier

/-- A hexadecimal digit in lower case. -/
def Lower (c : Char) : Prop := isHex c = true ∧ lowerHex c = c

/-- The digits of an identifier that was read or made are in lower case. -/
def Written (i : Identifier) : Prop := ∀ c ∈ i.digits, Lower c

theorem lower_lowerHex {c : Char} (hex : isHex c = true) : Lower (lowerHex c) := by
  have codes : ∀ n < 128, isHex (Char.ofNat n) = true →
      isHex (lowerHex (Char.ofNat n)) = true ∧
        lowerHex (lowerHex (Char.ofNat n)) = lowerHex (Char.ofNat n) := by decide
  have small : c.toNat < 128 := by
    simp only [isHex, Bool.or_eq_true, Bool.and_eq_true, decide_eq_true_eq, Char.le_def,
      UInt32.le_iff_toNat_le] at hex
    have : c.toNat = c.val.toNat := rfl
    have : ('9' : Char).val.toNat = 57 := rfl
    have : ('F' : Char).val.toNat = 70 := rfl
    have : ('f' : Char).val.toNat = 102 := rfl
    omega
  simpa [Lower] using codes c.toNat small (by simpa using hex)

theorem written_of_read {text : String} {i : Identifier} (read : read text = .ok i) : i.Written := by
  unfold Identifier.read at read
  dsimp only at read
  split at read
  · split at read
    · cases read
      intro c mem
      obtain ⟨d, hex, rfl⟩ := List.mem_map.1 mem
      exact lower_lowerHex (List.mem_filter.1 hex).2
    · cases read
  · cases read

theorem lower_of_mem_toDigits {n : Nat} {c : Char} (mem : c ∈ Nat.toDigits 16 n) : Lower c := by
  have lower : ∀ d < 16, Lower (Nat.digitChar d) := by
    unfold Lower
    decide
  induction n using Nat.strongRecOn with
  | ind n ih =>
    rw [Nat.toDigits_eq_if (by decide)] at mem
    split at mem
    · next small => exact List.mem_singleton.1 mem ▸ lower n small
    · next large =>
      rcases List.mem_append.1 mem with front | last
      · exact ih (n / 16) (by omega) front
      · exact List.mem_singleton.1 last ▸ lower (n % 16) (Nat.mod_lt _ (by decide))

theorem written_ofNat (n : Nat) : (ofNat n).Written := by
  have marks : "00000000000040008000".toList =
      List.replicate 12 '0' ++ Nat.toDigits 16 0x40008000 := by decide
  have nought {n : Nat} {c : Char} (mem : c ∈ List.replicate n '0') : Lower c := by
    rw [(List.mem_replicate.1 mem).2, Lower]
    decide
  intro c mem
  rcases List.mem_append.1 mem with fixed | padded
  · rw [marks] at fixed
    exact (List.mem_append.1 fixed).elim nought lower_of_mem_toDigits
  · exact (List.mem_append.1 (List.mem_of_mem_drop padded)).elim nought lower_of_mem_toDigits

/-! ### Groups of digits -/

variable {cs : List Char}

theorem ne_of_isHex {c d : Char} (hex : isHex c = true) (other : isHex d = false) : c ≠ d := by
  rintro rfl
  exact Bool.noConfusion (other.symm.trans hex)

/-- A step of counting the characters of groups. -/
def groupStep (counted : List Nat × Nat) (c : Char) : List Nat × Nat :=
  if c = '-' then (counted.1 ++ [counted.2], 0) else (counted.1, counted.2 + 1)

theorem groups_eq (cs : List Char) :
    groups cs = (cs.foldl groupStep ([], 0)).1 ++ [(cs.foldl groupStep ([], 0)).2] := rfl

theorem foldl_groupStep (digits : ∀ c ∈ cs, isHex c = true) (done : List Nat) (n : Nat) :
    cs.foldl groupStep (done, n) = (done, n + cs.length) := by
  induction cs generalizing n with
  | nil => rfl
  | cons c cs ih =>
    obtain ⟨hex, digits⟩ := List.forall_mem_cons.1 digits
    have step : groupStep (done, n) c = (done, n + 1) := if_neg (ne_of_isHex hex (by decide))
    rw [List.foldl_cons, step, ih digits, List.length_cons]
    congr 1
    omega

theorem foldl_hyphenate {lengths : List Nat} (digits : ∀ c ∈ cs, isHex c = true)
    (whole : lengths.sum = cs.length) (some : lengths ≠ []) (done : List Nat) :
    (hyphenate lengths cs).foldl groupStep (done, 0) =
      (done ++ lengths.dropLast, lengths.getLast some) := by
  fun_induction hyphenate lengths cs generalizing done with
  | case1 => exact absurd rfl some
  | case2 n cs =>
    rw [foldl_groupStep digits]
    simp at whole
    simp [whole]
  | case3 n rest cs more ih =>
    rw [List.sum_cons] at whole
    have front : ∀ c ∈ cs.take n, isHex c = true := fun c mem => digits c (List.mem_of_mem_take mem)
    have back : ∀ c ∈ cs.drop n, isHex c = true := fun c mem => digits c (List.mem_of_mem_drop mem)
    have length : (cs.take n).length = n := by rw [List.length_take]; omega
    have hyphen : groupStep (done, 0 + n) '-' = (done ++ [n], 0) := by simp [groupStep]
    have left : rest.sum = (cs.drop n).length := by rw [List.length_drop]; omega
    rw [List.foldl_append, foldl_groupStep front, length, List.foldl_cons, hyphen,
      ih back left more]
    simp [List.dropLast_cons_of_ne_nil more, List.getLast_cons more]

theorem filter_hyphenate (lengths : List Nat) (digits : ∀ c ∈ cs, isHex c = true) :
    (hyphenate lengths cs).filter isHex = cs := by
  fun_induction hyphenate lengths cs with
  | case1 cs => exact List.filter_eq_self.2 digits
  | case2 n cs => exact List.filter_eq_self.2 digits
  | case3 n rest cs more ih =>
    have front : ∀ c ∈ cs.take n, isHex c = true := fun c mem => digits c (List.mem_of_mem_take mem)
    have back : ∀ c ∈ cs.drop n, isHex c = true := fun c mem => digits c (List.mem_of_mem_drop mem)
    rw [List.filter_append, List.filter_cons_of_neg (by decide), ih back,
      List.filter_eq_self.2 front, List.take_append_drop]

theorem all_hyphenate (lengths : List Nat) (digits : ∀ c ∈ cs, isHex c = true) :
    ∀ c ∈ hyphenate lengths cs, c = '-' ∨ isHex c = true := by
  fun_induction hyphenate lengths cs with
  | case1 cs => exact fun c mem => .inr (digits c mem)
  | case2 n cs => exact fun c mem => .inr (digits c mem)
  | case3 n rest cs more ih =>
    intro c mem
    rcases List.mem_append.1 mem with front | back
    · exact .inr (digits c (List.mem_of_mem_take front))
    · rcases List.mem_cons.1 back with hyphen | back
      · exact .inl hyphen
      · exact ih (fun c mem => digits c (List.mem_of_mem_drop mem)) c back

/-- Neither braces nor a scheme start with a digit. -/
theorem unwrap_of_isHex {c : Char} (hex : isHex c = true) (rest : List Char) :
    unwrap (c :: rest) = (c :: rest, 0, true) := by
  unfold unwrap
  split
  · next same _ => exact absurd (List.cons.inj same).1 (ne_of_isHex hex (by decide))
  · have letters : scheme = ['u', 'r', 'n', ':', 'u', 'u', 'i', 'd', ':'] := by decide
    have other : 'u' ≠ c := (ne_of_isHex hex (by decide)).symm
    have apart : scheme.isPrefixOf (c :: rest) = false := by
      rw [letters, List.isPrefixOf, beq_false_of_ne other, Bool.false_and]
    rw [apart]
    rfl

/-- A written identifier is read back. -/
theorem read_text {i : Identifier} (written : i.Written) : read i.text = .ok i := by
  obtain ⟨digits, length⟩ := i
  have hex : ∀ c ∈ digits, isHex c = true := fun c mem => (written c mem).1
  have lower : digits.map lowerHex = digits :=
    (List.map_congr_left fun c mem => (written c mem).2).trans (List.map_id' _)
  obtain ⟨c, rest, starts⟩ : ∃ c rest, digits = c :: rest := by
    cases digits with
    | nil => cases length
    | cons c rest => exact ⟨c, rest, rfl⟩
  have first : isHex c = true := hex c (by simp [starts])
  have whole : unwrap (hyphenate groupLengths digits) = (hyphenate groupLengths digits, 0, true) := by
    subst starts
    exact unwrap_of_isHex first _
  have counted : groups (hyphenate groupLengths digits) = groupLengths := by
    rw [groups_eq, foldl_hyphenate hex (by rw [length]; rfl) (by decide)]
    rfl
  have taken : ((hyphenate groupLengths digits).filter isHex).map lowerHex = digits := by
    rw [filter_hyphenate _ hex, lower]
  have all : (hyphenate groupLengths digits).all (fun c => c = '-' || isHex c) = true := by
    simpa using all_hyphenate groupLengths hex
  simp only [Identifier.read, text, String.toList_ofList, whole, counted, taken, all]
  rw [dif_pos length]
  rfl

end Identifier

end StackScript
