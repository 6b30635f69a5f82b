import Mathlib.Data.List.TakeWhile
import StackScript.Token.Scan

/-!
# Lexemes divide a text

A reader takes the start of a text and does not look at the rest, but for the character behind a
word or a number, which it has to know to stop there. So the part of the text that a lexeme takes is
read as the same lexeme by itself, and what follows it does not go on with it.

Main statements: `scanString_takes`, `scanDecimal_takes`, `scanPunctuation_longest`, and
`recognize_divides`, which is made of them.
-/
namespace StackScript.Token

/-- What a reader takes from the start of a text: it reads `taken` in the same way whatever
follows. -/
def Takes {α : Type} (read : List Char → Except Fault α) (text taken : List Char) (a : α) : Prop :=
  taken <+: text ∧ ∀ other, read (taken ++ other) = .ok a

/-! ## Characters that end a part -/

theorem takeWhile_before {p : Char → Bool} (text other : List Char) {c : Char} (stops : p c = false) :
    (text.takeWhile p ++ c :: other).takeWhile p = text.takeWhile p := by
  rw [List.takeWhile_append_of_pos fun _ => List.mem_takeWhile_imp,
    List.takeWhile_cons_of_neg (by simp [stops]), List.append_nil]

theorem takeWhile_then {p : Char → Bool} {text : List Char} {c : Char}
    (next : text[(text.takeWhile p).length]? = some c) :
    text.takeWhile p ++ [c] <+: text := by
  have parts := List.takeWhile_append_dropWhile (p := p) (l := text)
  rw [← parts, List.getElem?_append_right (by simp), parts] at next
  rw [Nat.sub_self] at next
  obtain ⟨rest, behind⟩ : ∃ rest, text.dropWhile p = c :: rest := by
    cases here : text.dropWhile p with
    | nil => simp [here] at next
    | cons d rest => exact ⟨rest, by simpa [here] using next⟩
  exact ⟨rest, by rw [List.append_assoc, List.singleton_append, ← behind, parts]⟩

theorem head?_dropWhile {p : Char → Bool} (text : List Char) :
    ∀ c ∈ (text.dropWhile p).head?, p c = false := by
  intro c mem
  have stopped := List.head?_dropWhile_not p text
  rw [Option.mem_def.1 mem] at stopped
  exact stopped

/-! ## Strings -/

theorem scanEscape_takes {text : List Char} {c : Char} {n : Nat}
    (h : scanEscape text = .ok (c, n)) :
    ∃ taken, Takes scanEscape text taken (c, n) ∧ taken.length = n := by
  unfold scanEscape at h
  split at h
  · cases h
  · next a b rest =>
    split at h
    · next hex =>
      cases h
      exact ⟨['x', a, b], ⟨⟨rest, rfl⟩, fun other => by simp [scanEscape, hex]⟩, rfl⟩
    · cases h
  · cases h
  · next rest =>
    dsimp only at h
    split at h
    · next ends =>
      cases h
      obtain ⟨closed, digits⟩ := ends
      refine ⟨'u' :: '\x7b' :: (rest.takeWhile Text.isHexDigit ++ ['\x7d']), ⟨?_, fun other => ?_⟩,
        by simp⟩
      · simpa using takeWhile_then closed
      · have taken := takeWhile_before (p := Text.isHexDigit) rest other (c := '\x7d') (by decide)
        simp only [List.cons_append, List.append_assoc, List.nil_append, scanEscape]
        simp [taken, digits]
    · cases h
  · cases h
  · next ch rest notX notX' notU notU' =>
    split at h
    · next simple =>
      cases h
      refine ⟨[ch], ⟨⟨rest, rfl⟩, fun other => ?_⟩, rfl⟩
      have noHex : ch ≠ 'x' := fun e => by subst e; cases simple
      have noCode : ch ≠ 'u' := fun e => by subst e; cases simple
      simp only [List.singleton_append]
      unfold scanEscape
      split
      · contradiction
      · next eq => cases eq; exact absurd rfl noHex
      · next eq => cases eq; exact absurd rfl noHex
      · next eq => cases eq; exact absurd rfl noCode
      · next eq => cases eq; exact absurd rfl noCode
      · next eq => cases eq; rw [simple]
    · cases h

theorem scanString_takes {text : List Char} {d : Decoded} (h : scanString text = .ok d) :
    ∃ taken, Takes scanString text taken d ∧ taken.length = d.length := by
  fun_induction scanString text generalizing d with
  | case1 => cases h
  | case2 => cases h
  | case3 rest =>
    cases h
    exact ⟨['"'], ⟨⟨rest, rfl⟩, fun other => by simp [scanString]⟩, rfl⟩
  | case4 rest f => cases h
  | case5 rest c n escape f => cases h
  | case6 rest c n escape d' inner ih =>
    cases h
    obtain ⟨mark, ⟨⟨behind, rfl⟩, again⟩, rfl⟩ := scanEscape_takes escape
    rw [List.drop_left] at inner ih
    obtain ⟨taken, ⟨⟨after, rfl⟩, inside⟩, length⟩ := ih inner
    refine ⟨'\\' :: (mark ++ taken), ⟨⟨after, by simp⟩, fun other => ?_⟩, by simp; omega⟩
    rw [List.cons_append, List.append_assoc, scanString, again]
    simp [inside]
  | case7 c rest f => cases h
  | case8 c rest notLine notQuote notEscape d' inner ih =>
    cases h
    obtain ⟨taken, ⟨⟨after, rfl⟩, inside⟩, length⟩ := ih inner
    refine ⟨c :: taken, ⟨⟨after, rfl⟩, fun other => ?_⟩, by simp [length]⟩
    rw [List.cons_append, scanString, inside]
    all_goals assumption

theorem scanRaw_takes {text : List Char} {d : Decoded} (h : scanRaw text = some d) :
    ∃ taken, taken <+: text ∧ (∀ other, scanRaw (taken ++ other) = some d) ∧
      taken.length = d.length := by
  fun_induction scanRaw text generalizing d with
  | case1 => cases h
  | case2 rest =>
    cases h
    exact ⟨['\x60'], ⟨rest, rfl⟩, fun other => rfl, rfl⟩
  | case3 c rest notEnd ih =>
    obtain ⟨inner, read, rfl⟩ := Option.map_eq_some_iff.1 h
    obtain ⟨taken, ⟨after, rfl⟩, again, length⟩ := ih read
    refine ⟨c :: taken, ⟨after, rfl⟩, fun other => ?_, by simp [length]⟩
    rw [List.cons_append, scanRaw, again]
    · rfl
    · assumption

/-! ## Numbers -/

/-- What follows does not go on with a whole number. -/
def EndsInteger (rest : List Char) : Prop := ∀ c ∈ rest.head?, Text.isDigit c = false ∧ c ≠ '_'

theorem scanExponent_takes {text : List Char} (follows : exponentFollows text = true) :
    scanExponent text <+: text ∧ exponentFollows (scanExponent text) = true ∧
      scanExponent (scanExponent text) = scanExponent text := by
  cases text with
  | nil => cases follows
  | cons sign rest =>
    by_cases signed : sign = '+' ∨ sign = '-'
    · cases rest with
      | nil => simp [exponentFollows, signed] at follows
      | cons d rest =>
        have digit : Text.isDigit d = true := by simpa [exponentFollows, signed] using follows
        refine ⟨?_, ?_, ?_⟩
        · simpa [scanExponent, signed] using List.takeWhile_prefix _
        · simp [scanExponent, exponentFollows, signed, digit]
        · simp [scanExponent, signed, digit, List.takeWhile_idem]
    · have digit : Text.isDigit sign = true := by simpa [exponentFollows, signed] using follows
      refine ⟨?_, ?_, ?_⟩
      · simpa [scanExponent, signed] using List.takeWhile_prefix _
      · simp [scanExponent, exponentFollows, signed, digit]
      · simp [scanExponent, signed, digit, List.takeWhile_idem]

theorem scanDecimal_digit (pointSeen : Bool) {text : List Char}
    (digit : (text.head?.map Text.isDigit).getD false = true) :
    0 < (scanDecimal pointSeen text).length := by
  cases text with
  | nil => cases digit
  | cons d rest =>
    rw [scanDecimal, if_pos (by simpa using digit)]
    exact Nat.succ_pos _

/-- A decimal number by itself is read as it is read in front of the rest. Behind a point there is a
digit, so the part that is taken has it too. -/
theorem scanDecimal_takes (pointSeen : Bool) (text : List Char) :
    ∃ taken rest, text = taken ++ rest ∧ taken.length = (scanDecimal pointSeen text).length ∧
      scanDecimal pointSeen taken = scanDecimal pointSeen text ∧
      ((scanDecimal pointSeen text).isFloat = false → EndsInteger rest) := by
  fun_induction scanDecimal pointSeen text with
  | case1 pointSeen => exact ⟨[], [], rfl, rfl, rfl, fun _ => by simp [EndsInteger]⟩
  | case2 pointSeen c rest digit ih =>
    obtain ⟨taken, after, rfl, length, again, ends⟩ := ih
    refine ⟨c :: taken, after, rfl, by simp [Numeral.cons, length], ?_, ends⟩
    rw [scanDecimal, if_pos digit, again]
  | case3 pointSeen rest n notDigit ih =>
    obtain ⟨taken, after, rfl, length, again, ends⟩ := ih
    refine ⟨'_' :: taken, after, rfl, by simpa using length, ?_, ends⟩
    rw [scanDecimal, if_neg notDigit, if_pos rfl, again]
  | case4 pointSeen c rest notDigit notLine point ih =>
    obtain ⟨taken, after, rfl, length, again, ends⟩ := ih
    refine ⟨c :: taken, after, rfl, by simp [Numeral.cons, length], ?_, ends⟩
    have longer : 0 < taken.length := length ▸ scanDecimal_digit true point.2.2
    have first : taken.head? = (taken ++ after).head? := by
      rw [List.head?_append, Option.or_of_isSome (by simpa [List.length_pos_iff] using longer)]
    rw [scanDecimal, if_neg notDigit, if_neg notLine, if_pos ⟨point.1, point.2.1, first ▸ point.2.2⟩,
      again]
  | case5 pointSeen c rest notDigit notLine notPoint mark e =>
    obtain ⟨⟨after, parts⟩, follows, again⟩ := scanExponent_takes mark.2
    refine ⟨c :: e, after, by rw [List.cons_append, parts], rfl, ?_, nofun⟩
    have noPoint : c ≠ '.' := by
      rintro rfl
      exact absurd mark.1 (by decide)
    rw [scanDecimal, if_neg notDigit, if_neg notLine, if_neg (fun h => noPoint h.1),
      if_pos ⟨mark.1, follows⟩, again]
  | case6 pointSeen c rest notDigit notLine notPoint noMark =>
    refine ⟨[], c :: rest, rfl, rfl, rfl, fun _ d mem => ?_⟩
    cases mem
    exact ⟨by simpa using notDigit, notLine⟩

theorem scanRadix_takes {radix : Nat} {mark : Char} {rest : List Char} {l : Lexeme}
    (h : scanRadix radix mark rest = .ok l) :
    ∃ taken after, rest = taken ++ after ∧ l.length = taken.length + 2 ∧ l.tag = .integer ∧
      scanRadix radix mark taken = .ok l ∧ EndsInteger after := by
  unfold scanRadix at h
  dsimp only at h
  split at h
  · next n read =>
    cases h
    refine ⟨_, _, List.takeWhile_append_dropWhile.symm, rfl, rfl, ?_, fun c mem => ?_⟩
    · rw [scanRadix]
      simp only [List.takeWhile_idem, read]
    · have stopped := head?_dropWhile rest c mem
      simp only [Bool.or_eq_false_iff, beq_eq_false_iff_ne, Text.isAsciiAlphanumeric] at stopped
      exact ⟨stopped.2.1.1, stopped.1⟩
  · cases h

theorem scanNumeral_takes {text : List Char} {l : Lexeme} (h : scanNumeral text = .ok l) :
    ∃ taken rest, text = taken ++ rest ∧ l.length = taken.length ∧ scanNumeral taken = .ok l ∧
      (l.tag = .integer ∨ l.tag = .float) ∧ (l.tag = .integer → EndsInteger rest) := by
  obtain ⟨taken, rest, parts, length, again, ends⟩ := scanDecimal_takes false text
  refine ⟨taken, rest, parts, ?_⟩
  rw [scanNumeral, again]
  unfold scanNumeral at h
  dsimp only at h ⊢
  split at h
  · next float =>
    cases h
    exact ⟨length.symm, by rw [if_pos float], .inr rfl, nofun⟩
  · next whole =>
    split at h
    · next read =>
      cases h
      exact ⟨length.symm, by rw [if_neg whole, if_pos read], .inl rfl, fun _ => ends (by simpa using whole)⟩
    · cases h

theorem scanNumber_takes {text : List Char} {l : Lexeme} (h : scanNumber text = .ok l) :
    ∃ taken rest, text = taken ++ rest ∧ l.length = taken.length ∧ scanNumber taken = .ok l ∧
      (l.tag = .integer ∨ l.tag = .float) ∧ (l.tag = .integer → EndsInteger rest) := by
  unfold scanNumber at h
  split at h
  · next mark rest =>
    split at h
    · next radix known =>
      obtain ⟨taken, after, rfl, length, tag, again, ends⟩ := scanRadix_takes h
      exact ⟨'0' :: mark :: taken, after, rfl, length, by simp [scanNumber, known, again], .inl tag,
        fun _ => ends⟩
    · next unknown =>
      obtain ⟨taken, after, parts, length, again, tag, ends⟩ := scanNumeral_takes h
      refine ⟨taken, after, parts, length, ?_, tag, ends⟩
      unfold scanNumber
      split
      · next mark' taken' =>
        cases parts
        rw [unknown]
        exact again
      · exact again
  · next plain =>
    obtain ⟨taken, after, rfl, length, again, tag, ends⟩ := scanNumeral_takes h
    refine ⟨taken, after, rfl, length, ?_, tag, ends⟩
    unfold scanNumber
    split
    · next mark taken' => exact absurd rfl (plain mark (taken' ++ after))
    · exact again

/-! ## Words and punctuation -/

/-- All punctuation: compounds and single marks. -/
def operators : List String := compounds ++ marks.map Char.toString

/-- The longest of the operators that start a text. -/
structure LongestOperator (operator : String) (text : List Char) : Prop where
  mem : operator ∈ operators
  starts : operator.toList <+: text
  longest : ∀ other ∈ operators, other.toList <+: text → other.length ≤ operator.length

theorem length_of_mem_marks {p : String} (h : p ∈ marks.map Char.toString) : p.length = 1 := by
  obtain ⟨c, -, rfl⟩ := List.mem_map.1 h
  simp

/-- No compound starts a longer one. -/
theorem compounds_free : ∀ p ∈ compounds, ∀ q ∈ compounds, p.toList <+: q.toList →
    q.length ≤ p.length := by decide

theorem compounds_long : ∀ p ∈ compounds, 1 < p.length := by decide

theorem find?_compound : ∀ p ∈ compounds,
    compounds.find? (fun q => q.toList.isPrefixOf p.toList) = some p := by decide

theorem scanPunctuation_longest {text : List Char} {l : Lexeme}
    (h : scanPunctuation text = .ok l) :
    LongestOperator l.spelling text ∧ l.length = l.spelling.length ∧ l.tag = .punctuation ∧
      scanPunctuation l.spelling.toList = .ok l := by
  unfold scanPunctuation at h
  split at h
  · next p found =>
    cases h
    have starts : p.toList <+: text := by
      simpa using List.find?_some found
    have mem := List.mem_of_find?_eq_some found
    refine ⟨⟨List.mem_append_left _ mem, starts, fun q some here => ?_⟩, rfl, rfl, ?_⟩
    · rcases List.mem_append.1 some with compound | mark
      · by_contra longer
        have longer : p.length < q.length := Nat.lt_of_not_le longer
        have within : p.toList <+: q.toList :=
          List.prefix_of_prefix_length_le starts here (by simpa only [String.length_toList] using longer.le)
        exact longer.not_ge (compounds_free p mem q compound within)
      · rw [length_of_mem_marks mark]
        exact (compounds_long p mem).le
    · simp only [scanPunctuation, find?_compound p mem]
  · next noCompound =>
    split at h
    · next c rest =>
      split at h
      · next mark =>
        cases h
        have alone : compounds.find? (fun q => q.toList.isPrefixOf [c]) = none := by
          refine List.find?_eq_none.2 fun q mem starts => ?_
          have short := (List.isPrefixOf_iff_prefix.1 starts).length_le
          have long := compounds_long q mem
          simp only [String.length_toList, List.length_singleton] at short
          omega
        refine ⟨⟨List.mem_append_right _ (List.mem_map.2 ⟨c, by simpa using mark, rfl⟩), by simp,
          fun q some here => ?_⟩, by simp, rfl, ?_⟩
        · rcases List.mem_append.1 some with compound | mark
          · exact absurd (List.isPrefixOf_iff_prefix.2 here) (List.find?_eq_none.1 noCompound q compound)
          · rw [length_of_mem_marks mark]
            simp
        · simp only [scanPunctuation, Char.toString, String.toList_singleton, alone, mark, if_true]
      · cases h
    · cases h

theorem operators_ne_empty : ∀ p ∈ operators, p.toList ≠ [] := by decide

theorem isWordPart_of_startsWord {c : Char} (starts : startsWord c = true) : isWordPart c = true := by
  simp only [startsWord, Bool.or_eq_true] at starts
  simp only [isWordPart, Text.isAlphanumeric, Bool.or_eq_true]
  exact starts.imp_left (·.imp_left .inl)

theorem scanWord_tag (text : List Char) :
    (scanWord text).tag = .identifier ∨ (scanWord text).tag = .boolean ∨
      (scanWord text).tag = .reserved := by
  simp only [scanWord, wordClass]
  split
  · exact .inr (.inl rfl)
  · split
    · exact .inr (.inr rfl)
    · exact .inl rfl

theorem scanWord_takes {c : Char} (rest : List Char) (starts : startsWord c = true) :
    ∃ taken after, rest = taken ++ after ∧ (scanWord (c :: rest)).length = (c :: taken).length ∧
      scanWord (c :: taken) = scanWord (c :: rest) ∧
      (scanWord (c :: rest)).spelling.toList = c :: taken ∧
      ∀ d ∈ after.head?, isWordPart d = false := by
  have inside := isWordPart_of_startsWord starts
  refine ⟨_, _, List.takeWhile_append_dropWhile.symm, ?_, ?_, ?_, head?_dropWhile rest⟩
  · simp [scanWord, inside]
  · simp [scanWord, inside, List.takeWhile_idem]
  · simp [scanWord, inside]

/-! ## Lexemes -/

/-- What a lexeme spells and what may stand behind it, by its class. -/
def Lexeme.Delimited (l : Lexeme) (taken rest : List Char) : Prop :=
  match l.tag with
  | .punctuation => l.spelling.toList = taken ∧ LongestOperator l.spelling (taken ++ rest)
  | .identifier | .boolean | .reserved =>
    l.spelling.toList = taken ∧ ∀ c ∈ rest.head?, isWordPart c = false
  | .integer => EndsInteger rest
  | .float | .string => True
  | .endOfInput => False

/-- A text is divided into a lexeme and what follows it. -/
structure Lexeme.Divides (l : Lexeme) (taken rest : List Char) : Prop where
  length : l.length = taken.length
  /-- By itself, the text of the lexeme is read as the same lexeme. -/
  alone : recognize taken = .ok l
  delimited : l.Delimited taken rest

theorem recognize_string {rest : List Char} {d : Decoded} (h : scanString rest = .ok d) :
    recognize ('"' :: rest) = .ok ⟨d.length + 1, String.ofList d.value, .string⟩ := by
  rw [recognize, h]
  rfl

theorem recognize_raw {rest : List Char} {d : Decoded} (h : scanRaw rest = some d) :
    recognize ('\x60' :: rest) = .ok ⟨d.length + 1, String.ofList d.value, .string⟩ := by
  rw [recognize, h]

/-- Whether a number starts a text. -/
def startsNumber : List Char → Bool
  | [] => false
  | c :: rest => Text.isDigit c || (c == '.' && (rest.head?.map Text.isDigit).getD false)

theorem recognize_other {c : Char} {rest : List Char} (notQuote : c ≠ '"') (notRaw : c ≠ '\x60') :
    recognize (c :: rest) = if startsNumber (c :: rest) then scanNumber (c :: rest)
      else if startsWord c then .ok (scanWord (c :: rest)) else scanPunctuation (c :: rest) := by
  unfold recognize
  split
  · contradiction
  · next eq => cases eq; contradiction
  · next eq => cases eq; contradiction
  · next eq =>
    cases eq
    by_cases digit : Text.isDigit c = true
    · simp [startsNumber, digit]
    · simp only [startsNumber, digit, Bool.or_eq_true, Bool.and_eq_true, beq_iff_eq,
        Bool.false_eq_true, false_or, if_false]

theorem scanNumber_nil (l : Lexeme) : scanNumber [] ≠ .ok l := by
  simp [scanNumber, scanNumeral, scanDecimal, Decimal.readInt64, Decimal.readInteger]

theorem scanNumber_point (l : Lexeme) : scanNumber ['.'] ≠ .ok l := by
  simp [scanNumber, scanNumeral, scanDecimal, Decimal.readInt64, Decimal.readInteger, Text.isDigit]

/-- What is read as a number starts like one. -/
theorem startsNumber_left {taken rest : List Char} {l : Lexeme} (read : scanNumber taken = .ok l)
    (starts : startsNumber (taken ++ rest) = true) : startsNumber taken = true := by
  cases taken with
  | nil => exact absurd read (scanNumber_nil l)
  | cons c taken =>
    cases taken with
    | nil =>
      by_cases point : c = '.'
      · exact absurd (point ▸ read) (scanNumber_point l)
      · simpa [startsNumber, point] using starts
    | cons d taken => simpa [startsNumber] using starts

/-- What starts like a number goes on doing so. -/
theorem startsNumber_append {taken : List Char} (starts : startsNumber taken = true)
    (rest : List Char) : startsNumber (taken ++ rest) = true := by
  cases taken with
  | nil => cases starts
  | cons c taken =>
    cases taken with
    | nil => simp_all [startsNumber]
    | cons d taken => exact starts

/-- **What is recognised is a part of the text that stands for itself.** -/
theorem recognize_divides {text : List Char} {l : Lexeme} (h : recognize text = .ok l) :
    ∃ taken rest, text = taken ++ rest ∧ l.Divides taken rest := by
  cases text with
  | nil => cases h
  | cons c rest =>
    by_cases quote : c = '"'
    · subst quote
      cases read : scanString rest with
      | error f => rw [recognize, read] at h; cases h
      | ok d =>
        rw [recognize_string read] at h
        cases h
        obtain ⟨taken, ⟨⟨after, rfl⟩, again⟩, length⟩ := scanString_takes read
        have again : scanString taken = .ok d := by simpa using again []
        exact ⟨'"' :: taken, after, rfl, by simp [length], recognize_string again, trivial⟩
    · by_cases raw : c = '\x60'
      · subst raw
        cases read : scanRaw rest with
        | none => rw [recognize, read] at h; cases h
        | some d =>
          rw [recognize_raw read] at h
          cases h
          obtain ⟨taken, ⟨after, rfl⟩, again, length⟩ := scanRaw_takes read
          have again : scanRaw taken = some d := by simpa using again []
          exact ⟨'\x60' :: taken, after, rfl, by simp [length], recognize_raw again, trivial⟩
      · rw [recognize_other quote raw] at h
        split at h
        · next number =>
          obtain ⟨taken, after, parts, length, again, tag, ends⟩ := scanNumber_takes h
          have starts : startsNumber taken = true := startsNumber_left again (parts ▸ number)
          have first : ∃ behind, taken = c :: behind := by
            rcases List.cons_eq_append_iff.1 parts with ⟨rfl, -⟩ | ⟨behind, rfl, -⟩
            · cases starts
            · exact ⟨behind, rfl⟩
          obtain ⟨behind, rfl⟩ := first
          refine ⟨c :: behind, after, parts, length, ?_, ?_⟩
          · rw [recognize_other quote raw, if_pos starts, again]
          · rcases tag with tag | tag <;> simp only [Lexeme.Delimited, tag]
            exact ends tag
        · next noNumber =>
          have alone {taken after : List Char} (parts : rest = taken ++ after) :
              ¬startsNumber (c :: taken) = true := fun starts =>
            noNumber (parts ▸ startsNumber_append starts after)
          split at h
          · next word =>
            cases h
            obtain ⟨taken, after, parts, length, again, spelled, ends⟩ := scanWord_takes rest word
            refine ⟨c :: taken, after, by rw [parts]; rfl, length, ?_, ?_⟩
            · rw [recognize_other quote raw, if_neg (alone parts), if_pos word, again]
            · rcases scanWord_tag (c :: rest) with tag | tag | tag <;>
                simpa only [Lexeme.Delimited, tag] using ⟨spelled, ends⟩
          · next noWord =>
            obtain ⟨longest, length, tag, again⟩ := scanPunctuation_longest h
            obtain ⟨after, parts⟩ := longest.starts
            rcases List.append_eq_cons_iff.1 parts with ⟨none, -⟩ | ⟨behind, spelled, split⟩
            · exact absurd none (operators_ne_empty _ longest.mem)
            · refine ⟨c :: behind, after, by rw [← spelled, parts], ?_, ?_, ?_⟩
              · rw [length, ← String.length_toList, spelled]
              · rw [recognize_other quote raw, if_neg (alone split), if_neg noWord, ← spelled, again]
              · simp only [Lexeme.Delimited, tag]
                exact ⟨spelled, by rw [← spelled, parts]; exact longest⟩

/-!
## Scanning partitions the source

A source is made of the texts of its tokens and the gaps between them, in order. The scan knows a
place by its line and column, which are those of the text before it; every token stands at its own,
and where no token starts, the scan fails at that place.

Main statements: `gapLength_divides`, `scanFrom_pieces` (by induction on the scan) and
`scan_partitions`.
-/

/-! ## Gaps -/

/-- What may stand between tokens: blanks, and comments up to the ends of their lines. -/
inductive Gap : List Char → Prop
  | nil : Gap []
  | blank {c : Char} {rest : List Char} (separates : isGap c = true) (behind : Gap rest) :
    Gap (c :: rest)
  | comment {body rest : List Char} (oneLine : '\n' ∉ body) (behind : Gap rest) :
    Gap ('/' :: '/' :: (body ++ '\n' :: rest))

theorem commentLength_divides (text : List Char) : ∃ body rest, text = body ++ rest ∧
    body.length = commentLength text ∧ '\n' ∉ body ∧ (rest = [] ∨ ∃ more, rest = '\n' :: more) := by
  induction text with
  | nil => exact ⟨[], [], rfl, rfl, by simp, .inl rfl⟩
  | cons c text ih =>
    by_cases line : c = '\n'
    · exact ⟨[], c :: text, rfl, by simp [commentLength, line], by simp, .inr ⟨text, by rw [line]⟩⟩
    · obtain ⟨body, rest, rfl, length, oneLine, ends⟩ := ih
      exact ⟨c :: body, rest, rfl, by simp [commentLength, line, length],
        by simp [Ne.symm line, oneLine], ends⟩

theorem gapLength_line (rest : List Char) : gapLength ('\n' :: rest) = gapLength rest + 1 := by
  rw [gapLength]
  · rfl
  · simp

/-- Behind a line feed a gap goes on as one. -/
theorem Gap.of_line {rest : List Char} (h : Gap ('\n' :: rest)) : Gap rest := by
  cases h
  assumption

theorem Gap.append {first second : List Char} (h : Gap first) (k : Gap second) :
    Gap (first ++ second) := by
  induction h with
  | nil => exact k
  | blank separates _ ih => exact .blank separates ih
  | comment oneLine _ ih => simpa using .comment oneLine ih

/-- A gap ends before something that is no gap, or with the text; there a comment's line need not
have been ended. -/
theorem gapLength_divides (text : List Char) : ∃ gap rest, text = gap ++ rest ∧
    gap.length = gapLength text ∧ (Gap gap ∨ rest = [] ∧ Gap (gap ++ ['\n'])) := by
  fun_induction gapLength text with
  | case1 => exact ⟨[], [], rfl, rfl, .inl .nil⟩
  | case2 rest comment ih =>
    obtain ⟨body, behind, parts, length, oneLine, ends⟩ := commentLength_divides rest
    have after : rest.drop comment = behind := by
      rw [parts, show comment = body.length from length.symm, List.drop_left]
    rw [after] at ih
    rcases ends with rfl | ⟨more, rfl⟩
    · refine ⟨'/' :: '/' :: body, [], by rw [parts]; simp, ?_, .inr ⟨rfl, .comment oneLine .nil⟩⟩
      simp [after, length, comment, gapLength]
    · obtain ⟨gap, next, parts', length', ends⟩ := ih
      rcases List.cons_eq_append_iff.1 parts' with ⟨rfl, -⟩ | ⟨gap, rfl, rfl⟩
      · rw [gapLength_line] at length'
        cases length'
      · refine ⟨'/' :: '/' :: (body ++ '\n' :: gap), next, by rw [parts]; simp, ?_, ?_⟩
        · simp only [after, ← length', List.length_cons, List.length_append, length]
          omega
        · exact ends.imp (fun gap => .comment oneLine gap.of_line)
            (.imp_right fun gap => by simpa using .comment oneLine gap.of_line)
  | case3 c rest notComment blank ih =>
    obtain ⟨gap, behind, rfl, length, ends⟩ := ih
    exact ⟨c :: gap, behind, rfl, by simp [length], ends.imp (.blank blank) (.imp_right (.blank blank))⟩
  | case4 c rest notComment noBlank => exact ⟨[], c :: rest, rfl, rfl, .inl .nil⟩

/-! ## Positions -/

/-- The characters behind the last line feed of a text. -/
def lastLine (text : List Char) : List Char := (text.reverse.takeWhile (· != '\n')).reverse

/-- The place behind a text. -/
def Position.behind (text : List Char) : Position :=
  ⟨text.count '\n' + 1, (lastLine text).length + 1⟩

theorem Position.behind_after (text : List Char) (c : Char) :
    (behind text).after c = behind (text ++ [c]) := by
  unfold after behind
  split
  · next line => simp [lastLine, line]
  · next noLine => simp [lastLine, noLine]

theorem Position.behind_advance (before taken rest : List Char) :
    (behind before).advance taken.length (taken ++ rest) = behind (before ++ taken) := by
  induction taken generalizing before with
  | nil => simp [advance]
  | cons c taken ih => rw [List.cons_append, List.length_cons, advance, behind_after, ih]; simp

/-! ## Pieces -/

/-- A token with its text and the gap before it. -/
structure Piece where
  gap : List Char
  text : List Char
  token : Token

namespace Piece

/-- The part of the source that a piece is. -/
def chars (p : Piece) : List Char := p.gap ++ p.text

/-- The lexeme that is read as the token of a piece. -/
def lexeme (p : Piece) : Lexeme := ⟨p.text.length, p.token.spelling, p.token.tag⟩

/-- A piece stands between two parts of the source. -/
structure Fits (p : Piece) (before after : List Char) : Prop where
  gap : Gap p.gap
  nonempty : p.text ≠ []
  line : p.token.line = (before ++ p.gap).count '\n' + 1
  column : p.token.column = (lastLine (before ++ p.gap)).length + 1
  /-- By itself, the text of the token is read as the same token. -/
  alone : recognize p.text = .ok p.lexeme
  delimited : p.lexeme.Delimited p.text after

end Piece

/-- The parts of the source that pieces are. -/
def Piece.joined (pieces : List Piece) : List Char := pieces.flatMap chars

/-- Where a scan ends: in a gap that the end of the text closes, or before a text that no token
starts, at which it fails. -/
def Scan.Ends (fault : Option Fault) (before rest : List Char) : Prop :=
  match fault with
  | none => Gap (rest ++ ['\n'])
  | some f => ∃ gap text cause, rest = gap ++ text ∧ Gap gap ∧ text ≠ [] ∧
    recognize text = .error cause ∧
    f = cause.positioned ((before ++ gap).count '\n' + 1) ((lastLine (before ++ gap)).length + 1)

@[simp] theorem Piece.joined_cons (p : Piece) (pieces : List Piece) :
    joined (p :: pieces) = p.chars ++ joined pieces := rfl

/-- What is no gap to the end goes on behind one. -/
theorem gap_before {text : List Char} (more : ¬text.length ≤ gapLength text) :
    ∃ gap, text = gap ++ text.drop (gapLength text) ∧ gap.length = gapLength text ∧ Gap gap ∧
      text.drop (gapLength text) ≠ [] := by
  obtain ⟨gap, rest, parts, length, ends⟩ := gapLength_divides text
  have behind : text.drop (gapLength text) = rest := by rw [← length, parts, List.drop_left]
  have some : rest ≠ [] := by
    rintro rfl
    rw [List.append_nil] at parts
    exact more (by rw [← length, parts])
  exact ⟨gap, behind ▸ parts, length, ends.resolve_right fun h => some h.1, behind ▸ some⟩

/-- A scan from behind some text divides the rest. Each piece fits between all that is before it,
which the scan knows only as a place, and all that is behind it. -/
theorem scanFrom_pieces (before text : List Char) : ∃ pieces rest,
    text = Piece.joined pieces ++ rest ∧
    (scanFrom (.behind before) text).tokens = pieces.map Piece.token ∧
    (∀ front p back, pieces = front ++ p :: back →
      p.Fits (before ++ Piece.joined front) (Piece.joined back ++ rest)) ∧
    Scan.Ends (scanFrom (.behind before) text).fault (before ++ Piece.joined pieces) rest := by
  generalize here : Position.behind before = position
  fun_induction scanFrom position text generalizing before with
  | case1 position text gap all =>
    refine ⟨[], text, rfl, rfl, by simp, ?_⟩
    obtain ⟨gap, rest, parts, length, ends⟩ := gapLength_divides text
    have none : rest = [] := by
      have total := congrArg List.length parts
      rw [List.length_append] at total
      exact List.eq_nil_of_length_eq_zero (by omega)
    rw [none, List.append_nil] at parts
    rw [parts]
    exact ends.elim (·.append (.blank rfl .nil)) And.right
  | case2 position text gap more start rest f failed =>
    obtain ⟨gap, parts, length, isGap, some⟩ := gap_before more
    refine ⟨[], text, rfl, rfl, by simp, gap, rest, f, parts, isGap, some, failed, ?_⟩
    have place : start = .behind (before ++ gap) := by
      rw [← Position.behind_advance before gap rest, ← parts, length, here]
    simp [place, Position.behind, Piece.joined]
  | case3 position text gap more start rest lexeme read taken scan ih =>
    obtain ⟨gap, parts, length, isGap, some⟩ := gap_before more
    obtain ⟨own, behind, split, divides⟩ := recognize_divides read
    have place : start = .behind (before ++ gap) := by
      rw [← Position.behind_advance before gap rest, ← parts, length, here]
    have nonempty : own ≠ [] := by
      rintro rfl
      exact nomatch divides.alone
    have wide : taken = own.length := by
      have := List.length_pos_iff.2 nonempty
      have := divides.length
      omega
    have next : start.advance taken rest = .behind (before ++ gap ++ own) := by
      rw [place, wide, split, Position.behind_advance]
    have after : rest.drop taken = behind := by rw [wide, split, List.drop_left]
    obtain ⟨pieces, final, parts', tokens, fits, ends⟩ := ih _ next.symm
    rw [after] at parts'
    let piece : Piece := ⟨gap, own, lexeme.spelling, lexeme.tag, start.line, start.column⟩
    refine ⟨piece :: pieces, final, ?_, ?_, ?_, ?_⟩
    · rw [Piece.joined_cons, List.append_assoc, ← parts']
      simpa [Piece.chars, piece, ← split] using parts
    · simpa [piece] using tokens
    · intro first p back division
      rcases List.cons_eq_append_iff.1 division with ⟨rfl, same⟩ | ⟨first, rfl, same⟩
      · cases same
        rw [← parts']
        refine ⟨isGap, nonempty, ?_, ?_, ?_, ?_⟩
        · simp [piece, place, Position.behind, Piece.joined]
        · simp [piece, place, Position.behind, Piece.joined]
        · simpa [piece, Piece.lexeme, ← divides.length] using divides.alone
        · exact divides.delimited
      · simpa [Piece.chars, piece] using fits first p back same
    · simpa [Piece.chars, piece] using ends

/-- **Scanning partitions the source.** The source is the texts of the tokens with the gaps before
them, in order, and a rest. Every token has a text of its own, which is not empty and is read as that
token by itself, its line and column are counted from the text before it, its punctuation is the
longest there, and no word or whole number is cut short. Without a fault the rest is a gap, and a
fault stands where no token starts. -/
theorem scan_partitions (source : String) : ∃ pieces rest,
    source.toList = Piece.joined pieces ++ rest ∧
    (scan source).tokens = pieces.map Piece.token ∧
    (∀ front p back, pieces = front ++ p :: back →
      p.Fits (Piece.joined front) (Piece.joined back ++ rest)) ∧
    Scan.Ends (scan source).fault (Piece.joined pieces) rest := by
  have here : scan source = scanFrom (.behind []) source.toList := rfl
  simpa only [here, List.nil_append] using scanFrom_pieces [] source.toList

end StackScript.Token
