import Mathlib.Tactic.ByContra
import StackScript.Proofs.Expressions.Syntax
import StackScript.Proofs.Scanning.Lexemes
import StackScript.Ty

/-!
# The words of types

The text of a type that is built from the builtin types, without names of its own, and the tokens
that it is scanned as. No mark in it joins with the one behind it, and no word with the next.

Main statement: `scan_display`, which follows from `Ty.Built.scans` by induction on the type.
-/
namespace StackScript

/-! ## Texts before others -/

namespace Token

/-- Tokens before those of a scan. -/
def Scan.behind (ts : List Token) (s : Scan) : Scan := { s with tokens := ts ++ s.tokens }

/-- A text that is scanned as certain words, whatever its place, in front of another text. -/
def Scans (text : List Char) (words : List Word) (rest : List Char) : Prop :=
  ∀ position, ∃ ts place, ts.map Token.word = words ∧
    scanFrom position (text ++ rest) = (scanFrom place rest).behind ts

/-- A text does not go on as a word. -/
def EndsWord (rest : List Char) : Prop := ∀ c ∈ rest.head?, isWordPart c = false

theorem Scans.append {text more rest : List Char} {words others : List Word}
    (first : Scans text words (more ++ rest)) (second : Scans more others rest) :
    Scans (text ++ more) (words ++ others) rest := by
  intro position
  obtain ⟨ts, place, rfl, scanned⟩ := first position
  obtain ⟨us, place', rfl, scanned'⟩ := second place
  refine ⟨ts ++ us, place', by simp, ?_⟩
  rw [List.append_assoc, scanned, scanned']
  simp [Scan.behind]

/-- A lexeme that is recognised in front of a text. -/
theorem Scans.of_recognize {text rest : List Char} {l : Lexeme}
    (noGap : gapLength (text ++ rest) = 0) (some : text ≠ [])
    (read : recognize (text ++ rest) = .ok l) (length : l.length = text.length) :
    Scans text [(l.tag, l.spelling)] rest := by
  intro position
  have long : 0 < text.length := List.length_pos_iff.2 some
  have taken : max l.length 1 = text.length := by omega
  refine ⟨[⟨l.spelling, l.tag, position.line, position.column⟩],
    position.advance text.length (text ++ rest), rfl, ?_⟩
  conv_lhs => rw [scanFrom]
  simp only [noGap, List.drop_zero, read, taken, Position.advance, List.drop_left]
  rw [dif_neg (by rw [List.length_append]; omega)]
  rfl

theorem gapLength_none {c : Char} (rest : List Char) (noGap : isGap c = false)
    (noComment : c ≠ '/') :
    gapLength (c :: rest) = 0 := by
  rw [gapLength]
  · simp [noGap]
  · simp [noComment]

theorem not_isDigit_of_startsWord {c : Char} (h : startsWord c = true) :
    Text.isDigit c = false := by
  by_contra digit
  have code : c.toNat ∈ List.range' 48 10 := by
    simp only [Text.isDigit, Bool.not_eq_false, Bool.and_eq_true, decide_eq_true_eq, Char.le_def,
      UInt32.le_iff_toNat_le] at digit
    simp only [List.mem_range'_1]
    exact ⟨digit.1, Nat.lt_succ_of_le digit.2⟩
  have none : ∀ n ∈ List.range' 48 10, startsWord (Char.ofNat n) = false := by decide +kernel
  have := none _ code
  rw [Char.ofNat_toNat, h] at this
  cases this

/-- A word that ends where the text behind it starts. -/
theorem Scans.word {word : String} {c : Char} {rest : List Char}
    (starts : word.toList.head? = some c) (first : startsWord c = true)
    (inside : word.toList.all isWordPart) (ends : EndsWord rest) :
    Scans word.toList [(wordClass word, word)] rest := by
  obtain ⟨more, text⟩ : ∃ more, word.toList = c :: more := by
    cases text : word.toList with
    | nil => simp [text] at starts
    | cons d more =>
      obtain rfl : d = c := by simpa [text] using starts
      exact ⟨more, rfl⟩
  have other (d : Char) (no : startsWord d = false) : c ≠ d := by
    rintro rfl
    rw [first] at no
    cases no
  have noGap : isGap c = false := by
    simp [isGap, other ' ' (by decide), other '\t' (by decide), other '\r' (by decide),
      other '\n' (by decide)]
  have noNumber : startsNumber (word.toList ++ rest) = false := by
    simp [text, startsNumber, not_isDigit_of_startsWord first, other '.' (by decide)]
  have taken : (word.toList ++ rest).takeWhile isWordPart = word.toList := by
    rw [List.takeWhile_append_of_pos (List.all_eq_true.1 inside)]
    cases rest with
    | nil => simp
    | cons d rest => simp [ends d rfl]
  have read : recognize (word.toList ++ rest) =
      .ok ⟨word.toList.length, word, wordClass word⟩ := by
    rw [text, List.cons_append, recognize_other (other '"' (by decide)) (other '\x60' (by decide)),
      ← List.cons_append, ← text, noNumber, if_neg Bool.false_ne_true, if_pos first, scanWord]
    simp only [taken, String.ofList_toList]
  refine .of_recognize ?_ (by simp [text]) read rfl
  rw [text]
  exact gapLength_none _ noGap (other '/' (by decide))

/-- The marks in the texts of types. -/
def typeMarks : List Char := ['[', ']', '\x7b', '\x7d', ';', '*', '.']

theorem typeMarks_plain : ∀ c ∈ typeMarks, c ∈ marks ∧ isGap c = false ∧ startsWord c = false ∧
    c ≠ '/' ∧ c ≠ '"' ∧ c ≠ '\x60' := by
  simp only [typeMarks, List.forall_mem_cons, List.not_mem_nil, false_implies, implies_true,
    and_true]
  decide

/-- A mark that does not join with what stands behind it. -/
theorem Scans.mark {c : Char} {rest : List Char} (mem : c ∈ typeMarks)
    (noNumber : startsNumber (c :: rest) = false)
    (apart : ∀ p ∈ compounds, p.toList.head? = some c → p.toList[1]? ≠ rest.head?) :
    Scans [c] [StackScript.mark c.toString] rest := by
  obtain ⟨mark, noGap, noStart, noDivision, noQuote, noRaw⟩ := typeMarks_plain c mem
  have alone : compounds.find? (fun p => p.toList.isPrefixOf (c :: rest)) = none := by
    rw [List.find?_eq_none]
    intro p compound starts
    have long := compounds_long p compound
    obtain ⟨more, joined⟩ := List.isPrefixOf_iff_prefix.1 starts
    match text : p.toList with
    | [] => simp [← String.length_toList, text] at long
    | [d] => simp [← String.length_toList, text] at long
    | d :: e :: others =>
      rw [text] at joined
      obtain ⟨rfl, rfl⟩ := List.cons.inj joined
      exact apart p compound (by simp [text]) (by simp [text])
  have read : recognize ([c] ++ rest) = .ok ⟨1, c.toString, .punctuation⟩ := by
    rw [List.singleton_append, recognize_other noQuote noRaw, noNumber, if_neg Bool.false_ne_true,
      noStart, if_neg Bool.false_ne_true]
    simp [scanPunctuation, alone, mark]
  exact .of_recognize (gapLength_none rest noGap noDivision) (by simp) read rfl

/-- A mark that joins with nothing. -/
theorem Scans.lone {c : Char} (mem : c ∈ ['[', ']', '\x7b', '\x7d', ';']) (rest : List Char) :
    Scans [c] [StackScript.mark c.toString] rest := by
  have mark : c ∈ typeMarks := List.mem_append_left ['*', '.'] mem
  have alone : ∀ p ∈ compounds, p.toList.head? ≠ some c := by
    simp only [List.mem_cons, List.not_mem_nil, or_false] at mem
    rcases mem with rfl | rfl | rfl | rfl | rfl <;> decide
  refine .mark mark ?_ fun p compound starts => absurd starts (alone p compound)
  simp only [List.mem_cons, List.not_mem_nil, or_false] at mem
  rcases mem with rfl | rfl | rfl | rfl | rfl <;> rfl

/-- A blank is no word. -/
theorem Scans.blank (rest : List Char) : Scans [' '] [] rest := by
  intro position
  refine ⟨[], position.after ' ', rfl, ?_⟩
  have gap : gapLength (' ' :: rest) = gapLength rest + 1 := by
    rw [gapLength]
    · rfl
    · simp
  conv_lhs => rw [scanFrom]
  conv_rhs => rw [scanFrom]
  simp [gap, Position.advance, Scan.behind]

end Token

/-! ## Types -/

/-- A name that is no reserved word. -/
structure Token.Names (name : String) : Prop where
  starts : ∃ c ∈ name.toList.head?, startsWord c = true
  inside : name.toList.all isWordPart
  free : wordClass name = .identifier

namespace Ty

/-- The kinds of the types without parts. -/
def builtinKinds : List Kind :=
  [.bool, .byte, .int, .int32, .int64, .float32, .float64, .string, .error, .interface, .waitGroup,
   .mutex]

/-- Types that are built from the builtin ones, and have no names of their own. -/
inductive Built : Ty → Prop
  | plain {k : Kind} (builtin : k ∈ builtinKinds) : Built (.plain k)
  | array {e : Ty} (element : Built e) : Built (.array e)
  | pointer {e : Ty} (target : Built e) : Built (.pointer e)
  | channel {e : Ty} (element : Built e) : Built (.channel e)
  | map {k v : Ty} (key : Built k) (value : Built v) : Built (.map k v)
  | struct {fields : List (String × Ty)} (distinct : (fields.map Prod.fst).Nodup)
      (named : ∀ f ∈ fields, Token.Names f.1) (types : ∀ f ∈ fields, Built f.2) :
      Built (.struct fields)

/-- A reserved word. -/
def keyword (text : String) : Word := (.reserved, text)

mutual
/-- The words of a type. -/
def words : Ty → List Word
  | plain .interface => [keyword "interface", mark "\x7b", mark "\x7d"]
  | plain .waitGroup => [(.identifier, "sync"), mark ".", (.identifier, "WaitGroup")]
  | plain .mutex => [(.identifier, "sync"), mark ".", (.identifier, "Mutex")]
  | plain k => [(.identifier, k.name)]
  | array e => [mark "[", mark "]"] ++ words e
  | pointer e => [mark "*"] ++ words e
  | channel e => [keyword "chan"] ++ words e
  | map k v => [keyword "map", mark "["] ++ (words k ++ ([mark "]"] ++ words v))
  | struct fs => [keyword "struct", mark "\x7b"] ++ (fieldWords fs ++ [mark "\x7d"])
  | named n _ => [(.identifier, n)]

/-- The words of the fields of a struct type. -/
def fieldWords : List (String × Ty) → List Word
  | [] => []
  | [(n, t)] => [(.identifier, n)] ++ words t
  | (n, t) :: rest => [(.identifier, n)] ++ (words t ++ ([mark ";"] ++ fieldWords rest))
end

variable {t : Ty} {rest : List Char}

open Token (Scans EndsWord Names)

/-- No text of a type joins with a star in front of it. -/
theorem Built.head (h : Built t) : ∃ c, t.display.toList.head? = some c ∧ c ≠ '=' := by
  cases h with
  | @plain k builtin =>
    simp only [builtinKinds, List.mem_cons, List.not_mem_nil, or_false] at builtin
    rcases builtin with rfl | rfl | rfl | rfl | rfl | rfl | rfl | rfl | rfl | rfl | rfl | rfl <;>
      exact ⟨_, rfl, by decide⟩
  | array | pointer | channel | map | struct => simp [display]

theorem scans_brackets (rest : List Char) : Scans ['[', ']'] [mark "[", mark "]"] rest :=
  have opening : Scans ['['] [mark "["] ([']'] ++ rest) := .lone (by decide) _
  opening.append (.lone (by decide) rest)

theorem scans_braces (rest : List Char) :
    Scans ['\x7b', '\x7d'] [mark "\x7b", mark "\x7d"] rest :=
  have opening : Scans ['\x7b'] [mark "\x7b"] (['\x7d'] ++ rest) := .lone (by decide) _
  opening.append (.lone (by decide) rest)

/-- A name of a package before one of its types. -/
theorem scans_sync {c : Char} {more : List Char} (name : String) (text : name.toList = c :: more)
    (first : Token.startsWord c = true) (inside : name.toList.all Token.isWordPart)
    (ends : EndsWord rest) :
    Scans ("sync".toList ++ (['.'] ++ name.toList))
      [(.identifier, "sync"), mark ".", (Token.wordClass name, name)] rest := by
  have word := Scans.word (by rw [text]; rfl) first inside ends
  have noPoint : c ≠ '.' := by
    rintro rfl
    cases first
  have point : Scans ['.'] [mark "."] (name.toList ++ rest) := by
    refine .mark (by decide) ?_ fun p compound starts => ?_
    · simp [Token.startsNumber, text, Token.not_isDigit_of_startsWord first]
      decide
    · have points : ∀ p ∈ Token.compounds, p.toList.head? = some '.' → p.toList[1]? = some '.' := by
        decide
      rw [points p compound starts, text]
      simpa using Ne.symm noPoint
  have package : Scans "sync".toList [(.identifier, "sync")] (['.'] ++ name.toList ++ rest) :=
    .word (c := 's') (by decide) (by decide) (by decide) (by simp [EndsWord]; decide)
  exact package.append (point.append word)

/-- The text of a builtin type without parts. -/
theorem scans_builtin {k : Kind} (builtin : k ∈ builtinKinds) (ends : EndsWord rest) :
    Scans (plain k).display.toList (plain k).words rest := by
  simp only [builtinKinds, List.mem_cons, List.not_mem_nil, or_false] at builtin
  rcases builtin with rfl | rfl | rfl | rfl | rfl | rfl | rfl | rfl | rfl | rfl | rfl | rfl
  case inr.inr.inr.inr.inr.inr.inr.inr.inr.inl =>
    have word : Scans "interface".toList [keyword "interface"] (['\x7b', '\x7d'] ++ rest) :=
      .word (c := 'i') (by decide) (by decide) (by decide) (by simp [EndsWord]; decide)
    exact word.append (scans_braces rest)
  case inr.inr.inr.inr.inr.inr.inr.inr.inr.inr.inl =>
    exact scans_sync "WaitGroup" rfl (by decide) (by decide) ends
  case inr.inr.inr.inr.inr.inr.inr.inr.inr.inr.inr =>
    exact scans_sync "Mutex" rfl (by decide) (by decide) ends
  all_goals exact Scans.word (by rfl) (by decide) (by decide) ends

theorem scans_name {name : String} (named : Names name) (ends : EndsWord rest) :
    Scans name.toList [(.identifier, name)] rest := by
  obtain ⟨c, starts, first⟩ := named.starts
  rw [← named.free]
  exact .word starts first named.inside ends

/-- A field before a text behind which its type ends. -/
theorem scans_field {f : String × Ty} (named : Names f.1)
    (type : Scans f.2.display.toList f.2.words rest) :
    Scans (f.1 ++ " " ++ f.2.display).toList ([(.identifier, f.1)] ++ f.2.words) rest := by
  have name : Scans f.1.toList [(.identifier, f.1)] ([' '] ++ (f.2.display.toList ++ rest)) :=
    scans_name named (by simp [EndsWord]; decide)
  have text : Scans (f.1.toList ++ ([' '] ++ f.2.display.toList))
      ([(.identifier, f.1)] ++ ([] ++ f.2.words)) rest :=
    .append (by simpa using name) (.append (.blank _) type)
  simpa using text

theorem scans_fields {fields : List (String × Ty)} (named : ∀ f ∈ fields, Names f.1)
    (each : ∀ f ∈ fields, ∀ rest, EndsWord rest → Scans f.2.display.toList f.2.words rest) :
    Scans (displayFields fields).toList (fieldWords fields) ('\x7d' :: rest) := by
  induction fields with
  | nil => exact fun position => ⟨[], position, rfl, rfl⟩
  | cons f fields ih =>
    have later := ih (fun g mem => named g (by simp [mem])) (fun g mem => each g (by simp [mem]))
    have here := scans_field (named f (by simp)) (each f (by simp) ('\x7d' :: rest)
      (by simp [EndsWord]; decide))
    cases fields with
    | nil => simpa [displayFields, fieldWords] using here
    | cons g fields =>
      have behind : Scans ([';'] ++ ([' '] ++ (displayFields (g :: fields)).toList))
          ([mark ";"] ++ ([] ++ fieldWords (g :: fields))) ('\x7d' :: rest) :=
        .append (.lone (by decide) _) (.append (.blank _) later)
      have here := scans_field (named f (by simp)) (each f (by simp)
        ([';'] ++ ([' '] ++ (displayFields (g :: fields)).toList) ++ '\x7d' :: rest)
        (by simp [EndsWord]; decide))
      simpa [displayFields, fieldWords] using here.append behind

/-- The text of a type is scanned as its words. -/
theorem Built.scans (h : Built t) (ends : EndsWord rest) :
    Scans t.display.toList t.words rest := by
  induction h generalizing rest with
  | plain builtin => exact scans_builtin builtin ends
  | array _ ih => simpa [display, words] using (scans_brackets _).append (ih ends)
  | @pointer e target ih =>
    obtain ⟨c, starts, noEqual⟩ := target.head
    have star : Scans ['*'] [mark "*"] (e.display.toList ++ rest) := by
      refine .mark (by decide) rfl fun p compound first => ?_
      have stars : ∀ p ∈ Token.compounds, p.toList.head? = some '*' → p.toList[1]? = some '=' := by
        decide
      rw [stars p compound first, List.head?_append, starts]
      simpa using Ne.symm noEqual
    simpa [display, words] using star.append (ih ends)
  | @channel e _ ih =>
    have word : Scans "chan".toList [keyword "chan"] ([' '] ++ e.display.toList ++ rest) :=
      .word (c := 'c') (by decide) (by decide) (by decide) (by simp [EndsWord]; decide)
    have text : Scans ("chan".toList ++ ([' '] ++ e.display.toList))
        ([keyword "chan"] ++ ([] ++ e.words)) rest := word.append (.append (.blank _) (ih ends))
    simpa [display, words] using text
  | @map k v _ _ ihKey ihValue =>
    have close : Scans ([']'] ++ v.display.toList) ([mark "]"] ++ v.words) rest :=
      .append (.lone (by decide) _) (ihValue ends)
    have key : Scans k.display.toList k.words ([']'] ++ v.display.toList ++ rest) :=
      ihKey (by simp [EndsWord]; decide)
    have word : Scans "map".toList [keyword "map"]
        (['['] ++ (k.display.toList ++ ([']'] ++ v.display.toList)) ++ rest) :=
      .word (c := 'm') (by decide) (by decide) (by decide) (by simp [EndsWord]; decide)
    have text := word.append (.append (.lone (by decide) _) (key.append close))
    simpa [display, words] using text
  | @struct fields _ named _ ih =>
    have inside : Scans ((displayFields fields).toList ++ ['\x7d'])
        (fieldWords fields ++ [mark "\x7d"]) rest :=
      .append (scans_fields named fun f mem rest ends => ih f mem ends) (.lone (by decide) rest)
    have word : Scans "struct".toList [keyword "struct"]
        (['\x7b'] ++ ((displayFields fields).toList ++ ['\x7d']) ++ rest) :=
      .word (c := 's') (by decide) (by decide) (by decide) (by simp [EndsWord]; decide)
    have text := word.append (.append (.lone (by decide) _) inside)
    simpa [display, words] using text

/-- The text of a type is scanned to its end as the words of the type. -/
theorem scan_display (h : Built t) : (Token.scan t.display).fault = none ∧
    (Token.scan t.display).tokens.map Token.word = t.words := by
  have ended : EndsWord [] := by simp [EndsWord]
  obtain ⟨ts, place, words, scanned⟩ := h.scans ended {}
  have ends : Token.scanFrom place [] = ⟨[], none⟩ := by
    rw [Token.scanFrom]
    simp
  rw [List.append_nil, ends] at scanned
  rw [Token.scan, scanned]
  exact ⟨rfl, by simpa [Token.Scan.behind] using words⟩

end Ty

end StackScript
