import Mathlib.Algebra.BigOperators.Group.List.Basic
import Mathlib.Algebra.Ring.Int.Defs
import StackScript.CommandLine.Conversation
import StackScript.Proofs.Scanning.Lexemes

/-!
# Open brackets

A conversation counts the brackets of its lines without scanning them. Its reader tells strings
from code as the scanner does: the text of a token leads it back to code and counts what the token
counts. Comments it does not know, so brackets in them count as well, and a quote in one of them
hides what follows.

Main statements: `recognize_counts` (what the text of a lexeme counts), `scanFrom_counts` (by
induction on the scan) and `openBrackets_scanned`, with `comment_counted`.
-/
namespace StackScript

/-! ## Brackets of tokens -/

namespace Token

/-- Whether a token opens a bracket. -/
def opens (t : Token) : Bool := ["\x7b", "(", "["].any t.is

/-- Whether a token closes a bracket. -/
def closes (t : Token) : Bool := ["\x7d", ")", "]"].any t.is

/-- The opening brackets among tokens less the closing ones. -/
def openBrackets (tokens : List Token) : Int := tokens.countP opens - tokens.countP closes

/-- What a token adds to the open brackets. -/
def weight (t : Token) : Int := openBrackets [t]

theorem openBrackets_cons (t : Token) (tokens : List Token) :
    openBrackets (t :: tokens) = t.weight + openBrackets tokens := by
  simp only [weight, openBrackets, List.countP_cons, List.countP_nil]
  omega

/-- The blanks and comments of a text: what stands before each token and behind the last one. -/
def gaps (text : List Char) : List (List Char) :=
  let gap := gapLength text
  if _ : text.length ≤ gap then [text]
  else
    match recognize (text.drop gap) with
    | .error _ => [text.take gap]
    | .ok lexeme => text.take gap :: gaps ((text.drop gap).drop (max lexeme.length 1))
termination_by text.length
decreasing_by exact length_behind_lt ‹_› (Nat.le_max_right _ 1)

end Token

namespace CommandLine.Reading

open Token (scanEscape scanString scanRaw scanDecimal scanExponent scanNumber scanWord recognize)

/-! ## Where a text leads a reader -/

/-- A text leads a reader from one place to another, and counts as many open brackets. -/
structure Leads (r : Reading) (text : List Char) (r' : Reading) (count : Int) : Prop where
  after : r.after text = r'
  depth : r.depthFrom text = count

namespace Leads

variable {r r' r'' : Reading} {a b text : List Char} {m n : Int} {c : Char}

theorem nil : Leads r [] r 0 := ⟨rfl, rfl⟩

theorem append (first : Leads r a r' m) (second : Leads r' b r'' n) :
    Leads r (a ++ b) r'' (m + n) := by
  refine ⟨?_, ?_⟩
  · rw [Reading.after, List.foldl_append]
    exact (congrArg (b.foldl next ·) first.after).trans second.after
  · rw [depthFrom_append, first.after, first.depth, second.depth]

/-- A character that counts nothing. -/
theorem cons (weightless : r.weight c = 0) (behind : Leads (r.next c) a r' n) :
    Leads r (c :: a) r' n :=
  ⟨behind.after, by rw [depthFrom, weightless, behind.depth, Int.zero_add]⟩

/-- A text in which a reader stays where it is. -/
theorem staying (stays : ∀ c ∈ text, r.next c = r ∧ r.weight c = 0) : Leads r text r 0 := by
  induction text with
  | nil => exact .nil
  | cons c text ih =>
    obtain ⟨same, weightless⟩ := stays c List.mem_cons_self
    refine .cons weightless ?_
    rw [same]
    exact ih fun d mem => stays d (List.mem_cons_of_mem c mem)

end Leads

/-! ## Strings -/

theorem quoted_stays {c : Char} (noQuote : c ≠ '"') (noBackslash : c ≠ '\\') :
    quoted.next c = quoted := by
  unfold next
  split <;> simp_all

theorem quoted_hexDigits {ds : List Char} (all : ∀ d ∈ ds, Text.isHexDigit d = true) :
    Leads quoted ds quoted 0 := by
  refine .staying fun d mem => ⟨quoted_stays ?_ ?_, rfl⟩
  · rintro rfl
    exact absurd (all _ mem) (by decide)
  · rintro rfl
    exact absurd (all _ mem) (by decide)

theorem scanEscape_leads {text : List Char} {c : Char} {n : Nat}
    (h : scanEscape text = .ok (c, n)) : Leads escaped (text.take n) quoted 0 := by
  unfold scanEscape at h
  split at h
  · cases h
  · next a b rest =>
    split at h
    · next hex =>
      cases h
      have digits : Leads quoted [a, b] quoted 0 := quoted_hexDigits (by simpa using hex)
      exact .cons rfl digits
    · cases h
  · cases h
  · next rest =>
    dsimp only at h
    split at h
    · next ends =>
      cases h
      have digits : Leads quoted (rest.takeWhile Text.isHexDigit) quoted 0 :=
        quoted_hexDigits fun _ => List.mem_takeWhile_imp
      have inside : Leads quoted (rest.takeWhile Text.isHexDigit ++ ['\x7d']) quoted 0 :=
        digits.append (.cons rfl .nil)
      have taken : rest.take ((rest.takeWhile Text.isHexDigit).length + 1) =
          rest.takeWhile Text.isHexDigit ++ ['\x7d'] := by
        simpa using (List.prefix_iff_eq_take.1 (Token.takeWhile_then ends.1)).symm
      rw [List.take_succ_cons, List.take_succ_cons, taken]
      exact .cons rfl (.cons rfl inside)
    · cases h
  · cases h
  · split at h
    · cases h
      exact .cons rfl .nil
    · cases h

theorem scanString_leads {text : List Char} {d : Token.Decoded} (h : scanString text = .ok d) :
    Leads quoted (text.take d.length) code 0 := by
  fun_induction scanString text generalizing d with
  | case1 => cases h
  | case2 => cases h
  | case3 =>
    cases h
    exact .cons rfl .nil
  | case4 => cases h
  | case5 => cases h
  | case6 rest c n escape d' inner ih =>
    cases h
    rw [List.take_succ_cons, Nat.add_comm, List.take_add]
    exact .cons rfl ((scanEscape_leads escape).append (ih inner))
  | case7 => cases h
  | case8 c rest notLine notQuote notEscape d' inner ih =>
    cases h
    rw [List.take_succ_cons]
    refine .cons rfl ?_
    rw [quoted_stays (fun e => notQuote e) (fun e => notEscape e)]
    exact ih inner

theorem scanRaw_leads {text : List Char} {d : Token.Decoded} (h : scanRaw text = some d) :
    Leads raw (text.take d.length) code 0 := by
  fun_induction scanRaw text generalizing d with
  | case1 => cases h
  | case2 =>
    cases h
    exact .cons rfl .nil
  | case3 c rest notEnd ih =>
    obtain ⟨inner, read, rfl⟩ := Option.map_eq_some_iff.1 h
    rw [List.take_succ_cons]
    refine .cons rfl ?_
    have same : raw.next c = raw := by
      unfold next
      split <;> simp_all
    rw [same]
    exact ih read

/-! ## Words and numbers -/

/-- The characters in code that a reader heeds. -/
def heeded : List Char := ['"', '\x60', '\x7b', '\x7d', '(', ')', '[', ']']

/-- A text of characters with a property that no heeded one has. -/
theorem code_stays {p : Char → Bool} (never : heeded.any p = false) {text : List Char}
    (all : ∀ c ∈ text, p c = true) : Leads code text code 0 := by
  refine .staying fun c mem => ?_
  have unheeded : c ∉ heeded := fun heed =>
    List.any_eq_false.1 never c heed (all c mem)
  simp only [heeded, List.mem_cons, List.not_mem_nil, or_false, not_or] at unheeded
  obtain ⟨noQuote, noRaw, others⟩ := unheeded
  refine ⟨?_, by simp [weight, others]⟩
  unfold next
  split <;> simp_all

/-- Whether a character may stand in a number. -/
def isNumberPart (c : Char) : Bool := Text.isAsciiAlphanumeric c || ['_', '.', '+', '-'].contains c

theorem isNumberPart_of_isDigit {c : Char} (h : Text.isDigit c = true) : isNumberPart c = true := by
  simp [isNumberPart, Text.isAsciiAlphanumeric, h]

theorem scanExponent_parts (text : List Char) : ∀ c ∈ scanExponent text, isNumberPart c = true := by
  intro c mem
  cases text with
  | nil => cases mem
  | cons sign rest =>
    rw [scanExponent] at mem
    split at mem
    · next signed =>
      rcases List.mem_cons.1 mem with rfl | digit
      · rcases signed with rfl | rfl <;> decide
      · exact isNumberPart_of_isDigit (List.mem_takeWhile_imp digit)
    · exact isNumberPart_of_isDigit (List.mem_takeWhile_imp mem)

theorem scanExponent_eq_take {text : List Char} (follows : Token.exponentFollows text = true) :
    text.take (scanExponent text).length = scanExponent text :=
  (List.prefix_iff_eq_take.1 (Token.scanExponent_takes follows).1).symm

theorem scanDecimal_parts (pointSeen : Bool) (text : List Char) :
    ∀ c ∈ text.take (scanDecimal pointSeen text).length, isNumberPart c = true := by
  fun_induction scanDecimal pointSeen text with
  | case1 => simp
  | case2 pointSeen c rest digit ih =>
    rw [Token.Numeral.cons, List.take_succ_cons]
    exact List.forall_mem_cons.2 ⟨isNumberPart_of_isDigit digit, ih⟩
  | case3 pointSeen rest n notDigit ih =>
    rw [List.take_succ_cons]
    exact List.forall_mem_cons.2 ⟨by decide, ih⟩
  | case4 pointSeen c rest notDigit notLine point ih =>
    rw [Token.Numeral.cons, List.take_succ_cons]
    exact List.forall_mem_cons.2 ⟨by rw [point.1]; decide, ih⟩
  | case5 pointSeen c rest notDigit notLine notPoint mark e =>
    rw [List.take_succ_cons, scanExponent_eq_take mark.2]
    refine List.forall_mem_cons.2 ⟨?_, scanExponent_parts rest⟩
    rcases mark.1 with rfl | rfl <;> decide
  | case6 => simp

theorem scanNumber_parts {text : List Char} {l : Token.Lexeme} (h : scanNumber text = .ok l) :
    ∀ c ∈ text.take l.length, isNumberPart c = true := by
  have decimal {text : List Char} (h : Token.scanNumeral text = .ok l) :
      ∀ c ∈ text.take l.length, isNumberPart c = true := by
    have parts := scanDecimal_parts false text
    unfold Token.scanNumeral at h
    dsimp only at h
    split at h
    · cases h
      exact parts
    · split at h
      · cases h
        exact parts
      · cases h
  unfold scanNumber at h
  split at h
  · next mark rest =>
    split at h
    · next radix known =>
      unfold Token.scanRadix at h
      dsimp only at h
      split at h
      · cases h
        rw [List.take_succ_cons, List.take_succ_cons]
        refine List.forall_mem_cons.2 ⟨by decide, List.forall_mem_cons.2 ⟨?_, fun c mem => ?_⟩⟩
        · unfold Token.radixOf at known
          split at known
          all_goals first | decide | cases known
        · rw [← List.prefix_iff_eq_take.1 (List.takeWhile_prefix _)] at mem
          have inside := List.mem_takeWhile_imp mem
          simp only [Bool.or_eq_true, beq_iff_eq] at inside
          rcases inside with rfl | inside
          · decide
          · simp [isNumberPart, inside]
      · cases h
    · exact decimal h
  · exact decimal h

/-! ## Lexemes -/

theorem word_never : heeded.any Token.isWordPart = false := by decide +kernel

theorem weight_of_tag {t : Token} (noMark : t.tag ≠ .punctuation) (noWord : t.tag ≠ .reserved) :
    t.weight = 0 := by
  simp [Token.weight, Token.openBrackets, Token.opens, Token.closes, Token.is, noMark, noWord]

/-- No word is a bracket. -/
theorem weight_word {t : Token} (word : t.spelling ∈ Token.reservedWords) : t.weight = 0 := by
  have none : ∀ w ∈ Token.reservedWords, w ∉ ["\x7b", "(", "[", "\x7d", ")", "]"] := by decide
  have := none _ word
  simp only [List.mem_cons, List.not_mem_nil, or_false, not_or] at this
  simp [Token.weight, Token.openBrackets, Token.opens, Token.closes, Token.is, this]

/-- The text of an operator leaves a reader in code and counts what its token counts. -/
theorem operator_counts {t : Token} (mark : t.tag = .punctuation)
    (operator : t.spelling ∈ Token.operators) :
    Leads code t.spelling.toList code t.weight := by
  have each : ∀ p ∈ Token.operators, code.after p.toList = code ∧
      code.depthFrom p.toList = (⟨p, .punctuation, 0, 0⟩ : Token).weight := by decide
  obtain ⟨after, depth⟩ := each _ operator
  refine ⟨after, depth.trans ?_⟩
  simp [Token.weight, Token.openBrackets, Token.opens, Token.closes, Token.is, mark]

theorem scanWord_leads (text : List Char) :
    Leads code (text.take (scanWord text).length) code 0 := by
  refine code_stays word_never fun c mem => ?_
  rw [scanWord, ← List.prefix_iff_eq_take.1 (List.takeWhile_prefix _)] at mem
  exact List.mem_takeWhile_imp mem

theorem scanWord_weight (text : List Char) {t : Token} (tag : t.tag = (scanWord text).tag)
    (spelling : t.spelling = (scanWord text).spelling) : t.weight = 0 := by
  by_cases reserved : (scanWord text).spelling ∈ Token.reservedWords
  · exact weight_word (spelling ▸ reserved)
  · refine weight_of_tag ?_ ?_ <;> rw [tag] <;> simp only [scanWord, Token.wordClass]
    all_goals simp only [scanWord] at reserved
    all_goals split <;> simp [reserved]

/-- **The text of a lexeme** leaves a reader in code and counts what its token counts. -/
theorem recognize_counts {text : List Char} {l : Token.Lexeme} (h : recognize text = .ok l)
    {t : Token} (tag : t.tag = l.tag) (spelling : t.spelling = l.spelling) :
    Leads code (text.take l.length) code t.weight := by
  cases text with
  | nil => cases h
  | cons c rest =>
    by_cases quote : c = '"'
    · subst quote
      cases read : scanString rest with
      | error f => rw [recognize, read] at h; cases h
      | ok d =>
        rw [Token.recognize_string read] at h
        cases h
        rw [weight_of_tag (by simp [tag]) (by simp [tag]), List.take_succ_cons]
        exact .cons rfl (scanString_leads read)
    · by_cases raw : c = '\x60'
      · subst raw
        cases read : scanRaw rest with
        | none => rw [recognize, read] at h; cases h
        | some d =>
          rw [Token.recognize_raw read] at h
          cases h
          rw [weight_of_tag (by simp [tag]) (by simp [tag]), List.take_succ_cons]
          exact .cons rfl (scanRaw_leads read)
      · rw [Token.recognize_other quote raw] at h
        split at h
        · obtain ⟨-, -, -, -, -, number, -⟩ := Token.scanNumber_takes h
          rw [weight_of_tag (by rw [tag]; rcases number with n | n <;> rw [n] <;> decide)
            (by rw [tag]; rcases number with n | n <;> rw [n] <;> decide)]
          exact code_stays (by decide) (scanNumber_parts h)
        · split at h
          · cases h
            rw [scanWord_weight _ tag spelling]
            exact scanWord_leads _
          · obtain ⟨longest, length, mark, -⟩ := Token.scanPunctuation_longest h
            have taken := List.prefix_iff_eq_take.1 longest.starts
            rw [String.length_toList, ← length] at taken
            rw [← taken, ← spelling]
            exact operator_counts (tag.trans mark) (spelling ▸ longest.mem)

/-! ## Sources -/

/-- A scan without a fault: the text counts what its tokens and its gaps count, if every gap
leaves a reader in code. -/
theorem scanFrom_counts (position : Token.Position) (text : List Char)
    (accepted : (Token.scanFrom position text).fault = none)
    (closed : ∀ gap ∈ Token.gaps text, code.after gap = code) :
    code.depthFrom text = Token.openBrackets (Token.scanFrom position text).tokens +
      ((Token.gaps text).map code.depthFrom).sum := by
  fun_induction Token.scanFrom position text with
  | case1 position text gap all =>
    rw [Token.gaps, dif_pos all]
    simp [Token.openBrackets]
  | case2 => cases accepted
  | case3 position text gap more start rest lexeme read taken scan ih =>
    have parts : Token.gaps text = text.take gap :: Token.gaps (rest.drop taken) := by
      rw [Token.gaps, dif_neg more]
      simp only [rest, gap] at read
      rw [read]
    rw [parts] at closed ⊢
    obtain ⟨before, behind⟩ := List.forall_mem_cons.1 closed
    have first : Leads code (text.take gap) code (code.depthFrom (text.take gap)) := ⟨before, rfl⟩
    have own : Leads code (rest.take taken) code
        (⟨lexeme.spelling, lexeme.tag, start.line, start.column⟩ : Token).weight := by
      have some : 1 ≤ lexeme.length := by
        obtain ⟨own, after, split, divides⟩ := Token.recognize_divides read
        rw [divides.length, Nat.one_le_iff_ne_zero, ne_eq, List.length_eq_zero_iff]
        rintro rfl
        cases divides.alone
      rw [show taken = lexeme.length from Nat.max_eq_left some]
      exact recognize_counts read rfl rfl
    have whole : text = text.take gap ++ (rest.take taken ++ rest.drop taken) := by
      rw [List.take_append_drop, List.take_append_drop]
    have counted := (first.append (own.append ⟨rfl, ih accepted behind⟩)).depth
    rw [← whole] at counted
    rw [counted, Token.openBrackets_cons, List.map_cons, List.sum_cons]
    simp only [scan]
    omega

end CommandLine.Reading

namespace CommandLine

/-- Each character opens or closes one bracket at most. -/
theorem Reading.natAbs_depthFrom_le (r : Reading) (text : List Char) :
    (r.depthFrom text).natAbs ≤ text.length := by
  induction text generalizing r with
  | nil => simp [depthFrom]
  | cons c rest ih =>
    have one : (r.weight c).natAbs ≤ 1 := by
      cases r with
      | code =>
        unfold weight
        dsimp only
        split
        · decide
        · split <;> decide
      | _ => simp [weight]
    have others := ih (r.next c)
    rw [depthFrom, List.length_cons]
    omega

/-- The brackets of a text that is not too long are counted as they are. -/
theorem toInt_openBrackets {source : String} (short : source.length < 2 ^ 31) :
    (openBrackets source).toInt = Reading.code.depthFrom source.toList := by
  have few := Reading.natAbs_depthFrom_le .code source.toList
  rw [String.length_toList] at few
  exact Int32.toInt_ofInt_of_le (by omega) (by omega)

theorem Conversation.pending_run (c : Conversation) (source : String) :
    (c.run source).pending = c.pending := rfl

/-- Brackets are counted as they are scanned, in 32 bits. The open brackets of a source that the
scanner accepts are those of its tokens and those in its comments, as long as no comment leaves a
string open. Where the comments count nothing, a conversation waits for more lines exactly when more
brackets were opened than closed among the tokens. -/
theorem openBrackets_scanned {source : String} {tokens : List Token}
    (accepted : Token.scanAll source = .ok tokens)
    (closed : ∀ gap ∈ Token.gaps source.toList, Reading.code.after gap = .code) :
    openBrackets source = .ofInt (Token.openBrackets tokens +
      ((Token.gaps source.toList).map Reading.code.depthFrom).sum) ∧
    (source.length < 2 ^ 31 → (openBrackets source).toInt = Token.openBrackets tokens +
      ((Token.gaps source.toList).map Reading.code.depthFrom).sum) ∧
    ((∀ gap ∈ Token.gaps source.toList, Reading.code.depthFrom gap = 0) →
      openBrackets source = .ofInt (Token.openBrackets tokens) ∧
      (source.length < 2 ^ 31 →
        ∀ (c : Conversation) (line : String), c.pending ++ line ++ "\n" = source →
          ((c.take line).pending ≠ "" ↔ 0 < Token.openBrackets tokens))) := by
  unfold Token.scanAll at accepted
  split at accepted
  · cases accepted
  · dsimp only at accepted
    split at accepted
    · cases accepted
    · next unfailing =>
      cases accepted
      have counted : Reading.code.depthFrom source.toList =
          Token.openBrackets (Token.scan source).tokens + _ :=
        Reading.scanFrom_counts {} source.toList unfailing closed
      refine ⟨congrArg Int32.ofInt counted, fun short => ?_, fun quiet => ?_⟩
      · rw [toInt_openBrackets short, counted]
      · have none : ((Token.gaps source.toList).map Reading.code.depthFrom).sum = 0 :=
          List.sum_eq_zero (List.forall_mem_map.2 quiet)
        rw [none, Int.add_zero] at counted
        refine ⟨congrArg Int32.ofInt counted, fun short c line same => ?_⟩
        have waits : 0 < openBrackets source ↔ 0 < Token.openBrackets (Token.scan source).tokens := by
          rw [Int32.lt_iff_toInt_lt, toInt_openBrackets short, counted]
          exact Iff.rfl
        rw [← waits, Conversation.take]
        simp only [same]
        split
        · next more =>
          subst same
          simp [more]
        · next runs => simp [runs, Conversation.pending_run]

/-- A call that goes on behind a comment with a string in it. -/
def callTokens : List Token :=
  [⟨"f", .identifier, 1, 1⟩, ⟨"(", .punctuation, 1, 2⟩, ⟨"[", .punctuation, 2, 1⟩]

theorem call_waits : Token.scanAll "f( // \"[\"\n[\n" = .ok callTokens ∧
    (∀ gap ∈ Token.gaps "f( // \"[\"\n[\n".toList,
      Reading.code.after gap = .code ∧ Reading.code.depthFrom gap = 0) ∧
    openBrackets "f( // \"[\"\n[\n" = 2 ∧
    ∀ c : Conversation, c.pending = "f( // \"[\"\n" → (c.take "[").pending ≠ "" := by
  have scanned : Token.scanAll "f( // \"[\"\n[\n" = .ok callTokens := by decide +kernel
  have gaps : Token.gaps "f( // \"[\"\n[\n".toList =
      [[], [], " // \"[\"\n".toList, ['\n']] := by decide +kernel
  have quiet : ∀ gap ∈ Token.gaps "f( // \"[\"\n[\n".toList,
      Reading.code.after gap = .code ∧ Reading.code.depthFrom gap = 0 := by
    rw [gaps]
    decide
  obtain ⟨-, -, counted⟩ := openBrackets_scanned scanned fun gap mem => (quiet gap mem).1
  obtain ⟨same, waits⟩ := counted fun gap mem => (quiet gap mem).2
  refine ⟨scanned, quiet, same.trans (by decide), fun c pending => ?_⟩
  exact (waits (by decide) c "[" (by rw [pending]; decide)).2 (by decide)

/-- A bracket in a comment counts, though no token is there. -/
theorem comment_counted : Token.scanAll "// (" = .ok [] ∧ Token.openBrackets [] = 0 ∧
    openBrackets "// (" = 1 := by
  refine ⟨by decide +kernel, by decide, by decide⟩

end CommandLine

end StackScript
