import Mathlib.Data.List.Chain
import Mathlib.Data.Nat.Digits.Defs
import StackScript.Proofs.Templates.Blocks
import StackScript.Token.Scan
import StackScript.Decimal.Shortest

/-!
# Templates read back

A tree of nodes is written as it would be by hand: literals as they are, and every action between
double braces without blanks that need not be there. What is written is read as the same tree. Any
text at all is a template if each of its actions is known and their blocks nest.

Main statements: `readExpr_chars` (by induction on the expression), `pieces_chars` (by induction on
the parts), and `parse_inverts`, which is made of them and of the rules for blocks.
-/
namespace StackScript

/-! ## Whole numbers read back -/

namespace Decimal

theorem digit_read : ∀ d < 10, digitValue (Nat.digitChar d) = some d := by decide

theorem digits_eq (n : Nat) : digits n =
    if n < 10 then [Nat.digitChar n] else digits (n / 10) ++ [Nat.digitChar (n % 10)] :=
  Nat.toDigits_eq_if (by decide)

theorem readBounded_digits {n bound : Nat} (within : n ≤ bound) (beyond : IntegerFault)
    (rest : List Char) :
    readBounded 10 bound beyond 0 (digits n ++ rest) = readBounded 10 bound beyond n rest := by
  induction n using Nat.strong_induction_on generalizing rest with
  | h n ih =>
    have step (value d : Nat) (small : d < 10) (here : value * 10 + d = n) :
        readBounded 10 bound beyond value (Nat.digitChar d :: rest) =
          readBounded 10 bound beyond n rest := by
      simp [readBounded, digit_read d small, small, here, within]
    rw [digits_eq]
    split
    · next small => exact step 0 n small (by omega)
    · rw [List.append_assoc, ih (n / 10) (by omega) (by omega)]
      exact step _ _ (Nat.mod_lt _ (by decide)) (by omega)

theorem isDigit_of_mem {n : Nat} {c : Char} (mem : c ∈ digits n) : Text.isDigit c = true := by
  have digit : ∀ d < 10, Text.isDigit (Nat.digitChar d) = true := by decide
  induction n using Nat.strong_induction_on with
  | h n ih =>
    rw [digits_eq] at mem
    split at mem
    · next small =>
      rw [List.mem_singleton.1 mem]
      exact digit n small
    · rcases List.mem_append.1 mem with front | last
      · exact ih _ (by omega) front
      · rw [List.mem_singleton.1 last]
        exact digit _ (Nat.mod_lt _ (by decide))

/-- The digits of a number start with a digit. -/
theorem digits_head (n : Nat) : ∃ c rest, digits n = c :: rest ∧ Text.isDigit c = true := by
  obtain ⟨c, rest, here⟩ := List.exists_cons_of_ne_nil
    (List.length_pos_iff.1 (Nat.length_toDigits_pos (b := 10) (n := n)))
  exact ⟨c, rest, here, isDigit_of_mem (n := n) (by simp [digits, here])⟩

theorem readBounded_all {n bound : Nat} (within : n ≤ bound) (beyond : IntegerFault) :
    readBounded 10 bound beyond 0 (digits n) = .ok n := by
  simpa [readBounded] using readBounded_digits within beyond []

theorem readInteger_digits {least greatest : Int} {n : Nat} (within : n ≤ greatest.toNat) :
    readInteger 10 least greatest (digits n) = .ok n := by
  have read := readBounded_all within .tooLarge
  obtain ⟨c, rest, here, digit⟩ := digits_head n
  have noPlus : c ≠ '+' := by
    rintro rfl
    cases digit
  have noMinus : c ≠ '-' := by
    rintro rfl
    cases digit
  rw [here] at read ⊢
  unfold readInteger
  split <;> simp_all [Except.map]

theorem readInteger_negative {least greatest : Int} {n : Nat} (within : n ≤ (-least).toNat)
    (below : least < 0) : readInteger 10 least greatest ('-' :: digits n) = .ok (-n) := by
  have read := readBounded_all within .tooSmall
  obtain ⟨c, rest, here, digit⟩ := digits_head n
  rw [here] at read ⊢
  simp only [readInteger, if_pos below, read]
  rfl

theorem readInt64_ofInt (n : Int64) : readInt64 (ofInt n.toInt) = some n := by
  have least := n.le_toInt
  have greatest := n.toInt_lt
  have read : readInteger 10 leastInt64 greatestInt64 (ofInt n.toInt).toList = .ok n.toInt := by
    cases whole : n.toInt with
    | ofNat m =>
      have within : m ≤ greatestInt64.toNat := by
        rw [whole, Int.ofNat_eq_natCast] at greatest
        simp only [greatestInt64]
        omega
      simpa [ofInt] using readInteger_digits within
    | negSucc m =>
      have within : m + 1 ≤ (-leastInt64).toNat := by
        rw [whole] at least
        simp only [leastInt64]
        omega
      simpa [ofInt, Int.negSucc_eq] using readInteger_negative within (by decide)
  rw [readInt64, read]
  simp

end Decimal

/-! ## Characters -/

namespace Text

/-- The codes of the blanks. -/
def blankCodes : List Nat :=
  List.range' 9 5 ++ [32, 133, 160, 5760] ++ List.range' 8192 11 ++ [8232, 8233, 8239, 8287, 12288]

theorem isBlank_codes {c : Char} (h : isBlank c = true) : c.toNat ∈ blankCodes := by
  simp [isBlank, CodeSet.contains, blankSet, CodeSet.rank] at h
  simp [blankCodes, List.range']
  grind

/-- A character with a property that no blank has is no blank. -/
theorem not_isBlank {p : Char → Bool} (never : ∀ n ∈ blankCodes, p (Char.ofNat n) = false)
    {c : Char} (h : p c = true) : isBlank c = false := by
  by_contra blank
  have := never _ (isBlank_codes (by simpa using blank))
  rw [Char.ofNat_toNat, h] at this
  cases this

theorem not_isBlank_of_isWordPart {c : Char} (h : Token.isWordPart c = true) : isBlank c = false :=
  not_isBlank (p := Token.isWordPart) (by decide +kernel) h

theorem not_isBlank_of_isDigit {c : Char} (h : isDigit c = true) : isBlank c = false :=
  not_isBlank (p := isDigit) (by decide) h

end Text

namespace Template

/-! ## Canonical texts -/

/-- The text of an expression. -/
def Expr.chars : Expr → List Char
  | here => ['.']
  | path names => names.flatMap fun name => '.' :: name.toList
  | string text => '"' :: (text.toList ++ ['"'])
  | int n => (Decimal.ofInt n.toInt).toList
  | not inner => ['n', 'o', 't', ' '] ++ inner.chars

/-- Whether an expression has a text: a path has names, which are words, and a string goes on to its
closing quote. -/
def Expr.Writable : Expr → Prop
  | path names => names ≠ [] ∧
    ∀ name ∈ names, name ≠ "" ∧ ∀ c ∈ name.toList, Token.isWordPart c = true
  | string text => ∀ c ∈ text.toList, c ≠ '"' ∧ c ≠ '\x7b' ∧ c ≠ '\x7d'
  | not inner => inner.Writable
  | here | int _ => True

/-- The text of a literal, or that of an action between its braces. -/
def Part.inside : Part → List Char
  | literal text => text.toList
  | output e => e.chars
  | choice e => ['i', 'f', ' '] ++ e.chars
  | range e => ['r', 'a', 'n', 'g', 'e', ' '] ++ e.chars
  | otherwise => ['e', 'l', 's', 'e']
  | finish => ['e', 'n', 'd']

/-- The text of a part. -/
def Part.chars (p : Part) : List Char :=
  if p.isAction then '\x7b' :: '\x7b' :: (p.inside ++ ['\x7d', '\x7d']) else p.inside

/-- Whether a part has a text of its own: a literal is not empty and has no braces. -/
def Part.Writable : Part → Prop
  | literal text => text ≠ "" ∧ ∀ c ∈ text.toList, c ≠ '\x7b' ∧ c ≠ '\x7d'
  | output e | choice e | range e => e.Writable
  | otherwise | finish => True

/-- The canonical text of nodes. -/
def text (nodes : List Node) : String := String.ofList ((parts nodes).flatMap Part.chars)

/-- Whether nodes have a canonical text: all their parts have one, and no two literals meet. -/
structure Writable (nodes : List Node) : Prop where
  parts : ∀ p ∈ parts nodes, p.Writable
  apart : (Template.parts nodes).IsChain fun p q => p.isAction ∨ q.isAction

/-! ## Expressions -/

/-- Whether a character starts an expression. -/
def startsExpr (c : Char) : Bool :=
  c == '.' || c == '"' || c == '-' || c == 'n' || Text.isDigit c

/-- A text that an action holds as it is: no blanks at its ends, and nothing in it closes the
action. -/
structure Solid (text : List Char) : Prop where
  starts : ∃ c rest, text = c :: rest ∧ Text.isBlank c = false
  ends : ∀ c ∈ text.getLast?, Text.isBlank c = false
  unclosed : '\x7d' ∉ text

theorem Solid.trimmed_eq {text : List Char} (h : Solid text) : trimmed text = text := by
  obtain ⟨c, rest, rfl, first⟩ := h.starts
  have front : (c :: rest).dropWhile Text.isBlank = c :: rest := by simp [first]
  obtain ⟨before, last, parts⟩ : ∃ before last, c :: rest = before ++ [last] :=
    ⟨_, _, (List.dropLast_concat_getLast (by simp)).symm⟩
  have final : Text.isBlank last = false := h.ends last (by simp [parts])
  rw [trimmed, front, parts]
  simp [final]

/-- Something in front of a solid text. -/
theorem Solid.behind {text : List Char} (h : Solid text) {c : Char} {front : List Char}
    (first : Text.isBlank c = false) (unclosed : '\x7d' ∉ c :: front) :
    Solid (c :: front ++ text) := by
  obtain ⟨d, rest, rfl, -⟩ := h.starts
  refine ⟨⟨c, _, rfl, first⟩, fun last mem => h.ends last ?_, ?_⟩
  · rwa [List.getLast?_append_of_ne_nil _ (List.cons_ne_nil d rest)] at mem
  · rw [List.mem_append]
    exact not_or.2 ⟨unclosed, h.unclosed⟩

theorem Solid.of_all {text : List Char} (some : text ≠ [])
    (all : ∀ c ∈ text, Text.isBlank c = false ∧ c ≠ '\x7d') : Solid text := by
  obtain ⟨c, rest, rfl⟩ := List.exists_cons_of_ne_nil some
  refine ⟨⟨c, rest, rfl, (all c (by simp)).1⟩, fun last mem => ?_, fun mem => (all _ mem).2 rfl⟩
  exact (all last (List.mem_of_getLast? mem)).1

theorem ofInt_solid (n : Int) : Solid (Decimal.ofInt n).toList ∧
    ∃ c rest, (Decimal.ofInt n).toList = c :: rest ∧ (c = '-' ∨ Text.isDigit c = true) := by
  have digits (m : Nat) : Solid (Decimal.digits m) := by
    obtain ⟨c, rest, here, -⟩ := Decimal.digits_head m
    refine .of_all (by simp [here]) fun d mem => ?_
    have digit := Decimal.isDigit_of_mem mem
    refine ⟨Text.not_isBlank_of_isDigit digit, ?_⟩
    rintro rfl
    cases digit
  cases n with
  | ofNat m =>
    obtain ⟨c, rest, here, digit⟩ := Decimal.digits_head m
    exact ⟨by simpa [Decimal.ofInt] using digits m, c, rest, by simpa [Decimal.ofInt] using here,
      .inr digit⟩
  | negSucc m =>
    refine ⟨?_, '-', Decimal.digits (m + 1), by simp [Decimal.ofInt], .inl rfl⟩
    have signed : Solid (['-'] ++ Decimal.digits (m + 1)) :=
      (digits (m + 1)).behind (by decide) (by decide)
    simpa [Decimal.ofInt] using signed

/-- The text of an expression stands in an action as it is, and starts unlike every word there. -/
theorem Expr.Writable.solid {e : Expr} (h : e.Writable) : Solid e.chars ∧
    ∃ c rest, e.chars = c :: rest ∧ startsExpr c = true := by
  induction e with
  | here => exact ⟨.of_all (by simp [chars]) (by simp [chars]; decide), '.', [], rfl, rfl⟩
  | path names =>
    obtain ⟨some, words⟩ := h
    obtain ⟨name, rest, rfl⟩ := List.exists_cons_of_ne_nil some
    refine ⟨.of_all (by simp [chars]) fun c mem => ?_, '.', _, rfl, rfl⟩
    simp only [chars, List.mem_flatMap, List.mem_cons] at mem
    obtain ⟨name, named, rfl | mem⟩ := mem
    · decide
    · have inside := (words name (List.mem_cons.2 named)).2 c mem
      refine ⟨Text.not_isBlank_of_isWordPart inside, ?_⟩
      rintro rfl
      exact absurd inside (by decide)
  | string text =>
    have closing : Solid ['"'] := .of_all (by simp) (by simp; decide)
    refine ⟨closing.behind (c := '"') (by decide) ?_, '"', _, rfl, rfl⟩
    rw [List.mem_cons, not_or]
    exact ⟨by decide, fun mem => (h _ mem).2.2 rfl⟩
  | int n =>
    obtain ⟨solid, c, rest, here, first⟩ := ofInt_solid n.toInt
    refine ⟨solid, c, rest, here, ?_⟩
    rcases first with rfl | digit
    · rfl
    · simp [startsExpr, digit]
  | not inner ih =>
    exact ⟨(ih h).1.behind (c := 'n') (by decide) (by decide), 'n', _, rfl, rfl⟩

theorem after?_append (front text : List Char) : after? front (front ++ text) = some text := by
  simp [after?]

/-- What starts with another character does not start with a word. -/
theorem after?_none {f c : Char} {front text : List Char} (other : f ≠ c) :
    after? (f :: front) (c :: text) = none := by
  simp [after?, other]

theorem readExpr_not {inner : List Char} (solid : Solid (['n', 'o', 't', ' '] ++ inner)) :
    readExpr (['n', 'o', 't', ' '] ++ inner) = (readExpr inner).map .not := by
  have found := after?_append ['n', 'o', 't', ' '] inner
  rw [← solid.trimmed_eq] at found
  rw [readExpr]
  split
  · next rest here =>
    rw [found] at here
    cases here
    rfl
  · next none =>
    rw [found] at none
    cases none

theorem readExpr_operand {c : Char} {rest : List Char} (solid : Solid (c :: rest))
    (other : 'n' ≠ c) :
    readExpr (c :: rest) = readOperand (c :: rest) := by
  rw [readExpr]
  split
  · next rest' here =>
    rw [solid.trimmed_eq, after?_none other] at here
    cases here
  · rw [solid.trimmed_eq]

/-- A name without points is the first part in front of the next point. -/
theorem splitPoints_word {name : List Char} (word : '.' ∉ name) (rest : List Char) :
    splitPoints (name ++ '.' :: rest) = name :: splitPoints rest := by
  induction name with
  | nil => simp [splitPoints]
  | cons c name ih =>
    obtain ⟨other, word⟩ := not_or.1 (List.mem_cons.not.1 word)
    simp [splitPoints, Ne.symm other, ih word]

theorem splitPoints_last {name : List Char} (word : '.' ∉ name) : splitPoints name = [name] := by
  induction name with
  | nil => rfl
  | cons c name ih =>
    obtain ⟨other, word⟩ := not_or.1 (List.mem_cons.not.1 word)
    simp [splitPoints, Ne.symm other, ih word]

/-- The names of a path are the parts between its points. -/
theorem splitPoints_path {name : String} {names : List String}
    (words : ∀ n ∈ name :: names, '.' ∉ n.toList) :
    splitPoints (name.toList ++ (Expr.path names).chars) = (name :: names).map String.toList := by
  induction names generalizing name with
  | nil => simpa [Expr.chars] using splitPoints_last (words name (by simp))
  | cons next names ih =>
    have later := ih fun n mem => words n (List.mem_cons_of_mem _ mem)
    simp only [Expr.chars, List.flatMap_cons, List.cons_append] at later ⊢
    rw [splitPoints_word (words name (by simp)), later]
    rfl

theorem readOperand_path {names : List String} (h : (Expr.path names).Writable) :
    readOperand (Expr.path names).chars = .ok (.path names) := by
  obtain ⟨some, words⟩ := h
  obtain ⟨name, rest, rfl⟩ := List.exists_cons_of_ne_nil some
  have points : ∀ n ∈ name :: rest, '.' ∉ n.toList :=
    fun n mem point => absurd ((words n mem).2 _ point) (by decide)
  have cut := splitPoints_path points
  have shape : (Expr.path (name :: rest)).chars =
      '.' :: (name.toList ++ (Expr.path rest).chars) := rfl
  have noName : name.toList ≠ [] := by simpa using (words name (by simp)).1
  have long : '.' :: (name.toList ++ (Expr.path rest).chars) ≠ ['.'] := by simp [noName]
  have full : ((name :: rest).map String.toList).any List.isEmpty = false := by
    rw [List.any_map, List.any_eq_false]
    exact fun n mem => by simpa using (words n mem).1
  rw [shape, readOperand, if_neg long]
  simp only [cut, full]
  simp

theorem readOperand_string (text : String) :
    readOperand (Expr.string text).chars = .ok (.string text) := by
  have last : ('"' :: (text.toList ++ ['"'])).getLast? = some '"' := by
    rw [← List.cons_append, List.getLast?_concat]
  simp [readOperand, Expr.chars, last]

theorem readOperand_int (n : Int64) : readOperand (Expr.int n).chars = .ok (.int n) := by
  have read := Decimal.readInt64_ofInt n
  obtain ⟨-, c, rest, here, first⟩ := ofInt_solid n.toInt
  have noPoint : c ≠ '.' := by
    rintro rfl
    revert first
    decide
  have noQuote : c ≠ '"' := by
    rintro rfl
    revert first
    decide
  have whole : String.ofList (c :: rest) = Decimal.ofInt n.toInt := by simp [← here]
  simp only [Expr.chars, here]
  unfold readOperand
  split <;> simp_all

/-- What is written as an expression is read as this expression. -/
theorem readExpr_chars {e : Expr} (h : e.Writable) : readExpr e.chars = .ok e := by
  induction e with
  | here => exact readExpr_operand h.solid.1 (by decide)
  | path names =>
    obtain ⟨some, -⟩ := id h
    obtain ⟨name, rest, rfl⟩ := List.exists_cons_of_ne_nil some
    exact (readExpr_operand h.solid.1 (by decide)).trans (readOperand_path h)
  | string text => exact (readExpr_operand h.solid.1 (by decide)).trans (readOperand_string text)
  | int n =>
    obtain ⟨c, rest, here, first⟩ := (ofInt_solid n.toInt).2
    have other : 'n' ≠ c := by
      rintro rfl
      revert first
      decide
    have operand := readOperand_int n
    have solid := h.solid.1
    simp only [Expr.chars, here] at solid operand ⊢
    exact (readExpr_operand solid other).trans operand
  | not inner ih =>
    rw [Expr.chars, readExpr_not h.solid.1, ih h]
    rfl

/-! ## Actions -/

theorem trim_ofList {text : List Char} (solid : Solid text) :
    Text.trim (String.ofList text) = String.ofList text := by
  rw [Text.trim, String.toList_ofList]
  exact congrArg String.ofList solid.trimmed_eq

/-- The text of an action stands in its braces as it is. -/
theorem Part.Writable.solid {p : Part} (h : p.Writable) (action : p.isAction) : Solid p.inside := by
  cases p with
  | literal text => cases action
  | output e => exact (Expr.Writable.solid h).1
  | choice e => exact (Expr.Writable.solid h).1.behind (c := 'i') (by decide) (by decide)
  | range e => exact (Expr.Writable.solid h).1.behind (c := 'r') (by decide) (by decide)
  | otherwise | finish =>
    refine .of_all (by simp [inside]) ?_
    simp only [inside, List.forall_mem_cons, List.not_mem_nil, false_implies, implies_true, and_true]
    decide

/-- A text that starts with another character is another text. -/
theorem ofList_ne {text : List Char} {word : String} (other : text.head? ≠ word.toList.head?) :
    String.ofList text ≠ word := by
  rintro rfl
  simp at other

/-- What is written as an action does what it was written for. -/
theorem actionPart_inside {p : Part} (h : p.Writable) (action : p.isAction) :
    actionPart (String.ofList p.inside) = .ok p := by
  cases p with
  | literal text => cases action
  | otherwise | finish => rfl
  | output e =>
    obtain ⟨c, rest, here, first⟩ := (Expr.Writable.solid h).2
    have read := readExpr_chars h
    have other : 'e' ≠ c ∧ 'i' ≠ c ∧ 'r' ≠ c := by
      refine ⟨?_, ?_, ?_⟩ <;>
      · rintro rfl
        cases first
    obtain ⟨notE, notI, notR⟩ := other
    rw [here] at read
    rw [Part.inside, here, actionPart, if_neg (ofList_ne (by simpa using notE.symm)),
      if_neg (ofList_ne (by simpa using notE.symm)), String.toList_ofList]
    simp only [after?_none notI, after?_none notR, read]
    rfl
  | choice e =>
    have found := after?_append ['i', 'f', ' '] e.chars
    rw [Part.inside, actionPart, if_neg (ofList_ne (by simp)), if_neg (ofList_ne (by simp)),
      String.toList_ofList]
    simp only [found, readExpr_chars h]
    rfl
  | range e =>
    have found := after?_append ['r', 'a', 'n', 'g', 'e', ' '] e.chars
    have noChoice : after? ['i', 'f', ' '] (['r', 'a', 'n', 'g', 'e', ' '] ++ e.chars) = none :=
      after?_none (by decide)
    rw [Part.inside, actionPart, if_neg (ofList_ne (by simp)), if_neg (ofList_ne (by simp)),
      String.toList_ofList]
    simp only [found, noChoice, readExpr_chars h]
    rfl

/-! ## Pieces -/

theorem breakAt_none {mark : Char} {text : List Char} (free : mark ∉ text) :
    breakAt mark text = none := by
  induction text with
  | nil => rfl
  | cons c text ih =>
    obtain ⟨other, free⟩ := not_or.1 (List.mem_cons.not.1 free)
    cases text with
    | nil => rfl
    | cons d text => simp [breakAt, Ne.symm other, ih free]

theorem breakAt_append {mark : Char} {text : List Char} (free : mark ∉ text) (rest : List Char) :
    breakAt mark (text ++ mark :: mark :: rest) = some (text, rest) := by
  induction text with
  | nil => simp [breakAt]
  | cons c text ih =>
    obtain ⟨other, free⟩ := not_or.1 (List.mem_cons.not.1 free)
    have later := ih free
    cases text with
    | nil => simp [breakAt, Ne.symm other]
    | cons d text =>
      simp only [List.cons_append] at later ⊢
      simp [breakAt, Ne.symm other, later]

/-- An action is cut where its closing braces are. -/
theorem pieces_action {action : List Char} (solid : Solid action) {rest : List Char}
    {given : List Piece} (behind : pieces rest = .ok given) :
    pieces ('\x7b' :: '\x7b' :: (action ++ '\x7d' :: '\x7d' :: rest)) =
      .ok (.action (String.ofList action) :: given) := by
  have closes := breakAt_append solid.unclosed rest
  rw [pieces]
  split
  · next none => simp [breakAt] at none
  · next before rest' found =>
    obtain ⟨rfl, rfl⟩ : [] = before ∧ _ = rest' := by simpa [breakAt] using found
    split
    · next none =>
      rw [closes] at none
      cases none
    · next action' after found =>
      rw [closes] at found
      cases found
      simp [behind, trim_ofList solid, literalPiece]

theorem pieces_literal {text : List Char} (free : '\x7b' ∉ text) :
    pieces text = .ok (literalPiece text) := by
  rw [pieces]
  split
  · rfl
  · next found =>
    rw [breakAt_none free] at found
    cases found

/-- A literal in front of an action is cut off where the action starts. -/
theorem pieces_before {before : List Char} (free : '\x7b' ∉ before) {rest : List Char}
    {given : List Piece} (behind : pieces ('\x7b' :: '\x7b' :: rest) = .ok given) :
    pieces (before ++ '\x7b' :: '\x7b' :: rest) = .ok (literalPiece before ++ given) := by
  have opens := breakAt_append free rest
  rw [pieces] at behind ⊢
  split at behind
  · next none => simp [breakAt] at none
  · next front rest' found =>
    obtain ⟨rfl, rfl⟩ : [] = front ∧ rest = rest' := by simpa [breakAt] using found
    split at behind
    · cases behind
    · next action after closes =>
      split at behind
      · cases behind
      · next more read =>
        cases behind
        split
        · next none =>
          rw [opens] at none
          cases none
        · next found =>
          rw [opens] at found
          cases found
          split
          · next none =>
            rw [closes] at none
            cases none
          · next found =>
            rw [closes] at found
            cases found
            simp [read, literalPiece]

theorem Part.chars_action {p : Part} (action : p.isAction) :
    p.chars = '\x7b' :: '\x7b' :: (p.inside ++ ['\x7d', '\x7d']) := if_pos action

/-- The texts of parts are cut into pieces that stand for these parts. -/
theorem pieces_chars {ps : List Part} (writable : ∀ p ∈ ps, p.Writable)
    (apart : ps.IsChain fun p q => p.isAction ∨ q.isAction) :
    ∃ given, pieces (ps.flatMap Part.chars) = .ok given ∧ Stands given ps := by
  induction ps with
  | nil => exact ⟨[], by simp [pieces_literal, literalPiece], .nil⟩
  | cons p ps ih =>
    have here := writable p (by simp)
    obtain ⟨given, read, stands⟩ := ih (fun q mem => writable q (by simp [mem])) apart.tail
    rw [List.flatMap_cons]
    by_cases action : p.isAction
    · have known := actionPart_inside here action
      refine ⟨.action (String.ofList p.inside) :: given, ?_, .cons known stands⟩
      simpa [Part.chars_action action] using pieces_action (here.solid action) read
    · match p with
      | .literal text =>
        have free : '\x7b' ∉ text.toList := fun mem => (here.2 _ mem).1 rfl
        have whole : literalPiece text.toList = [.literal text] := by
          simp [literalPiece, here.1]
        refine ⟨.literal text :: given, ?_, .cons rfl stands⟩
        cases ps with
        | nil =>
          cases stands
          simpa [whole, Part.chars, Part.isAction, Part.inside] using pieces_literal free
        | cons q qs =>
          have next : q.isAction := by
            simpa [Part.isAction] using (List.isChain_cons_cons.1 apart).1
          rw [List.flatMap_cons, Part.chars_action next] at read ⊢
          simpa [whole, Part.chars, Part.isAction, Part.inside] using pieces_before free read

/-! ## Templates -/

/-- The canonical text of a tree is read as this tree. A text is a template if and only if each of
its pieces is a literal or an action that stands for something and the blocks of these nest. -/
theorem parse_inverts : (∀ nodes, Writable nodes → parse (text nodes) = .ok nodes) ∧
    ∀ source, (∃ nodes, parse source = .ok nodes) ↔
      ∃ given ps, pieces source.toList = .ok given ∧ Stands given ps ∧ Nested ps := by
  refine ⟨fun nodes writable => ?_, fun source => ?_⟩
  · obtain ⟨given, read, stands⟩ := pieces_chars writable.parts writable.apart
    exact parse_iff.2 ⟨given, by simpa [text] using read, stands⟩
  · constructor
    · rintro ⟨nodes, read⟩
      obtain ⟨given, cut, stands⟩ := parse_iff.1 read
      exact ⟨given, parts nodes, cut, stands, nested_iff.2 ⟨nodes, rfl⟩⟩
    · rintro ⟨given, ps, cut, stands, nested⟩
      obtain ⟨nodes, rfl⟩ := nested_iff.1 nested
      exact ⟨nodes, parse_iff.2 ⟨given, cut, stands⟩⟩

/-- A choice between two literals is read back from its canonical text. -/
theorem parse_inverts_choice :
    Writable [.choice (.path ["ok"]) [.literal "yes"] (some [.literal "no"])] ∧
      parse "\x7b\x7bif .ok\x7d\x7dyes\x7b\x7belse\x7d\x7dno\x7b\x7bend\x7d\x7d" =
        .ok [.choice (.path ["ok"]) [.literal "yes"] (some [.literal "no"])] := by
  have split : parts [.choice (.path ["ok"]) [.literal "yes"] (some [.literal "no"])] =
      [.choice (.path ["ok"]), .literal "yes", .otherwise, .literal "no", .finish] := by
    simp [parts]
  have writable : Writable [.choice (.path ["ok"]) [.literal "yes"] (some [.literal "no"])] := by
    constructor
    · rw [split]
      simp only [Part.Writable, Expr.Writable, List.forall_mem_cons, List.not_mem_nil,
        String.reduceToList, false_implies, implies_true, and_true]
      decide
    · rw [split]
      decide
  refine ⟨writable, ?_⟩
  rw [← parse_inverts.1 _ writable, text, split]
  rfl

end Template

end StackScript
