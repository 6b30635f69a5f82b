import StackScript.Compiler.Expression
import StackScript.Machine.Operator

/-!
# Expressions as trees

Literals, names, arrays, signs, binary operators and choices, and how they are written: `Written`
says which tokens spell a tree at a precedence, `words` is the writing with no parentheses but
those that precedence and association from the left ask for.

Main statement: `written_of_words`. Tokens on a line that spell the words of a tree are a writing of
it.
-/
namespace StackScript

/-! ## Precedence -/

/-- How tightly an expression holds together, the loosest first. -/
inductive Precedence where
  | choice
  | or
  | and
  | relation
  | sum
  | product
  | unary
deriving Repr, DecidableEq

namespace Precedence

/-- The place among all precedences. -/
def rank : Precedence → Nat
  | choice => 0
  | or => 1
  | and => 2
  | relation => 3
  | sum => 4
  | product => 5
  | unary => 6

/-- The next tighter precedence. -/
def next : Precedence → Precedence
  | choice => or
  | or => and
  | and => relation
  | relation => sum
  | sum => product
  | product => unary
  | unary => unary

/-- The operators of a precedence, in the order in which they are tried. -/
def operators : Precedence → List String
  | choice => []
  | or => ["||"]
  | and => ["&&"]
  | relation => ["==", "!=", "<=", ">=", "<", ">"]
  | sum => ["+", "-", "&"]
  | product => ["*", "/", "%", "|", "^", "<<", ">>"]
  | unary => []

theorem rank_next {p : Precedence} (h : p.rank < unary.rank) : p.next.rank = p.rank + 1 := by
  cases p <;> first | rfl | exact absurd h (by decide)

theorem rank_le (p : Precedence) : p.rank ≤ unary.rank := by cases p <;> decide

theorem eq_of_rank {p q : Precedence} (h : p.rank = q.rank) : p = q := by
  cases p <;> cases q <;> first | rfl | cases h

end Precedence

/-! ## Operators -/

/-- The binary operators. -/
inductive Operation where
  | or
  | and
  | equal
  | notEqual
  | lessOrEqual
  | greaterOrEqual
  | less
  | greater
  | add
  | subtract
  | bitAnd
  | multiply
  | divide
  | remainder
  | bitOr
  | power
  | shiftLeft
  | shiftRight
deriving Repr, DecidableEq

namespace Operation

/-- How an operator is written. -/
def word : Operation → String
  | or => "||"
  | and => "&&"
  | equal => "=="
  | notEqual => "!="
  | lessOrEqual => "<="
  | greaterOrEqual => ">="
  | less => "<"
  | greater => ">"
  | add => "+"
  | subtract => "-"
  | bitAnd => "&"
  | multiply => "*"
  | divide => "/"
  | remainder => "%"
  | bitOr => "|"
  | power => "^"
  | shiftLeft => "<<"
  | shiftRight => ">>"

/-- How tightly an operator binds. -/
def precedence : Operation → Precedence
  | or => .or
  | and => .and
  | equal | notEqual | lessOrEqual | greaterOrEqual | less | greater => .relation
  | add | subtract | bitAnd => .sum
  | multiply | divide | remainder | bitOr | power | shiftLeft | shiftRight => .product

theorem word_mem (op : Operation) : op.word ∈ op.precedence.operators := by
  cases op <;> decide

end Operation

/-- The signs before an operand. -/
inductive Sign where
  | minus
  | not
deriving Repr, DecidableEq

/-- How a sign is written. -/
def Sign.word : Sign → String
  | minus => "-"
  | not => "!"

/-! ## Trees -/

/-- The value of a token that stands for one. -/
def Token.literal? (tag : TokenClass) (spelling : String) : Option Value :=
  match tag with
  | .integer => (Decimal.readInt64 spelling).map .int
  | .float => (Decimal.readFloat spelling).map .float64
  | .string => some (.string spelling)
  | .boolean => some (.bool (spelling == "true"))
  | .reserved => if spelling = "nil" then some .nil else none
  | _ => none

/-- A class and a spelling of a token that stands for a value. -/
structure Literal where
  tag : TokenClass
  spelling : String
  value : Value
  reads : Token.literal? tag spelling = some value

/-- An expression. -/
inductive Expr where
  | literal (l : Literal)
  | name (x : String)
  | array (items : List Expr)
  | unary (sign : Sign) (e : Expr)
  | binary (op : Operation) (a b : Expr)
  | choice (c a b : Expr)

/-! ## Writing -/

/-- A class and a spelling of a token. -/
abbrev Word := TokenClass × String

/-- The class and the spelling of a token. -/
def Token.word (t : Token) : Word := (t.tag, t.spelling)

/-- Punctuation as a word. -/
def mark (text : String) : Word := (.punctuation, text)

theorem Token.is_of_word {t : Token} {text : String} (h : t.word = mark text) : t.is text := by
  obtain ⟨tag, spelling⟩ := Prod.mk.inj h
  rw [Token.is_iff]
  exact ⟨.inl tag, spelling⟩

theorem Token.is_other {t : Token} {text other : String} (h : t.is text) (ne : text ≠ other) :
    t.is other = false := by
  rw [Token.is_iff] at h
  simp [Token.is, h.2, ne]

/-- Whether empty brackets have a `*` behind them on their line, as at the start of the type of an
array of pointers. -/
def Token.OpensPointers (ts : List Token) : Prop :=
  ∃ (i : Nat) (a b t : Token), ts[i]? = some a ∧ ts[i + 1]? = some b ∧ ts[i + 2]? = some t ∧
    a.is "[" ∧ b.is "]" ∧ t.is "*" ∧ t.line = b.line

/-- Whether empty brackets have a `*` behind them is told from three tokens at a time. -/
theorem Token.opensPointers_cons {a b t : Token} {ts : List Token} :
    OpensPointers (a :: b :: t :: ts) ↔
      (a.is "[" ∧ b.is "]" ∧ t.is "*" ∧ t.line = b.line) ∨ OpensPointers (b :: t :: ts) := by
  constructor
  · rintro ⟨i, a', b', t', first, second, third, h⟩
    cases i with
    | zero =>
      cases Option.some.inj first
      cases Option.some.inj second
      cases Option.some.inj third
      exact .inl h
    | succ i => exact .inr ⟨i, a', b', t', first, second, third, h⟩
  · rintro (h | ⟨i, found⟩)
    · exact ⟨0, a, b, t, rfl, rfl, rfl, h⟩
    · exact ⟨i + 1, found⟩

theorem Token.not_opensPointers {ts : List Token} (few : ts.length < 3) : ¬OpensPointers ts := by
  rintro ⟨i, _, _, _, -, -, found, -⟩
  obtain ⟨inside, -⟩ := List.getElem?_eq_some_iff.1 found
  omega

instance Token.decidableOpensPointers : (ts : List Token) → Decidable (OpensPointers ts)
  | _ :: b :: t :: ts =>
    have := decidableOpensPointers (b :: t :: ts)
    decidable_of_iff' _ opensPointers_cons
  | [_, _] => isFalse (not_opensPointers (Nat.lt_succ_self 2))
  | [_] => isFalse (not_opensPointers (Nat.lt_succ_of_lt (Nat.lt_succ_self 1)))
  | [] => isFalse (not_opensPointers (Nat.zero_lt_succ 2))

/-- A token stands on the line of the one before it. -/
def Token.Follows (ts : List Token) (t : Token) : Prop := ∀ u ∈ ts.getLast?, t.line = u.line

/-- An expression of a precedence, or expressions with commas between them. -/
inductive Phrase where
  | expr (p : Precedence) (e : Expr)
  | items (es : List Expr)

/-- Tokens that spell a phrase, with any parentheses that are not needed. A line may end behind an
operator, but not before one. -/
inductive Written : Phrase → List Token → Prop
  | literal {t : Token} (l : Literal) (tag : t.tag = l.tag) (spelling : t.spelling = l.spelling) :
      Written (.expr .unary (.literal l)) [t]
  | name {t : Token} (tag : t.tag = .identifier) :
      Written (.expr .unary (.name t.spelling)) [t]
  | array {first last : Token} {items : List Expr} {ts : List Token} (opens : first.word = mark "[")
      (parts : Written (.items items) ts) (closes : last.word = mark "]") :
      Written (.expr .unary (.array items)) (first :: ts ++ [last])
  | parentheses {first last : Token} {e : Expr} {ts : List Token} (opens : first.word = mark "(")
      (inner : Written (.expr .choice e) ts) (closes : last.word = mark ")") :
      Written (.expr .unary e) (first :: ts ++ [last])
  | unary {t : Token} (sign : Sign) {e : Expr} {ts : List Token} (mark : t.word = mark sign.word)
      (operand : Written (.expr .unary e) ts) : Written (.expr .unary (.unary sign e)) (t :: ts)
  | binary {t : Token} (op : Operation) {a b : Expr} {ta tb : List Token}
      (left : Written (.expr op.precedence a) ta) (mark : t.word = mark op.word)
      (follows : Token.Follows ta t)
      (right : Written (.expr op.precedence.next b) tb) :
      Written (.expr op.precedence (.binary op a b)) (ta ++ t :: tb)
  | choice {t u : Token} {c a b : Expr} {tc ta tb : List Token}
      (condition : Written (.expr .or c) tc) (asks : t.word = mark "?")
      (follows : Token.Follows tc t) (yes : Written (.expr .choice a) ta)
      (parts : u.word = mark ":") (no : Written (.expr .choice b) tb) :
      Written (.expr .choice (.choice c a b)) (tc ++ t :: ta ++ u :: tb)
  | tighter {p : Precedence} {e : Expr} {ts : List Token} (h : Written (.expr p.next e) ts) :
      Written (.expr p e) ts
  | none : Written (.items []) []
  | last {e : Expr} {ts : List Token} (h : Written (.expr .choice e) ts) : Written (.items [e]) ts
  | more {t : Token} {e : Expr} {es : List Expr} {ts tes : List Token}
      (first : Written (.expr .choice e) ts) (comma : t.word = mark ",") (rest : Written (.items es) tes)
      (some : es ≠ []) : Written (.items (e :: es)) (ts ++ t :: tes)

/-- No literal is a word but `nil`. -/
theorem Literal.is_other {t : Token} (l : Literal) (tag : t.tag = l.tag)
    (spelling : t.spelling = l.spelling) {text : String} (other : text ≠ "nil") :
    t.is text = false := by
  obtain ⟨_, _, value, reads⟩ := l
  subst tag spelling
  cases tag : t.tag with
  | reserved =>
    simp only [tag, Token.literal?] at reads
    split at reads
    · rename_i nil
      rw [Token.is, nil, beq_eq_false_iff_ne.2 other.symm, Bool.and_false]
    · cases reads
  | punctuation =>
    rw [tag] at reads
    cases reads
  | _ => simp [Token.is, tag]

namespace Written

/-- The words that an expression may start with, beside names and literals. -/
def starts : List String := ["[", "(", "-", "!", "nil"]

theorem starts_of_word {t : Token} {start : String} (h : t.word = mark start)
    (mem : start ∈ starts) : ∀ text ∉ starts, t.is text = false := by
  intro text missing
  refine Token.is_other (Token.is_of_word h) ?_
  rintro rfl
  exact missing mem

/-- An expression starts with a token, and not with any. -/
theorem first {p : Precedence} {e : Expr} {ts : List Token} (h : Written (.expr p e) ts) :
    ∃ t rest, ts = t :: rest ∧ ∀ text ∉ starts, t.is text = false := by
  generalize hq : Phrase.expr p e = q at h
  induction h generalizing p e with
  | literal l tag spelling =>
    refine ⟨_, _, rfl, fun text missing => l.is_other tag spelling ?_⟩
    rintro rfl
    exact missing (by decide)
  | name tag => exact ⟨_, _, rfl, fun text _ => by simp [Token.is, tag]⟩
  | array opens | parentheses opens => exact ⟨_, _, rfl, starts_of_word opens (by decide)⟩
  | unary sign word => exact ⟨_, _, rfl, starts_of_word word (by cases sign <;> decide)⟩
  | binary _ _ _ _ _ ih =>
    obtain ⟨t, rest, rfl, other⟩ := ih rfl
    exact ⟨t, _, rfl, other⟩
  | choice _ _ _ _ _ _ ih =>
    obtain ⟨t, rest, rfl, other⟩ := ih rfl
    exact ⟨t, _, rfl, other⟩
  | tighter _ ih =>
    cases hq
    exact ih rfl
  | none | last | more => cases hq

theorem ne_nil {p : Precedence} {e : Expr} {ts : List Token} (h : Written (.expr p e) ts) :
    ts ≠ [] := by
  obtain ⟨t, rest, rfl, -⟩ := h.first
  simp

/-- Items take at least as many tokens as there are. -/
theorem items_length {es : List Expr} {ts : List Token} (h : Written (.items es) ts) :
    es.length ≤ ts.length := by
  generalize hq : Phrase.items es = q at h
  induction h generalizing es with
  | none =>
    cases hq
    exact Nat.le_refl _
  | last h =>
    cases hq
    exact List.length_pos_iff.2 h.ne_nil
  | more _ _ _ _ _ ih =>
    cases hq
    have := ih rfl
    simp only [List.length_cons, List.length_append]
    omega
  | _ => cases hq

/-- What is written at a precedence is written at every looser one. -/
theorem looser {p q : Precedence} {e : Expr} {ts : List Token} (h : Written (.expr q e) ts)
    (le : p.rank ≤ q.rank) : Written (.expr p e) ts := by
  obtain ⟨n, hn⟩ : ∃ n, p.rank + n = q.rank := ⟨q.rank - p.rank, by omega⟩
  have most := q.rank_le
  induction n generalizing p with
  | zero => exact Precedence.eq_of_rank hn ▸ h
  | succ n ih =>
    have step := Precedence.rank_next (p := p) (by omega)
    exact .tighter (ih (by omega) (by omega))

end Written

/-! ## The writing with no more parentheses than needed -/

/-- Words between parentheses, if they are needed. -/
def enclosedIf (needed : Bool) (ws : List Word) : List Word :=
  if needed then mark "(" :: ws ++ [mark ")"] else ws

mutual
/-- The words of a tree where a precedence is asked for. -/
def Expr.words (p : Precedence) : Expr → List Word
  | .literal l => [(l.tag, l.spelling)]
  | .name x => [(.identifier, x)]
  | .array items => mark "[" :: Expr.itemWords items ++ [mark "]"]
  | .unary sign e => mark sign.word :: e.words .unary
  | .binary op a b =>
    enclosedIf (op.precedence.rank < p.rank)
      (a.words op.precedence ++ mark op.word :: b.words op.precedence.next)
  | .choice c a b =>
    enclosedIf (Precedence.choice.rank < p.rank)
      (c.words .or ++ mark "?" :: a.words .choice ++ mark ":" :: b.words .choice)
/-- The words of expressions with commas between them. -/
def Expr.itemWords : List Expr → List Word
  | [] => []
  | [e] => e.words .choice
  | e :: es => e.words .choice ++ mark "," :: Expr.itemWords es
end

/-- On one line every token follows those before it. -/
theorem Token.follows_of_lines {line : Nat} {ts us : List Token} {t : Token}
    (lines : ∀ u ∈ ts ++ t :: us, u.line = line) : Token.Follows ts t := by
  intro u mem
  rw [lines t (by simp), lines u (List.mem_append_left _ (List.mem_of_getLast? mem))]

theorem enclosedIf_written {p q : Precedence} {e : Expr} {ws : List Word} {ts : List Token}
    (inner : ∀ us ⊆ ts, us.map Token.word = ws → Written (.expr q e) us)
    (h : ts.map Token.word = enclosedIf (q.rank < p.rank) ws) : Written (.expr p e) ts := by
  by_cases needed : q.rank < p.rank
  · simp only [enclosedIf, needed, decide_true, if_true, List.cons_append] at h
    obtain ⟨first, rest, rfl, opens, hrest⟩ := List.map_eq_cons_iff.1 h
    obtain ⟨ts, last, rfl, hts, hlast⟩ := List.map_eq_append_iff.1 hrest
    obtain ⟨last, _, rfl, closes, hnil⟩ := List.map_eq_cons_iff.1 hlast
    cases List.map_eq_nil_iff.1 hnil
    have h := (inner ts (by simp) hts).looser (p := .choice) (Nat.zero_le _)
    exact (Written.parentheses opens h closes).looser
      p.rank_le
  · simp only [enclosedIf, needed, decide_false] at h
    exact (inner ts (List.Subset.refl _) h).looser (by omega)

variable {line : Nat}

mutual
/-- Tokens on a line that spell the words of a tree are a writing of it. -/
theorem Expr.written_of_words : (e : Expr) → (p : Precedence) → (ts : List Token) →
    (∀ t ∈ ts, t.line = line) → ts.map Token.word = e.words p → Written (.expr p e) ts
  | .literal l, p, ts, _, h => by
    obtain ⟨t, _, rfl, word, hnil⟩ := List.map_eq_cons_iff.1 h
    cases List.map_eq_nil_iff.1 hnil
    obtain ⟨tag, spelling⟩ := Prod.mk.inj word
    exact (Written.literal l tag spelling).looser p.rank_le
  | .name x, p, ts, _, h => by
    obtain ⟨t, _, rfl, word, hnil⟩ := List.map_eq_cons_iff.1 h
    cases List.map_eq_nil_iff.1 hnil
    obtain ⟨tag, rfl⟩ := Prod.mk.inj word
    exact (Written.name tag).looser p.rank_le
  | .array items, p, ts, lines, h => by
    simp only [Expr.words, List.cons_append] at h
    obtain ⟨first, rest, rfl, opens, hrest⟩ := List.map_eq_cons_iff.1 h
    obtain ⟨ts, last, rfl, hts, hlast⟩ := List.map_eq_append_iff.1 hrest
    obtain ⟨last, _, rfl, closes, hnil⟩ := List.map_eq_cons_iff.1 hlast
    cases List.map_eq_nil_iff.1 hnil
    have parts := Expr.itemsWritten_of_words items ts (fun t mem => lines t (by simp [mem])) hts
    exact (Written.array opens parts closes).looser p.rank_le
  | .unary sign e, p, ts, lines, h => by
    obtain ⟨t, rest, rfl, word, hrest⟩ := List.map_eq_cons_iff.1 h
    have operand := e.written_of_words .unary rest (fun t mem => lines t (by simp [mem])) hrest
    exact (Written.unary sign word operand).looser p.rank_le
  | .binary op a b, p, ts, lines, h => by
    refine enclosedIf_written (fun us within h => ?_) h
    have lines := fun t mem => lines t (within mem)
    obtain ⟨ta, rest, rfl, ha, hrest⟩ := List.map_eq_append_iff.1 h
    obtain ⟨t, tb, rfl, word, hb⟩ := List.map_eq_cons_iff.1 hrest
    exact .binary op (a.written_of_words _ ta (fun t mem => lines t (by simp [mem])) ha) word
      (Token.follows_of_lines lines)
      (b.written_of_words _ tb (fun t mem => lines t (by simp [mem])) hb)
  | .choice c a b, p, ts, lines, h => by
    refine enclosedIf_written (fun us within h => ?_) h
    have lines := fun t mem => lines t (within mem)
    simp only [List.append_assoc, List.cons_append] at h
    obtain ⟨tc, rest, rfl, hc, hrest⟩ := List.map_eq_append_iff.1 h
    obtain ⟨t, rest, rfl, asks, hrest⟩ := List.map_eq_cons_iff.1 hrest
    obtain ⟨ta, rest, rfl, ha, hrest⟩ := List.map_eq_append_iff.1 hrest
    obtain ⟨u, tb, rfl, parts, hb⟩ := List.map_eq_cons_iff.1 hrest
    have condition := c.written_of_words _ tc (fun t mem => lines t (by simp [mem])) hc
    have yes := a.written_of_words _ ta (fun t mem => lines t (by simp [mem])) ha
    have no := b.written_of_words _ tb (fun t mem => lines t (by simp [mem])) hb
    simpa using Written.choice condition asks (Token.follows_of_lines lines) yes parts no
theorem Expr.itemsWritten_of_words : (es : List Expr) → (ts : List Token) →
    (∀ t ∈ ts, t.line = line) → ts.map Token.word = Expr.itemWords es → Written (.items es) ts
  | [], ts, _, h => by
    cases List.map_eq_nil_iff.1 h
    exact .none
  | [e], ts, lines, h => .last (e.written_of_words _ ts lines h)
  | e :: e' :: es, ts, lines, h => by
    obtain ⟨ta, rest, rfl, ha, hrest⟩ := List.map_eq_append_iff.1 h
    obtain ⟨t, tb, rfl, comma, hb⟩ := List.map_eq_cons_iff.1 hrest
    exact .more (e.written_of_words _ ta (fun t mem => lines t (by simp [mem])) ha) comma
      (Expr.itemsWritten_of_words (e' :: es) tb (fun t mem => lines t (by simp [mem])) hb)
      (by simp)
end

end StackScript
