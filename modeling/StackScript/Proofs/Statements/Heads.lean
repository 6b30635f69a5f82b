import StackScript.Proofs.Expressions.Operands
import StackScript.Proofs.Statements.Syntax
import StackScript.Compiler.Statement

/-!
# Looking ahead

Before it reads a branch or a loop the compiler looks ahead in its head for the word that says how it
goes on, a semicolon or `range`. And a statement ends where the next tokens cannot go on with it.

Main statements: `Written.passed`, `Assignment.Laid.passed` (a search in a head goes on over
expressions and assignments) and `Compiler.Ended.stops`.
-/
namespace StackScript

open CompileM

/-! ## The head of a statement -/

/-- A search in a head goes on over tokens, with as many brackets open behind them as before. -/
def Passed (text : String) (ts : List Token) : Prop :=
  ∀ (c : Token.Cursor) (bound n depth : Nat), 1 ≤ n → ts <+: c.tokens.toList.drop (c.pos + (n - 1)) →
    headContainsFrom c text (bound + ts.length) n depth =
      headContainsFrom c text bound (n + ts.length) depth

/-- Words that a search in a head stops at or counts. -/
def headWords (text : String) : List String := [text, "\x7b", "(", "[", ")", "]"]

theorem Token.Cursor.peek_of {c : Cursor} {n : Nat} {t : Token} {ts : List Token}
    (h : t :: ts <+: c.tokens.toList.drop (c.pos + (n - 1))) : c.peek n = t := by
  obtain ⟨rest, h⟩ := h
  have here := congrArg (·[0]?) h
  simp only [List.cons_append, List.getElem?_cons_zero, List.getElem?_drop, Nat.add_zero,
    Array.getElem?_toList] at here
  rw [peek, Array.getD_eq_getD_getElem?, ← here, Option.getD_some]

/-- The tokens behind the first one. -/
theorem Token.ahead_tail {ts all : List Token} {t : Token} {n k : Nat} (some : 1 ≤ n)
    (h : t :: ts <+: all.drop (k + (n - 1))) : ts <+: all.drop (k + (n + 1 - 1)) := by
  obtain ⟨rest, h⟩ := h
  refine ⟨rest, ?_⟩
  have behind := congrArg (List.drop 1) h
  rw [List.drop_drop] at behind
  rw [show k + (n + 1 - 1) = k + (n - 1) + 1 by omega, ← behind]
  rfl

theorem Token.ahead_right {ts us all : List Token} {n k : Nat} (some : 1 ≤ n)
    (h : ts ++ us <+: all.drop (k + (n - 1))) : us <+: all.drop (k + (n + ts.length - 1)) := by
  obtain ⟨rest, h⟩ := h
  refine ⟨rest, ?_⟩
  have behind := congrArg (List.drop ts.length) h
  rw [List.drop_drop] at behind
  rw [show k + (n + ts.length - 1) = k + (n - 1) + ts.length by omega, ← behind]
  simp

namespace Passed

variable {text : String} {ts us : List Token} {t : Token}

theorem nil : Passed text [] := fun _ _ _ _ _ _ => rfl

theorem append (h : Passed text ts) (k : Passed text us) : Passed text (ts ++ us) := by
  intro c bound n depth some ahead
  have behind := Token.ahead_right some ahead
  have first := h c (bound + us.length) n depth some ((List.prefix_append ts us).trans ahead)
  have second := k c bound (n + ts.length) depth (by omega) behind
  rw [List.length_append, show bound + (ts.length + us.length) = bound + us.length + ts.length by omega,
    first, second, Nat.add_assoc]

/-- A search goes on over a token that is no word of its own. -/
theorem one (proper : t.tag ≠ .endOfInput) (other : ∀ word ∈ headWords text, t.is word = false) :
    Passed text [t] := by
  intro c bound n depth some ahead
  have here := Token.Cursor.peek_of ahead
  have others : t.is text = false ∧ t.is "\x7b" = false ∧ t.is "(" = false ∧ t.is "[" = false ∧
      t.is ")" = false ∧ t.is "]" = false := by
    simpa [headWords] using other
  have noEnd : t.isEnd = false := by simpa [Token.isEnd] using proper
  simp [headContainsFrom, here, noEnd, others]

theorem cons (proper : t.tag ≠ .endOfInput) (other : ∀ word ∈ headWords text, t.is word = false)
    (h : Passed text ts) : Passed text (t :: ts) := (one proper other).append h

theorem of_word {word : String} (h : t.word = mark word) (other : word ∉ headWords text) :
    Passed text [t] := by
  refine one (by rw [(Prod.mk.inj h).1]; decide) fun w mem => ?_
  refine Token.is_other (Token.is_of_word h) ?_
  rintro rfl
  exact other mem

/-- A search goes on over brackets and what stands between them. -/
theorem between {first last : Token} {opening closing : String} (opens : first.word = mark opening)
    (inner : Passed text ts) (closes : last.word = mark closing)
    (pair : opening = "(" ∧ closing = ")" ∨ opening = "[" ∧ closing = "]")
    (other : text ∉ ["(", ")", "[", "]"]) : Passed text (first :: ts ++ [last]) := by
  intro c bound n depth some ahead
  have isFirst := Token.is_of_word opens
  have isLast := Token.is_of_word closes
  have ends : first.isEnd = false ∧ last.isEnd = false := by
    simp [Token.isEnd, (Prod.mk.inj opens).1, (Prod.mk.inj closes).1]
  rw [List.cons_append] at ahead
  have here := Token.Cursor.peek_of ahead
  have middle := Token.ahead_tail some ahead
  have behind := Token.ahead_right (by omega) middle
  have there := Token.Cursor.peek_of behind
  have length : (first :: ts ++ [last]).length = ts.length + 2 := by simp
  have inside := inner c (bound + 1) (n + 1) (depth + 1) (by omega)
    ((List.prefix_append ts [last]).trans middle)
  have no {t : Token} {word : String} (is : t.is word) (w : String) (ne : word ≠ w) :
      t.is w = false := Token.is_other is ne
  simp only [List.mem_cons, List.not_mem_nil, or_false, not_or] at other
  obtain ⟨a, b, d, e⟩ := other
  rw [length, show bound + (ts.length + 2) = bound + 1 + ts.length + 1 by omega, headContainsFrom, here]
  rcases pair with ⟨rfl, rfl⟩ | ⟨rfl, rfl⟩
  · simp only [ends, Bool.false_eq_true, if_false, no isFirst "\x7b" (by decide),
      no isFirst text (Ne.symm a), Bool.and_false, isFirst, Bool.true_or, if_true, inside]
    rw [headContainsFrom, there]
    simp [ends, isLast, no isLast "(" (by decide), no isLast "[" (by decide), Nat.add_assoc,
      Nat.add_comm 1]
  · simp only [ends, Bool.false_eq_true, if_false, no isFirst "\x7b" (by decide),
      no isFirst text (Ne.symm d), Bool.and_false, isFirst, Bool.or_true, if_true, inside]
    rw [headContainsFrom, there]
    simp [ends, isLast, no isLast "(" (by decide), no isLast "[" (by decide), Nat.add_assoc,
      Nat.add_comm 1]

end Passed

/-- The words that a head is searched for. -/
def headSearches : List String := [";", "range"]

theorem Literal.tag_ne (l : Literal) : l.tag ≠ .endOfInput := by
  obtain ⟨tag, spelling, value, reads⟩ := l
  rintro rfl
  cases reads

/-- A search in a head goes on over expressions. -/
theorem Written.passed {q : Phrase} {ts : List Token} {text : String} (h : Written q ts)
    (mem : text ∈ headSearches) : Passed text ts := by
  have words (word : String) (h : word ∈ headWords text) : word ∈ headWords ";" ++ headWords "range" := by
    simp only [headSearches, List.mem_cons, List.not_mem_nil, or_false] at mem
    rcases mem with rfl | rfl
    · exact List.mem_append_left _ h
    · exact List.mem_append_right _ h
  have other (word : String) (h : word ∉ headWords ";" ++ headWords "range") : word ∉ headWords text :=
    fun mem => h (words word mem)
  have bracket : text ∉ ["(", ")", "[", "]"] := by
    simp only [headSearches, List.mem_cons, List.not_mem_nil, or_false] at mem
    rcases mem with rfl | rfl <;> decide
  induction h with
  | literal l tag spelling =>
    refine .one (tag ▸ l.tag_ne) fun word mem => l.is_other tag spelling ?_
    rintro rfl
    exact absurd (words _ mem) (by decide)
  | name tag => exact .one (by rw [tag]; decide) fun word _ => by simp [Token.is, tag]
  | array opens _ closes ih => exact .between opens ih closes (.inr ⟨rfl, rfl⟩) bracket
  | parentheses opens _ closes ih => exact .between opens ih closes (.inl ⟨rfl, rfl⟩) bracket
  | unary sign word _ ih =>
    exact (Passed.of_word word (other _ (by cases sign <;> decide))).append ih
  | binary op _ word _ _ ihLeft ihRight =>
    exact ihLeft.append ((Passed.of_word word (other _ (by cases op <;> decide))).append ihRight)
  | choice _ asks _ _ parts _ ihCondition ihYes ihNo =>
    refine .append (ihCondition.append ((Passed.of_word asks (other _ (by decide))).append ihYes)) ?_
    exact (Passed.of_word parts (other _ (by decide))).append ihNo
  | tighter _ ih => exact ih
  | none => exact .nil
  | last _ ih => exact ih
  | more _ comma _ _ ihFirst ihRest =>
    exact ihFirst.append ((Passed.of_word comma (other _ (by decide))).append ihRest)

/-- A search for `range` goes on over assignments, as one for a semicolon does. -/
theorem Assignment.Laid.passed {a : Assignment} {ts : List Token} {text : String} (h : a.Laid ts)
    (mem : text ∈ headSearches) : Passed text ts := by
  cases h with
  | @intro t op isNew e ts name word line value =>
    refine .cons (by rw [name]; decide) (fun word _ => by simp [Token.is, name]) ?_
    refine (Passed.of_word word ?_).append (value.passed mem)
    simp only [headSearches, List.mem_cons, List.not_mem_nil, or_false] at mem
    rcases mem with rfl | rfl <;> cases isNew <;> decide

theorem Passed.semicolon {t : Token} (h : t.word = mark ";") : Passed "range" [t] :=
  .of_word h (by decide)

variable {c : Compiler} {t : Token} {ts us : List Token}

/-- A search in a head ends at the body, or at the word that is searched for. -/
theorem headContains_of {text : String} {found : Bool} (ahead : c.Ahead (ts ++ t :: us))
    (passed : Passed text ts) (proper : t.tag ≠ .endOfInput)
    (stop : t.is (if found then text else "\x7b"))
    (other : found = true → text ≠ "\x7b") : headContains text c = (.ok found, c) := by
  have bound := ahead.bound
  rw [List.length_append, List.length_cons] at bound
  obtain ⟨more, hmore⟩ : ∃ k, c.cursor.tokens.size - c.cursor.pos + 2 = k + 1 + ts.length :=
    ⟨c.cursor.tokens.size - c.cursor.pos + 1 - ts.length, by omega⟩
  have searched := passed c.cursor (more + 1) 1 0 (Nat.le_refl _)
    ((List.prefix_append ts (t :: us)).trans ahead)
  have behind := Token.ahead_right (Nat.le_refl 1) (k := c.cursor.pos) (show
    ts ++ t :: us <+: c.cursor.tokens.toList.drop (c.cursor.pos + (1 - 1)) from ahead)
  have here := Token.Cursor.peek_of behind
  have noEnd : t.isEnd = false := by simpa [Token.isEnd] using proper
  have answer : headContainsFrom c.cursor text (more + 1) (1 + ts.length) 0 = found := by
    rw [headContainsFrom, here]
    cases found with
    | false =>
      rw [if_neg Bool.false_ne_true] at stop
      simp [noEnd, stop]
    | true =>
      rw [if_pos rfl] at stop
      simp [noEnd, stop, Token.is_other stop (other rfl)]
  have same : headContains text c = (.ok (headContainsFrom c.cursor text
      (c.cursor.tokens.size - c.cursor.pos + 2) 1 0), c) := rfl
  rw [same, hmore, searched, answer]

/-! ## The end of a statement -/

namespace Compiler

/-- What comes next does not belong to the statement that was read: it ends the statement, or it
starts another one on another line. -/
inductive Ended (c : Compiler) : Prop
  | last (h : c.cursor.atEnd = true)
  | semicolon (h : c.cursor.isNext ";" = true)
  | brace (h : c.cursor.isNext "\x7d" = true)
  | line (alone : c.sameLine = false) (starts : c.cursor.current.Starts)

/-- All statements of a block, or of the source, were read. -/
def Closed (c : Compiler) : Prop := c.cursor.atEnd = true ∨ c.cursor.isNext "\x7d" = true

theorem Ended.of_cursor {c' : Compiler} (h : c.Ended) (cursor : c'.cursor = c.cursor) : c'.Ended := by
  cases h with
  | last atEnd => exact .last (by rwa [cursor])
  | semicolon next => exact .semicolon (by rwa [cursor])
  | brace next => exact .brace (by rwa [cursor])
  | line alone starts => exact .line (by rwa [sameLine, cursor]) (by rwa [cursor])

theorem Closed.of_cursor {c' : Compiler} (h : c.Closed) (cursor : c'.cursor = c.cursor) :
    c'.Closed := by rwa [Closed, cursor]

theorem Closed.ended (h : c.Closed) : c.Ended := by
  rcases h with h | h
  · exact .last h
  · exact .brace h

/-- At the end of the tokens no word comes next. -/
theorem isNext_atEnd (atEnd : c.cursor.atEnd = true) (last : c.cursor.last.tag = .endOfInput)
    (text : String) : c.cursor.isNext text = false := by
  simp [Token.Cursor.isNext, current_atEnd atEnd, Token.is, last]

/-- Before the end of the tokens the next one is ahead. -/
theorem ahead_current (inside : c.cursor.atEnd = false) : c.Ahead [c.cursor.current] := by
  have here := c.current_of_not_atEnd inside
  obtain ⟨lt, here⟩ := Array.getElem?_eq_some_iff.1 here
  rw [Ahead, List.drop_eq_getElem_cons (by simpa using lt), Array.getElem_toList, here]
  exact ⟨_, rfl⟩

theorem Stops.of_isNext {p : Precedence} {text : String} (next : c.cursor.isNext text = true)
    (last : c.cursor.last.tag = .endOfInput) (stops : text ∉ p.continuations) : c.Stops p := by
  have inside : c.cursor.atEnd = false := by
    refine Bool.eq_false_iff.2 fun atEnd => ?_
    rw [isNext_atEnd atEnd last] at next
    cases next
  exact .of_is (ahead_current inside) next stops

/-- The words that start a statement are not those that go on with an expression. -/
theorem Starts.isNext {t : Token} (h : t.Starts) {text : String} (other : text ∉ Stmt.starts) :
    t.is text = false := by
  rcases h with name | ⟨word, mem, is⟩
  · simp [Token.is, name]
  · refine Token.is_other is ?_
    rintro rfl
    exact other mem

/-- At the end of a statement an expression in it ends. -/
theorem Ended.stops (h : c.Ended) (last : c.cursor.last.tag = .endOfInput)
    (none : c.structTypes = []) : c.Stops .choice := by
  cases h with
  | last atEnd =>
    have no (text : String) := isNext_atEnd atEnd last text
    have alone : c.sameLine = false := by simp [sameLine, atEnd]
    have never {P : Prop} (same : c.sameLine = true) : P := by
      rw [alone] at same
      cases same
    exact ⟨fun text _ => no text, fun _ => .inr none, never, never, never, never⟩
  | semicolon next => exact .of_isNext next last (by decide)
  | brace next => exact .of_isNext next last (by decide)
  | line alone starts =>
    have never {P : Prop} (same : c.sameLine = true) : P := by
      rw [alone] at same
      cases same
    refine ⟨fun text mem => Starts.isNext starts ?_, fun _ => .inr none, never, never, never, never⟩
    revert text
    decide

/-- At the end of a statement a word that neither ends nor starts one does not come next. -/
theorem Ended.isNext (h : c.Ended) (last : c.cursor.last.tag = .endOfInput) {text : String}
    (other : text ∉ ";" :: "\x7d" :: Stmt.starts) : c.cursor.isNext text = false := by
  simp only [List.mem_cons, not_or] at other
  obtain ⟨semicolon, brace, starts⟩ := other
  cases h with
  | last atEnd => exact isNext_atEnd atEnd last text
  | semicolon next => exact Token.is_other next (Ne.symm semicolon)
  | brace next => exact Token.is_other next (Ne.symm brace)
  | line _ starts' => exact Starts.isNext starts' starts

end Compiler

/-!
## Known by their operators

A statement without a keyword is known by the first operator outside all brackets on its lines. The
look ahead goes on over names and over brackets, whatever stands in them.

Main statements: `Written.crossed`, `PassedOn.between` and `classify_of`.
-/

/-! ## In brackets -/

/-- A look ahead goes on over tokens in brackets, with as many of them open behind as before. -/
def Crossed (ts : List Token) : Prop :=
  ∀ (c : Token.Cursor) (bound n depth line : Nat), 1 ≤ n → 0 < depth →
    ts <+: c.tokens.toList.drop (c.pos + (n - 1)) →
    ∃ line', classifyFrom c (bound + ts.length) n depth line =
      classifyFrom c bound (n + ts.length) depth line'

/-- Words that open and close brackets. -/
def brackets : List String := ["(", "[", "\x7b", ")", "]", "\x7d"]

namespace Crossed

variable {ts us : List Token} {t : Token}

theorem nil : Crossed [] := fun _ _ _ _ line _ _ _ => ⟨line, rfl⟩

theorem append (h : Crossed ts) (k : Crossed us) : Crossed (ts ++ us) := by
  intro c bound n depth line some inside ahead
  have behind := Token.ahead_right some ahead
  obtain ⟨line₁, first⟩ := h c (bound + us.length) n depth line some inside
    ((List.prefix_append ts us).trans ahead)
  obtain ⟨line₂, second⟩ := k c bound (n + ts.length) depth line₁ (by omega) inside behind
  refine ⟨line₂, ?_⟩
  rw [List.length_append, show bound + (ts.length + us.length) = bound + us.length + ts.length by omega,
    first, second, Nat.add_assoc]

theorem one (proper : t.tag ≠ .endOfInput) (other : ∀ word ∈ brackets, t.is word = false) :
    Crossed [t] := by
  intro c bound n depth line some inside ahead
  have here := Token.Cursor.peek_of ahead
  have noEnd : t.isEnd = false := by simpa [Token.isEnd] using proper
  have others : t.is "(" = false ∧ t.is "[" = false ∧ t.is "\x7b" = false ∧ t.is ")" = false ∧
      t.is "]" = false ∧ t.is "\x7d" = false := by simpa [brackets] using other
  exact ⟨t.line, by simp [classifyFrom, here, noEnd, others, inside]⟩

theorem of_word {word : String} (h : t.word = mark word) (other : word ∉ brackets) :
    Crossed [t] := by
  refine one (by rw [(Prod.mk.inj h).1]; decide) fun w mem => ?_
  refine Token.is_other (Token.is_of_word h) ?_
  rintro rfl
  exact other mem

end Crossed

/-- The brackets that stand around items and around expressions. -/
def pairs : List (String × String) := [("(", ")"), ("[", "]")]

/-- A bracket that opens is counted. -/
theorem classifyFrom_opens {c : Token.Cursor} {t : Token} {opening closing : String}
    (word : t.word = mark opening) (pair : (opening, closing) ∈ pairs) {n depth line : Nat}
    (here : c.peek n = t) (goesOn : 0 < depth ∨ t.line = line) (bound : Nat) :
    classifyFrom c (bound + 1) n depth line = classifyFrom c bound (n + 1) (depth + 1) t.line := by
  have is := Token.is_of_word word
  have noEnd : t.isEnd = false := by simp [Token.isEnd, (Prod.mk.inj word).1]
  have other (w : String) (ne : opening ≠ w) : t.is w = false := Token.is_other is ne
  have no : ∀ w ∈ [";", "\x7d", "<-"] ++ assignmentOperators, t.is w = false := by
    intro w mem
    refine other w ?_
    rintro rfl
    simp only [pairs, List.mem_cons, Prod.mk.injEq, List.not_mem_nil, or_false] at pair
    rcases pair with ⟨rfl, -⟩ | ⟨rfl, -⟩ <;> exact absurd mem (by decide)
  have opens : ["(", "[", "\x7b"].any t.is = true := by
    simp only [pairs, List.mem_cons, Prod.mk.injEq, List.not_mem_nil, or_false] at pair
    rcases pair with ⟨rfl, -⟩ | ⟨rfl, -⟩ <;> simp [show t.is _ = true from is]
  have assigns : assignmentOperators.any t.is = false := by
    rw [List.any_eq_false]
    intro w mem
    simp [no w (List.mem_append_right _ mem)]
  rw [classifyFrom, here]
  simp only [opens, noEnd, if_true, Bool.false_eq_true, if_false, no ";" (by decide),
    no "\x7d" (by decide), no "<-" (by decide), assigns, Bool.or_self, Bool.false_and]
  rcases goesOn with inside | line
  · rw [if_pos inside]
  · simp [line]

/-- A bracket that closes is counted. -/
theorem classifyFrom_closes {c : Token.Cursor} {t : Token} {opening closing : String}
    (word : t.word = mark closing) (pair : (opening, closing) ∈ pairs) {n : Nat}
    (here : c.peek n = t) (bound depth line : Nat) :
    classifyFrom c (bound + 1) n (depth + 1) line = classifyFrom c bound (n + 1) depth t.line := by
  have is := Token.is_of_word word
  have noEnd : t.isEnd = false := by simp [Token.isEnd, (Prod.mk.inj word).1]
  have closes : ["(", "[", "\x7b"].any t.is = false ∧ [")", "]", "\x7d"].any t.is = true := by
    have other (w : String) (ne : closing ≠ w) : t.is w = false := Token.is_other is ne
    simp only [pairs, List.mem_cons, Prod.mk.injEq, List.not_mem_nil, or_false] at pair
    rcases pair with ⟨-, rfl⟩ | ⟨-, rfl⟩ <;>
      simp [show t.is _ = true from is, other "(" (by decide), other "[" (by decide),
        other "\x7b" (by decide)]
  rw [classifyFrom, here]
  simp [noEnd, closes]

namespace Crossed

variable {ts : List Token} {first last : Token} {opening closing : String}

theorem between (opens : first.word = mark opening) (inner : Crossed ts)
    (closes : last.word = mark closing) (pair : (opening, closing) ∈ pairs) :
    Crossed (first :: (ts ++ [last])) := by
  intro c bound n depth line some inside ahead
  have here := Token.Cursor.peek_of ahead
  have middle := Token.ahead_tail some ahead
  have there := Token.Cursor.peek_of (Token.ahead_right (by omega) middle)
  obtain ⟨line₁, crossed⟩ := inner c (bound + 1) (n + 1) (depth + 1) first.line (by omega) (by omega)
    ((List.prefix_append ts [last]).trans middle)
  refine ⟨last.line, ?_⟩
  have length : (first :: (ts ++ [last])).length = ts.length + 2 := by simp
  rw [length, show bound + (ts.length + 2) = bound + 1 + ts.length + 1 by omega,
    classifyFrom_opens opens pair here (.inl inside), crossed, classifyFrom_closes closes pair there,
    show n + 1 + ts.length + 1 = n + (ts.length + 2) by omega]

end Crossed

/-- A look ahead goes on over expressions in brackets. -/
theorem Written.crossed {q : Phrase} {ts : List Token} (h : Written q ts) : Crossed ts := by
  induction h with
  | literal l tag spelling =>
    refine .one (tag ▸ l.tag_ne) fun word mem => l.is_other tag spelling ?_
    rintro rfl
    exact absurd mem (by decide)
  | name tag => exact .one (by rw [tag]; decide) fun word _ => by simp [Token.is, tag]
  | array opens _ closes ih => exact .between opens ih closes (by decide)
  | parentheses opens _ closes ih => exact .between opens ih closes (by decide)
  | unary sign word _ ih =>
    exact (Crossed.of_word word (by cases sign <;> decide)).append ih
  | binary op _ word _ _ ihLeft ihRight =>
    exact ihLeft.append ((Crossed.of_word word (by cases op <;> decide)).append ihRight)
  | choice _ asks _ _ parts _ ihCondition ihYes ihNo =>
    refine .append (ihCondition.append ((Crossed.of_word asks (by decide)).append ihYes)) ?_
    exact (Crossed.of_word parts (by decide)).append ihNo
  | tighter _ ih => exact ih
  | none => exact .nil
  | last _ ih => exact ih
  | more _ comma _ _ ihFirst ihRest =>
    exact ihFirst.append ((Crossed.of_word comma (by decide)).append ihRest)

/-! ## On a line -/

/-- A look ahead goes on over tokens on a line, outside all brackets. -/
def PassedOn (line : Nat) (ts : List Token) : Prop :=
  ∀ (c : Token.Cursor) (bound n : Nat), 1 ≤ n → ts <+: c.tokens.toList.drop (c.pos + (n - 1)) →
    classifyFrom c (bound + ts.length) n 0 line = classifyFrom c bound (n + ts.length) 0 line

/-- The words that a look ahead counts or ends at. -/
def lineWords : List String := brackets ++ [";", "<-"] ++ assignmentOperators

namespace PassedOn

variable {line : Nat} {ts us : List Token} {t first last : Token}

theorem nil : PassedOn line [] := fun _ _ _ _ _ => rfl

theorem append (h : PassedOn line ts) (k : PassedOn line us) : PassedOn line (ts ++ us) := by
  intro c bound n some ahead
  have behind := Token.ahead_right some ahead
  have one := h c (bound + us.length) n some ((List.prefix_append ts us).trans ahead)
  have two := k c bound (n + ts.length) (by omega) behind
  rw [List.length_append, show bound + (ts.length + us.length) = bound + us.length + ts.length by omega,
    one, two, Nat.add_assoc]

theorem one (here : t.line = line) (proper : t.tag ≠ .endOfInput)
    (other : ∀ word ∈ lineWords, t.is word = false) : PassedOn line [t] := by
  intro c bound n some ahead
  have found := Token.Cursor.peek_of ahead
  have noEnd : t.isEnd = false := by simpa [Token.isEnd] using proper
  have assigns : assignmentOperators.any t.is = false := by
    rw [List.any_eq_false]
    intro w mem
    simp [other w (List.mem_append_right _ mem)]
  have no (word : String) (mem : word ∈ lineWords) : t.is word = false := other word mem
  simp [classifyFrom, found, noEnd, here, assigns, no "(" (by decide), no "[" (by decide),
    no "\x7b" (by decide), no ")" (by decide), no "]" (by decide), no "\x7d" (by decide),
    no ";" (by decide), no "<-" (by decide)]

theorem name (here : t.line = line) (tag : t.tag = .identifier) : PassedOn line [t] :=
  one here (by rw [tag]; decide) fun word _ => by simp [Token.is, tag]

theorem of_word {word : String} (here : t.line = line) (h : t.word = mark word)
    (other : word ∉ lineWords) : PassedOn line [t] := by
  refine one here (by rw [(Prod.mk.inj h).1]; decide) fun w mem => ?_
  refine Token.is_other (Token.is_of_word h) ?_
  rintro rfl
  exact other mem

/-- Whatever stands in brackets is passed over. -/
theorem between {opening closing : String} (opens : first.word = mark opening) (inner : Crossed ts)
    (closes : last.word = mark closing) (pair : (opening, closing) ∈ pairs)
    (here : first.line = line) (there : last.line = line) :
    PassedOn line (first :: (ts ++ [last])) := by
  intro c bound n some ahead
  have start := Token.Cursor.peek_of ahead
  have middle := Token.ahead_tail some ahead
  have finish := Token.Cursor.peek_of (Token.ahead_right (by omega) middle)
  obtain ⟨line₁, crossed⟩ := inner c (bound + 1) (n + 1) 1 first.line (by omega) (by omega)
    ((List.prefix_append ts [last]).trans middle)
  have length : (first :: (ts ++ [last])).length = ts.length + 2 := by simp
  rw [length, show bound + (ts.length + 2) = bound + 1 + ts.length + 1 by omega,
    classifyFrom_opens opens pair start (.inr here), crossed, classifyFrom_closes closes pair finish,
    there, show n + 1 + ts.length + 1 = n + (ts.length + 2) by omega]

end PassedOn

/-! ## Assignments -/

/-- What stands before the operator of an assignment on its line makes no difference. -/
theorem classify_of {c : Compiler} {t op : Token} {ts us : List Token} {word : String}
    (ahead : c.Ahead (t :: ts ++ op :: us))
    (passed : PassedOn t.line (t :: ts)) (same : op.line = t.line) (is : op.word = mark word)
    (assigns : word ∈ assignmentOperators) : classify c = (.ok .assignment, c) := by
  have bound := ahead.bound
  rw [List.length_append, List.length_cons] at bound
  obtain ⟨more, hmore⟩ : ∃ k, c.cursor.tokens.size - c.cursor.pos + 2 = k + 1 + (t :: ts).length :=
    ⟨c.cursor.tokens.size - c.cursor.pos + 1 - (t :: ts).length, by simp only [List.length_cons] at *; omega⟩
  have first : c.cursor.current = t := ahead.current
  have searched := passed c.cursor (more + 1) 1 (Nat.le_refl _)
    ((List.prefix_append (t :: ts) (op :: us)).trans ahead)
  have behind := Token.ahead_right (Nat.le_refl 1) (k := c.cursor.pos) (show
    t :: ts ++ op :: us <+: c.cursor.tokens.toList.drop (c.cursor.pos + (1 - 1)) from ahead)
  have there := Token.Cursor.peek_of behind
  have isOp := Token.is_of_word is
  have noEnd : op.isEnd = false := by simp [Token.isEnd, (Prod.mk.inj is).1]
  have found : assignmentOperators.any op.is = true := List.any_eq_true.2 ⟨word, assigns, isOp⟩
  have no (w : String) (other : w ∉ assignmentOperators) : op.is w = false := by
    refine Token.is_other isOp ?_
    rintro rfl
    exact other assigns
  have answer : classifyFrom c.cursor (more + 1) (1 + (t :: ts).length) 0 t.line = .assignment := by
    rw [classifyFrom, there]
    simp [noEnd, same, no ";" (by decide), no "\x7d" (by decide), found]
  have unfolded : classify c = (.ok (classifyFrom c.cursor (c.cursor.tokens.size - c.cursor.pos + 2) 1 0
      c.cursor.current.line), c) := rfl
  rw [unfolded, hmore, first, searched, answer]

/-- A name with the operator of an assignment behind it starts an assignment. -/
theorem classify_assignment {c : Compiler} {t op : Token} {ts : List Token} {isNew : Bool}
    (ahead : c.Ahead (t :: op :: ts)) (name : t.tag = .identifier)
    (word : op.word = mark (if isNew then ":=" else "=")) (line : op.line = t.line) :
    classify c = (.ok .assignment, c) :=
  @classify_of _ _ _ [] _ _ ahead (.name rfl name) line word (by cases isNew <;> decide)

end StackScript
