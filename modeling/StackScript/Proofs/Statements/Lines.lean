import StackScript.Proofs.Settling.Steady
import StackScript.Proofs.Scanning.Lexemes
import StackScript.Proofs.Statements.Reading

/-!
# Lines are read to their end

An expression that has been read is read as far as its line goes on with it: what stands next on the
line is no word that continues it. This is shown for each level of the grammar from the level below,
as it is read, and for all levels by induction on how deep expressions nest. A statement is parted
from the next one by a semicolon, by the end of its block or by that of its line. What the compiler
takes for a line are the tokens that start on it, so that all this is about lines of the source only
where no token spans several of them.

Main statements: `rules_exhaust`, `statementWith_ends` (what the steps leave unread) and
`line_is_read` (what that says of a source).
-/
namespace StackScript

open CompileM

/-! ## Sources and lines -/

namespace Token

/-- A source divided into the texts of its tokens, with the gaps before them, and what is left. -/
structure Division (source : String) where
  pieces : List Piece
  rest : List Char
  joined : source.toList = Piece.joined pieces ++ rest
  tokens : (scan source).tokens = pieces.map Piece.token
  fits : ∀ front p back, pieces = front ++ p :: back →
    p.Fits (Piece.joined front) (Piece.joined back ++ rest)

namespace Division

variable {source : String} {before after : List Piece} {p q : Piece}

theorem nonempty (source : String) : Nonempty (Division source) := by
  obtain ⟨pieces, rest, joined, tokens, fits, -⟩ := scanFrom_pieces [] source.toList
  exact ⟨⟨pieces, rest, joined, tokens, fits⟩⟩

/-- A token starts on the line where the one before it starts exactly if there is no end of a line
in the text of that token or behind it. -/
theorem line_eq_iff (d : Division source) (parts : d.pieces = before ++ p :: q :: after) :
    q.token.line = p.token.line ↔ '\n' ∉ p.text ∧ '\n' ∉ q.gap := by
  have first := (d.fits before p (q :: after) parts).line
  have second := (d.fits (before ++ [p]) q after (by simpa using parts)).line
  have chars : Piece.joined (before ++ [p]) = Piece.joined before ++ (p.gap ++ p.text) := by
    simp [Piece.joined, Piece.chars]
  rw [chars] at second
  simp only [List.count_append] at first second
  rw [← List.count_eq_zero, ← List.count_eq_zero]
  omega

/-- Tokens that stand side by side belong to such pieces. -/
theorem split (d : Division source) (ts us : List Token) {t u : Token}
    (parts : (scan source).tokens = ts ++ t :: u :: us) : ∃ before p q after,
      d.pieces = before ++ p :: q :: after ∧ before.length = ts.length ∧
        p.token = t ∧ q.token = u := by
  rw [d.tokens] at parts
  obtain ⟨before, behind, pieces, rfl, both⟩ := List.map_eq_append_iff.1 parts
  obtain ⟨p, rest, rfl, rfl, second⟩ := List.map_eq_cons_iff.1 both
  obtain ⟨q, after, rfl, rfl, -⟩ := List.map_eq_cons_iff.1 second
  exact ⟨before, p, q, after, pieces, (List.length_map _).symm, rfl, rfl⟩

/-- The pieces of a source on one line are on one line. -/
theorem oneLine (d : Division source) (line : '\n' ∉ source.toList) (mem : p ∈ d.pieces) :
    '\n' ∉ p.gap ∧ '\n' ∉ p.text := by
  rw [d.joined] at line
  have within : ∀ c ∈ p.chars, c ∈ Piece.joined d.pieces ++ d.rest := fun c there =>
    List.mem_append_left _ (List.mem_flatMap.2 ⟨p, mem, there⟩)
  exact ⟨fun gap => line (within _ (List.mem_append_left _ gap)),
    fun text => line (within _ (List.mem_append_right _ text))⟩

end Division

end Token

/-! ## Words that go on with a line -/

/-- Words that go on with an expression of a precedence when they stand on its line. -/
def Precedence.following (p : Precedence) : List String :=
  ["[", "("] ++ (if p = .choice then ["?"] else []) ++
    (all.filter (p.rank ≤ ·.rank)).flatMap operators

theorem Precedence.following_chain {p : Precedence} (chain : p.isChain) :
    ∀ word ∈ p.following, word ∈ p.operators ∨ word ∈ p.next.following := by
  cases p <;> first | decide | cases chain

namespace Compiler

/-- None of these words stands next on the line of the token read last. -/
def Past (words : List String) (c : Compiler) : Prop :=
  c.sameLine = true → ∀ word ∈ words, c.cursor.isNext word = false

/-- What parts a statement from the next one: a semicolon that was read, the end of the source, the
end of the block, or that of the line. -/
inductive Parted (c : Compiler) : Prop
  | semicolon (h : c.cursor.previous.is ";" = true)
  | last (h : c.cursor.atEnd = true)
  | brace (h : c.cursor.isNext "\x7d" = true)
  | line (alone : c.sameLine = false)

variable {c c' : Compiler} {words words' : List String}

theorem Past.of_cursor (h : c.Past words) (same : c'.cursor = c.cursor) : c'.Past words := by
  unfold Past sameLine at *
  rwa [same]

theorem Past.of_subset (h : c.Past words) (sub : ∀ word ∈ words', word ∈ words) : c.Past words' :=
  fun same word mem => h same word (sub word mem)

theorem Past.append (h : c.Past words) (h' : c.Past words') : c.Past (words ++ words') :=
  fun same word mem => (List.mem_append.1 mem).elim (h same word) (h' same word)

end Compiler

/-! ## Steps -/

namespace CompileM

variable {α β : Type} {c c' : Compiler} {words : List String}

/-- Where a step succeeds, the compiler has a property. -/
def Ends (Q : Compiler → Prop) (m : CompileM α) : Prop := ∀ c a c', m c = (.ok a, c') → Q c'

/-- Where a step succeeds, none of these words goes on with the line. -/
def Exhausts (words : List String) (m : CompileM α) : Prop := Ends (Compiler.Past words) m

/-- A step that stays at its token. -/
def Stays (m : CompileM α) : Prop := ∀ c a c', m c = (.ok a, c') → c'.cursor = c.cursor

namespace Stays

variable {m : CompileM α} {f : α → CompileM β}

theorem bind (first : Stays m) (next : ∀ a, Stays (f a)) : Stays (m >>= f) := by
  intro c b c' run
  obtain ⟨a, d, ran, rest⟩ := bind_ok run
  rw [next a d b c' rest, first c a d ran]

theorem editCode (f : Code → Except Fault Code) : Stays (editCode f) := by
  intro c a c' run
  obtain ⟨code, -, rfl⟩ := editCode_ok run
  rfl

theorem emit (op : Opcode) (operand : Operand) : Stays (emit op operand) :=
  editCode (·.emit op operand)

theorem emitFixup (op : Opcode) : Stays (emitFixup op) := by
  intro c a c' run
  obtain ⟨_, _, ⟨⟩, rest⟩ := bind_ok run
  obtain ⟨_, _, emitted, ⟨⟩⟩ := bind_ok rest
  exact emit op _ c _ _ emitted

theorem patchHere (fixup : Nat) : Stays (patchHere fixup) := by
  intro c a c' run
  obtain ⟨_, _, ⟨⟩, rest⟩ := bind_ok run
  exact editCode _ c a c' rest

end Stays

namespace Ends

variable {Q : Compiler → Prop} {m : CompileM α} {f : α → CompileM β}

theorem refuses (f : Fault) : Ends Q (throw f : CompileM α) := by
  intro c a c' run
  cases run

/-- Whatever came before, the last step decides. -/
theorem after (next : ∀ a, Ends Q (f a)) : Ends Q (m >>= f) := by
  intro c b c' run
  obtain ⟨a, d, -, rest⟩ := bind_ok run
  exact next a d b c' rest

theorem ite {p : Prop} [Decidable p] {m m' : CompileM α} (yes : Ends Q m) (no : Ends Q m') :
    Ends Q (if p then m else m') := by
  split
  · exact yes
  · exact no

end Ends

/-- Steps that follow at the same token leave the line as it was. -/
theorem Exhausts.staying {m : CompileM α} {f : α → CompileM β} (first : Exhausts words m)
    (next : ∀ a, Stays (f a)) : Exhausts words (m >>= f) := by
  intro c b c' run
  obtain ⟨a, d, ran, rest⟩ := bind_ok run
  exact (first c a d ran).of_cursor (next a d b c' rest)

/-- Turns that each lead to a property end with one that asks for no other. -/
theorem repeatWhile_last {P : Compiler → Prop} {turn : CompileM Bool}
    (leads : ∀ c c', turn c = (.ok true, c') → P c') (start : P c)
    (run : repeatWhile turn c = (.ok (), c')) : ∃ d, P d ∧ turn d = (.ok false, c') := by
  rw [repeatWhile_eq] at run
  generalize c.cursor.tokens.size - c.cursor.pos + 2 = bound at run
  induction bound generalizing c with
  | zero => cases run
  | succ bound ih =>
    obtain ⟨_, d, taken, rest⟩ := bind_ok run
    obtain ⟨again, d', turned, result⟩ := bind_ok taken
    cases again with
    | true =>
      cases result
      exact ih (leads c d turned) rest
    | false =>
      cases result
      cases rest
      exact ⟨c, start, turned⟩

/-- A turn that ends by asking for another one has not asked for none. -/
theorem asks_again {m : CompileM α} : (m >>= fun _ => pure true) c ≠ (.ok false, c') := by
  intro run
  obtain ⟨_, _, -, rest⟩ := bind_ok run
  cases rest

theorem isNext_eq (c : Compiler) (text : String) :
    isNext text c = (.ok (c.cursor.isNext text), c) := rfl

/-! ## Operands -/

/-- The turn that ends a row of accesses and calls finds none on the line. -/
theorem reference_exhausts (rules : Nested) :
    Exhausts Precedence.unary.following (reference rules) := by
  refine .after fun _ c a c' run => ?_
  obtain ⟨d, -, last⟩ := repeatWhile_last (P := fun _ => True) (fun _ _ _ => trivial) trivial run
  rw [bind_of_ok (sameLine_eq d), bind_of_ok (isNext_eq d "[")] at last
  split at last
  · exact absurd last asks_again
  next noIndex =>
    rw [bind_of_ok (isNext_eq d "(")] at last
    split at last
    · obtain ⟨⟨count, spread⟩, _, -, last⟩ := bind_ok last
      exact absurd last asks_again
    next noCall =>
      obtain ⟨dotted, _, ⟨⟩, last⟩ := bind_ok last
      split at last
      · exact absurd last asks_again
      · cases last
        intro same word mem
        simp only [same, Bool.true_and, Bool.not_eq_true] at noIndex noCall
        have : word = "[" ∨ word = "(" := by simpa [Precedence.following, Precedence.all,
          Precedence.operators, Precedence.rank] using mem
        rcases this with rfl | rfl
        · exact noIndex
        · exact noCall

/-- A sign passes the line on to its operand. -/
theorem unaryWith_exhausts {rules : Nested} (h : Exhausts Precedence.unary.following rules.unary) :
    Exhausts Precedence.unary.following (unaryWith rules) := by
  refine .after fun _ => .ite ?_ (.after fun _ => .ite ?_ (.after fun _ => .ite ?_ ?_))
  · exact .after fun _ => h.staying fun _ => .emit _ _
  · exact h.staying fun _ => (Stays.emit _ _).bind fun _ => (Stays.emit _ _).bind fun _ =>
      (Stays.emit _ _).bind fun _ => .emit _ _
  · exact .after fun _ => h
  · exact reference_exhausts rules

/-! ## Operators -/

/-- Where no operator is read, none stands on the line. -/
theorem operator_missing {operators : List String} (run : operator operators c = (.ok none, c')) :
    c' = c ∧ c.Past operators := by
  unfold operator at run
  rw [bind_of_ok (sameLine_eq c)] at run
  split at run
  next elsewhere =>
    cases run
    refine ⟨rfl, fun same => ?_⟩
    simp [same] at elsewhere
  next here =>
    rw [bind_of_ok (get_eq c)] at run
    cases found : operators.find? c.cursor.isNext with
    | some op =>
      simp only [found] at run
      obtain ⟨_, _, -, rest⟩ := bind_ok run
      cases rest
    | none =>
      simp only [found] at run
      cases run
      exact ⟨rfl, fun _ word mem => by simpa using List.find?_eq_none.1 found word mem⟩

/-- The operations of a product read no token. -/
theorem multiplicativeOp_stays (op : String) : Stays (multiplicativeOp op) := by
  unfold multiplicativeOp
  split
  case h_7 => exact (Stays.emit _ _).bind fun _ => .emit _ _
  all_goals exact .emit _ _

/-- The right operand is the last that a short circuit reads. -/
theorem shortCircuit_exhausts {right : CompileM Unit} (decides : Bool) (h : Exhausts words right) :
    Exhausts words (shortCircuit decides right) :=
  .after fun _ => .after fun _ => h.staying fun _ => (Stays.emit _ _).bind fun _ =>
    (Stays.emitFixup _).bind fun _ => (Stays.patchHere _).bind fun _ =>
      (Stays.emit _ _).bind fun _ => (Stays.emit _ _).bind fun _ => .patchHere _

theorem combine_exhausts {rules : Nested} {p : Precedence} (h : Exhausts words (p.next.parse rules))
    (op : String) : Exhausts words (p.combine rules op) := by
  cases p with
  | or | and => exact shortCircuit_exhausts _ h
  | relation | sum => exact h.staying fun _ => .emit _ _
  | choice | product | unary => exact h.staying fun _ => multiplicativeOp_stays op

/-- A turn that asks for another one has read an operator and its operand. -/
theorem chainTurn_again {rules : Nested} {p : Precedence}
    (h : Exhausts words (p.next.parse rules)) (run : chainTurn rules p c = (.ok true, c')) :
    c'.Past words := by
  obtain ⟨op, d, -, run⟩ := bind_ok run
  cases op with
  | none => cases run
  | some op =>
    obtain ⟨_, _, combined, ⟨⟩⟩ := bind_ok run
    exact combine_exhausts h op _ _ _ combined

/-- A turn that asks for no other one has found no operator. -/
theorem chainTurn_last {rules : Nested} {p : Precedence}
    (run : chainTurn rules p c = (.ok false, c')) : c' = c ∧ c.Past p.operators := by
  obtain ⟨op, d, found, run⟩ := bind_ok run
  cases op with
  | some op => exact absurd run asks_again
  | none =>
    cases run
    exact operator_missing found

/-- A level of operators exhausts the line if the next tighter level does. -/
theorem parse_exhausts {rules : Nested} {p : Precedence} (chain : p.isChain)
    (h : Exhausts p.next.following (p.next.parse rules)) :
    Exhausts p.following (p.parse rules) := by
  rw [p.parse_chain chain]
  intro c a c' run
  obtain ⟨_, d, first, rest⟩ := bind_ok run
  have turns : repeatWhile (chainTurn rules p) d = (.ok (), c') := rest
  obtain ⟨e, past, last⟩ := repeatWhile_last (fun _ _ => chainTurn_again h) (h c _ d first) turns
  obtain ⟨rfl, missing⟩ := chainTurn_last last
  exact (missing.append past).of_subset fun word mem =>
    List.mem_append.2 (p.following_chain chain word mem)

theorem logicalOr_exhausts {rules : Nested} (h : Exhausts Precedence.unary.following rules.unary) :
    Exhausts Precedence.or.following (logicalOr rules) := by
  have unary : Exhausts Precedence.unary.following (Precedence.unary.parse rules) :=
    unaryWith_exhausts h
  have product := parse_exhausts (p := .product) rfl unary
  have sum := parse_exhausts (p := .sum) rfl product
  have relation := parse_exhausts (p := .relation) rfl sum
  have and := parse_exhausts (p := .and) rfl relation
  exact parse_exhausts (p := .or) rfl and

/-- A choice ends with its second expression; where there is none, no question mark follows. -/
theorem expressionWith_exhausts {rules : Nested}
    (unary : Exhausts Precedence.unary.following rules.unary)
    (expression : Exhausts Precedence.choice.following rules.expression) :
    Exhausts Precedence.choice.following (expressionWith rules) := by
  intro c a c' run
  obtain ⟨_, d, ran, run⟩ := bind_ok run
  have past := logicalOr_exhausts unary c _ d ran
  rw [bind_of_ok (sameLine_eq d), bind_of_ok (isNext_eq d "?")] at run
  split at run
  · have chosen : Exhausts Precedence.choice.following (do
        moveCursor Token.Cursor.skip
        let otherwise ← emitFixup .branchFalse
        rules.expression
        expect ":"
        let finish ← emitFixup .branch
        patchHere otherwise
        rules.expression
        patchHere finish) :=
      .after fun _ => .after fun _ => .after fun _ => .after fun _ => .after fun _ =>
        .after fun _ => expression.staying fun _ => .patchHere _
    exact chosen d a c' run
  next noChoice =>
    cases run
    intro same word mem
    have known : word = "?" ∨ word ∈ Precedence.or.following := by
      revert mem word
      decide
    rcases known with rfl | mem
    · simpa [same] using noChoice
    · exact past same word mem

/-- However deep its parts may nest, an expression exhausts its line. -/
theorem rules_exhaust (package : String → String → Option String → CompileM CodeRef) (depth : Nat) :
    Exhausts Precedence.choice.following (rulesTo package depth).expression ∧
      Exhausts Precedence.unary.following (rulesTo package depth).unary := by
  induction depth with
  | zero => exact ⟨.refuses _, .refuses _⟩
  | succ depth ih => exact ⟨expressionWith_exhausts ih.2 ih.1, unaryWith_exhausts ih.2⟩

/-! ## Statements -/

theorem accept_refused {text : String} (run : accept text c = (.ok false, c')) :
    c' = c ∧ c.cursor.isNext text = false := by
  unfold accept at run
  rw [bind_of_ok (isNext_eq c text)] at run
  split at run
  · obtain ⟨_, _, -, rest⟩ := bind_ok run
    cases rest
  next other =>
    cases run
    exact ⟨rfl, by simpa using other⟩

theorem accept_read {text : String} (run : accept text c = (.ok true, c')) :
    c'.cursor.atEnd = true ∨ c'.cursor.previous.is text = true := by
  unfold accept at run
  rw [bind_of_ok (isNext_eq c text)] at run
  split at run
  next ahead =>
    obtain ⟨_, d, moved, rest⟩ := bind_ok run
    cases rest
    cases moved
    cases ended : c.cursor.atEnd with
    | true =>
      left
      have : ¬c.cursor.pos < c.cursor.tokens.size := by simpa [Token.Cursor.atEnd] using ended
      simpa [Token.Cursor.skip, this] using ended
    | false =>
      right
      have : c.cursor.pos < c.cursor.tokens.size := by simpa [Token.Cursor.atEnd] using ended
      have skipped : c.cursor.skip = { c.cursor with pos := c.cursor.pos + 1 } := if_pos this
      simp only [skipped, Token.Cursor.previous, if_neg (Nat.succ_ne_zero _)]
      exact ahead
  · cases run

/-- A statement ends at a semicolon, which it reads, or where none is needed. -/
theorem statementEnd_ends : Ends Compiler.Parted statementEnd := by
  intro c a c' whole
  obtain ⟨accepted, d, read, run⟩ := bind_ok whole
  cases accepted with
  | true =>
    cases run
    exact (accept_read read).elim .last .semicolon
  | false =>
    obtain ⟨rfl, other⟩ := accept_refused read
    rw [if_pos Bool.not_false, bind_of_ok (atStatementEnd_eq d)] at run
    split at run
    · have refused : Ends Compiler.Parted (fail .unexpectedToken : CompileM Unit) :=
        .after fun _ => .refuses _
      exact refused d a c' run
    next ends =>
      cases run
      cases last : c'.cursor.atEnd with
      | true => exact .last last
      | false =>
        cases brace : c'.cursor.isNext "\x7d" with
        | true => exact .brace brace
        | false => exact .line (by simpa [Token.Cursor.isAnyNext, other, last, brace] using ends)

/-- Every statement is parted from what follows it, whatever it consists of. -/
theorem statementWith_ends (rules : Nested) : Ends Compiler.Parted (statementWith rules) := by
  intro c a c' run
  obtain ⟨accepted, d, read, run⟩ := bind_ok run
  cases accepted with
  | true =>
    cases run
    exact (accept_read read).elim .last .semicolon
  | false =>
    have body : Ends Compiler.Parted (do
        atLine
        let t ← current
        if t.is "\x7b" then block rules
        else if t.is "@" then directive rules
        else if t.tag == .reserved then keywordStatement rules t.spelling
        else simpleStatement rules
        statementEnd) :=
      .after fun _ => .after fun _ => .ite (.after fun _ => statementEnd_ends) <|
        .ite (.after fun _ => statementEnd_ends) <| .ite (.after fun _ => statementEnd_ends) <|
          .after fun _ => statementEnd_ends
    exact body d a c' run

end CompileM

/-! ## Reading a source -/

/-- **Lines are read to their end.** Take a token of a source whose text spans no lines, and the
next token, on the same line. An expression that was read up to there is not continued by the next
token: it is no binary operator, and opens neither a choice nor an index nor a call. A statement
that was read up to there ends with a semicolon, or the next token closes the block. -/
theorem line_is_read {source : String} (d : Token.Division source) {before after : List Token.Piece}
    {p q : Token.Piece} (parts : d.pieces = before ++ p :: q :: after) {c c' : Compiler}
    (tokens : c'.cursor.tokens = (Token.scan source).tokens.toArray)
    (place : c'.cursor.pos = before.length + 1) (spansNone : '\n' ∉ p.text) (near : '\n' ∉ q.gap)
    (package : String → String → Option String → CompileM CodeRef) (depth : Nat) :
    ((rulesTo package depth).expression c = (.ok (), c') →
      ∀ word ∈ Precedence.choice.following, q.token.is word = false) ∧
    ((rulesTo package depth).statement c = (.ok (), c') →
      p.token.is ";" = true ∨ q.token.is "\x7d" = true) := by
  rw [d.tokens, parts, List.map_append, List.map_cons, List.map_cons] at tokens
  have first : c'.cursor.tokens[before.length]? = some p.token := by simp [tokens]
  have second : c'.cursor.tokens[before.length + 1]? = some q.token := by simp [tokens]
  have previous : c'.cursor.previous = p.token := by
    simp [Token.Cursor.previous, place, first]
  have current : c'.cursor.current = q.token := by
    simp [Token.Cursor.current, Token.Cursor.peek, place, second]
  have more : c'.cursor.atEnd = false := by simp [Token.Cursor.atEnd, tokens, place]
  have same : c'.sameLine = true := by
    rw [Compiler.sameLine, more, current, previous, (d.line_eq_iff parts).2 ⟨spansNone, near⟩]
    simp
  constructor
  · intro run word mem
    rw [← current]
    exact (rules_exhaust package depth).1 c () c' run same word mem
  · intro run
    cases depth with
    | zero => cases run
    | succ depth =>
      cases statementWith_ends _ c () c' run with
      | semicolon h => exact .inl (by rwa [previous] at h)
      | last h => rw [more] at h; cases h
      | brace h => exact .inr (by rwa [Token.Cursor.isNext, current] at h)
      | line h => rw [same] at h; cases h

/-- Packages that are not there. -/
def noPackages : String → String → Option String → CompileM CodeRef :=
  fun _ _ _ => throw (.of .packageNotFound)

/-- A compiler before a sum that a semicolon parts from a name. -/
def beforeSum : Compiler :=
  (Compiler.new "main" {}).opened (Token.scan "a + b; c").tokens "a + b; c" 0

/-- The compiler that has read the sum as an expression. -/
def behindSum : Compiler := ((rulesTo noPackages 9).expression beforeSum).2

/-- The compiler that has read the sum as a statement. -/
def behindStatement : Compiler := ((rulesTo noPackages 9).statement beforeSum).2

theorem beforeSum_expression : (rulesTo noPackages 9).expression beforeSum = (.ok (), behindSum) :=
  Prod.ext (by decide +kernel) rfl

theorem behindSum_cursor : behindSum.cursor = { beforeSum.cursor with pos := 3 } := by
  decide +kernel

theorem beforeSum_statement :
    (rulesTo noPackages 9).statement beforeSum = (.ok (), behindStatement) :=
  Prod.ext (by decide +kernel) rfl

theorem behindStatement_cursor : behindStatement.cursor = { beforeSum.cursor with pos := 4 } := by
  decide +kernel

/-- As an expression the sum is read up to the semicolon, as a statement with it. -/
theorem sum_is_read :
    (rulesTo noPackages 9).expression beforeSum = (.ok (), behindSum) ∧
    (rulesTo noPackages 9).statement beforeSum = (.ok (), behindStatement) ∧
    ∃ semicolon name : Token, (Token.scan "a + b; c").tokens[3]? = some semicolon ∧
      (Token.scan "a + b; c").tokens[4]? = some name ∧
      (∀ word ∈ Precedence.choice.following, semicolon.is word = false) ∧
      (semicolon.is ";" = true ∨ name.is "\x7d" = true) := by
  obtain ⟨d⟩ := Token.Division.nonempty "a + b; c"
  have scanned : (Token.scan "a + b; c").tokens = [⟨"a", .identifier, 1, 1⟩,
      ⟨"+", .punctuation, 1, 3⟩, ⟨"b", .identifier, 1, 5⟩, ⟨";", .punctuation, 1, 6⟩,
      ⟨"c", .identifier, 1, 8⟩] := by decide +kernel
  have line : '\n' ∉ "a + b; c".toList := by decide
  obtain ⟨before, b, q, after, parts, behind, -, semicolon⟩ := d.split [_, _] [_] scanned
  obtain ⟨before', p, c, after', parts', behind', semicolon', name⟩ :=
    d.split [_, _, _] [] scanned
  have stops := (line_is_read d parts (by rw [behindSum_cursor]; rfl)
    (by rw [behindSum_cursor, behind]; rfl) (d.oneLine line (by simp [parts])).2
    (d.oneLine line (by simp [parts])).1 noPackages 9).1 beforeSum_expression
  have ends := (line_is_read d parts' (by rw [behindStatement_cursor]; rfl)
    (by rw [behindStatement_cursor, behind']; rfl) (d.oneLine line (by simp [parts'])).2
    (d.oneLine line (by simp [parts'])).1 noPackages 9).2 beforeSum_statement
  rw [semicolon] at stops
  rw [semicolon', name] at ends
  refine ⟨beforeSum_expression, beforeSum_statement, _, _, ?_, ?_, stops, ends⟩
  · rw [scanned]
    rfl
  · rw [scanned]
    rfl

/-- A text between backquotes that spans two lines, with a sum on the second of them. -/
def spanningSource : String := "s := `a\nb` + \"c\""

/-- Lines are told by where tokens start. On the line where a text that spans lines ends, an
operator starts a statement of its own: of the sum only the text is stored, and the rest has no
effect. -/
theorem spanning_text_alone :
    (Token.scan spanningSource).tokens = [⟨"s", .identifier, 1, 1⟩, ⟨":=", .punctuation, 1, 3⟩,
      ⟨"a\nb", .string, 1, 6⟩, ⟨"+", .punctuation, 2, 4⟩, ⟨"c", .string, 2, 6⟩] ∧
    (Token.Position.behind "s := `a\nb`".toList).line = 2 ∧
    (compile spanningSource (.new "main" {})).1.map (·.instructions.toList) = .ok
      [⟨.atLine, .int 1⟩, ⟨.push, .value (.string "a\nb")⟩, ⟨.symbolCreate, .name "s"⟩,
        ⟨.store, .name "s"⟩, ⟨.atLine, .int 2⟩, ⟨.push, .value (.marker .call)⟩,
        ⟨.push, .value (.string "c")⟩, ⟨.dropToMarker, .name "call"⟩] := by
  obtain ⟨code, c', compiled, agrees⟩ := exists_compiled spanningSource (.new "main" {})
    (fun code _ => code.instructions.isEqv #[⟨.atLine, .int 1⟩, ⟨.push, .value (.string "a\nb")⟩,
      ⟨.symbolCreate, .name "s"⟩, ⟨.store, .name "s"⟩, ⟨.atLine, .int 2⟩, ⟨.push, .value (.marker .call)⟩,
      ⟨.push, .value (.string "c")⟩, ⟨.dropToMarker, .name "call"⟩] Instruction.agrees = true)
    (by decide +kernel)
  refine ⟨by decide +kernel, by decide +kernel, ?_⟩
  rw [compiled]
  exact congrArg (fun is => Except.ok is.toList) (Instruction.eq_of_isEqv agrees)

end StackScript
