import StackScript.Proofs.Compiling.Emission
import StackScript.Proofs.Expressions.Code

/-!
# Reading expressions

The compiler has no tree: it emits the code of an expression while it reads the tokens. Read from
tokens that are a writing of a tree, the code is that of the tree. Operators of one precedence are
read in turns, so that an expression of such a precedence may only be the start of what the turns
read; what comes behind it says whether they go on.

Main statement: `Written.parses`.
-/
namespace StackScript

open CompileM

/-! ## The levels of the grammar -/

namespace Precedence

/-- All precedences, the loosest first. -/
def all : List Precedence := [choice, or, and, relation, sum, product, unary]

/-- The steps that read an expression of a precedence. -/
def parse (rules : Nested) : Precedence → CompileM Unit
  | choice => expressionWith rules
  | or => logicalOr rules
  | and => logicalAnd rules
  | relation => CompileM.relation rules
  | sum => additive rules
  | product => multiplicative rules
  | unary => unaryWith rules

/-- The steps that read the right operand of an operator and emit what it asks for. -/
def combine (rules : Nested) (p : Precedence) (op : String) : CompileM Unit :=
  match p with
  | or => shortCircuit true (p.next.parse rules)
  | and => shortCircuit false (p.next.parse rules)
  | relation => do
    p.next.parse rules
    emitOp (relationOp op)
  | sum => do
    p.next.parse rules
    emitOp (additiveOp op)
  | _ => do
    p.next.parse rules
    multiplicativeOp op

/-- Whether operands of a precedence are read in turns, with operators between them. -/
def isChain (p : Precedence) : Bool := !p.operators.isEmpty

theorem parse_chain {p : Precedence} (chain : p.isChain) (rules : Nested) :
    p.parse rules = leftChain p.operators (p.next.parse rules) (p.combine rules) := by
  cases p <;> first | rfl | cases chain

/-- Words that start an access or a call. -/
def accesses : List String := ["[", "(", ".", "->"]

/-- Words that start a type, beside names and those that also stand elsewhere. -/
def typeStarts : List String := ["map", "chan", "interface", "struct", "func"]

/-- Words that go on with an expression of a precedence when they stand behind it. -/
def continuations (p : Precedence) : List String :=
  accesses ++ typeStarts ++ (if p = choice then ["\x7b", "?"] else ["\x7b"]) ++
    (all.filter (p.rank ≤ ·.rank)).flatMap operators

end Precedence

/-! ## What stands behind an expression -/

namespace Compiler

/-- What comes next does not go on with an expression of a precedence. -/
structure Stops (p : Precedence) (c : Compiler) : Prop where
  access : ∀ text ∈ Precedence.accesses, c.cursor.isNext text = false
  brace : c.cursor.isNext "\x7b" = true → c.noStructLiteral = true ∨ c.structTypes = []
  operators : c.sameLine = true → ∀ q : Precedence, p.rank ≤ q.rank →
    ∀ text ∈ q.operators, c.cursor.isNext text = false
  choice : c.sameLine = true → p = .choice → c.cursor.isNext "?" = false
  identifier : c.sameLine = true → c.cursor.current.isIdentifier = false
  type : c.sameLine = true → ∀ text ∈ Precedence.typeStarts,
    c.cursor.isNext text = false

variable {c : Compiler} {p q : Precedence}

theorem Stops.tighter (h : c.Stops p) (le : p.rank ≤ q.rank) : c.Stops q where
  access := h.access
  brace := h.brace
  operators same r hr := h.operators same r (Nat.le_trans le hr)
  choice same hq := by
    subst hq
    have : p.rank = Precedence.choice.rank := Nat.le_antisymm le (Nat.zero_le _)
    exact h.choice same (Precedence.eq_of_rank this)
  identifier := h.identifier
  type := h.type

/-- What was emitted says nothing on what comes next. -/
theorem Stops.emitted {n : Nat} {is js : List Instruction} (h : (c.emitted n is).Stops p) :
    (c.emitted n js).Stops p :=
  ⟨h.access, h.brace, h.operators, h.choice, h.identifier, h.type⟩

/-- A word that goes on with nothing stops an expression. -/
theorem Stops.of_is {t : Token} {ts : List Token} {text : String} (h : c.Ahead (t :: ts))
    (is : t.is text) (stops : text ∉ p.continuations) : c.Stops p := by
  have other {word : String} (mem : word ∈ p.continuations) : c.cursor.isNext word = false := by
    rw [h.isNext]
    refine Token.is_other is ?_
    rintro rfl
    exact stops mem
  have brace : c.cursor.isNext "\x7b" = false := by
    refine other (List.mem_append_left _ (List.mem_append_right _ ?_))
    split <;> simp
  refine ⟨fun word mem => other ?_, fun next => ?_, fun _ q le word mem => other ?_,
    fun _ isChoice => other ?_, fun _ => ?_, fun _ word mem => other ?_⟩
  · exact List.mem_append_left _ (List.mem_append_left _ (List.mem_append_left _ mem))
  · rw [brace] at next
    cases next
  · refine List.mem_append_right _ (List.mem_flatMap.2 ⟨q, List.mem_filter.2 ⟨?_, ?_⟩, mem⟩)
    · cases q <;> simp [Precedence.all]
    · simpa using le
  · refine List.mem_append_left _ (List.mem_append_right _ ?_)
    simp [isChoice]
  · rw [h.current, Token.isIdentifier]
    rcases ((Token.is_iff t text).1 is).1 with tag | tag <;> rw [tag] <;> rfl
  · exact List.mem_append_left _ (List.mem_append_left _ (List.mem_append_right _ mem))

/-- The name that an identifier stands for. -/
def spelling (c : Compiler) (name : String) : String :=
  if c.normalize then Text.toLower name else name

/-- A compiler in the midst of a source in which no type starts with empty brackets and `*`. -/
structure Ready (c : Compiler) : Prop where
  unsealed : c.draft.code.isSealed = false
  last : c.cursor.last.tag = .endOfInput
  noType : ¬Token.OpensPointers c.cursor.tokens.toList

theorem Ready.emitted (h : c.Ready) (n : Nat) (is : List Instruction) : (c.emitted n is).Ready :=
  ⟨(c.emitted_isSealed n is).trans h.unsealed, h.last, h.noType⟩

end Compiler

/-! ## Phrases -/

/-- Reading a phrase, whatever the tokens behind it. -/
structure Reading (package : String → String → Option String → CompileM CodeRef) (depth : Nat)
    (c : Compiler) (ts : List Token) : Prop where
  ready : c.Ready
  ahead : c.Ahead ts
  deep : ts.length ≤ depth

variable {package : String → String → Option String → CompileM CodeRef}

namespace Reading

variable {depth : Nat} {c : Compiler} {t : Token} {ts us : List Token}

theorem left (h : Reading package depth c (ts ++ us)) : Reading package depth c ts := by
  have deep := h.deep
  rw [List.length_append] at deep
  exact ⟨h.ready, h.ahead.left, by omega⟩

theorem right (h : Reading package depth c (ts ++ us)) (is : List Instruction) :
    Reading package depth (c.emitted ts.length is) us := by
  have deep := h.deep
  rw [List.length_append] at deep
  exact ⟨h.ready.emitted _ _, h.ahead.right is, by omega⟩

theorem tail (h : Reading package depth c (t :: ts)) (is : List Instruction) :
    Reading package depth (c.emitted 1 is) ts := @right package depth c [t] ts h is

/-- What is emitted before anything is read leaves all of it to be read. -/
theorem start (h : Reading package depth c ts) (is : List Instruction) :
    Reading package depth (c.emitted 0 is) ts := ⟨h.ready.emitted 0 is, h.ahead, h.deep⟩

/-- What was emitted says nothing on how to read on. -/
theorem emitting {n : Nat} {is : List Instruction} (h : Reading package depth (c.emitted n is) ts)
    (js : List Instruction) : Reading package depth (c.emitted n js) ts := by
  obtain ⟨⟨unsealed, last, noType⟩, ahead, deep⟩ := h
  rw [Compiler.emitted_isSealed] at unsealed
  exact ⟨⟨(c.emitted_isSealed n js).trans unsealed, last, noType⟩, ahead, deep⟩

/-- There is a level for every token. -/
theorem level (h : Reading package depth c (t :: ts)) : ∃ below, depth = below + 1 :=
  ⟨depth - 1, (Nat.succ_pred_eq_of_pos (Nat.lt_of_lt_of_le (Nat.succ_pos _) h.deep)).symm⟩

/-- What is behind a token is read by the rules of the level below. -/
theorem inner (h : Reading package (depth + 1) c ts) (less : ts.length ≤ depth) :
    Reading package depth c ts := ⟨h.ready, h.ahead, less⟩

end Reading

/-- The compiler that has read an expression. -/
def Compiler.hasRead (c : Compiler) (ts : List Token) (e : Expr) : Compiler :=
  c.emitted ts.length (e.code c.spelling c.here)

/-- Tokens are read as an expression when nothing behind them goes on with it. -/
def Parses (p : Precedence) (e : Expr) (ts : List Token) : Prop :=
  ∀ {package : String → String → Option String → CompileM CodeRef} {depth : Nat} {c : Compiler},
    Reading package depth c ts → (c.hasRead ts e).Stops p →
    p.parse (rulesTo package depth) c = (.ok (), c.hasRead ts e)

theorem Parses.behind {p : Precedence} {e : Expr} {ts : List Token} {depth n : Nat} {c : Compiler}
    {is : List Instruction} (h : Parses p e ts) (reading : Reading package depth (c.emitted n is) ts)
    (stops : (c.emitted (n + ts.length) []).Stops p) :
    p.parse (rulesTo package depth) (c.emitted n is) =
      (.ok (), c.emitted (n + ts.length) (is ++ e.code c.spelling (c.here + is.length))) := by
  have read : (c.emitted n is).hasRead ts e =
      c.emitted (n + ts.length) (is ++ e.code c.spelling (c.here + is.length)) := by
    rw [Compiler.hasRead, Compiler.emitted_emitted, Compiler.emitted_here]
    rfl
  rw [← read]
  exact h reading (read ▸ stops.emitted)

/-! ## Operands and operators in turns -/

/-- A turn of the reading of operands with operators between them. -/
def chainTurn (rules : Nested) (p : Precedence) : CompileM Bool := do
  match ← operator p.operators with
  | some op =>
    p.combine rules op
    pure true
  | none => pure false

/-- Reading an expression is reading tokens as the start of one and then taking the turns that are
left, which are enough for the tokens that are left. -/
def Starts (p : Precedence) (e : Expr) (ts : List Token) : Prop :=
  ∀ {package : String → String → Option String → CompileM CodeRef} {depth : Nat} {c : Compiler},
    Reading package depth c ts → (c.hasRead ts e).Stops p.next →
    ∃ left, c.cursor.tokens.size - (c.cursor.pos + ts.length) < left ∧
      p.parse (rulesTo package depth) c =
        turns (whileTurn (chainTurn (rulesTo package depth) p)) left () (c.hasRead ts e)

/-- What a writing of an expression means for the steps that read it. -/
def Reads (p : Precedence) (e : Expr) (ts : List Token) : Prop :=
  if p.isChain then Starts p e ts else Parses p e ts

theorem operator_none {p : Precedence} {c : Compiler}
    (stops : c.sameLine = true → ∀ text ∈ p.operators, c.cursor.isNext text = false) :
    operator p.operators c = (.ok none, c) := by
  refine (bind_of_ok (sameLine_eq c)).trans ?_
  cases same : c.sameLine with
  | false => rfl
  | true =>
    have missing : p.operators.find? c.cursor.isNext = none := by
      rw [List.find?_eq_none]
      intro text mem
      simp [stops same text mem]
    rw [if_neg (by simp)]
    refine (bind_of_ok (get_eq c)).trans ?_
    simp only [missing]
    rfl

theorem operator_some {p : Precedence} {c : Compiler} {t : Token} {ts : List Token} {text : String}
    (h : c.Ahead (t :: ts)) (same : c.sameLine = true) (is : t.is text)
    (mem : text ∈ p.operators) : operator p.operators c = (.ok (some text), c.emitted 1 []) := by
  have found : p.operators.find? c.cursor.isNext = some text := by
    have : c.cursor.isNext = (text == ·) := by
      funext word
      rw [h.isNext]
      by_cases e : text = word
      · rw [← e, is, beq_self_eq_true]
      · rw [Token.is_other is e, beq_eq_false_iff_ne.2 e]
    rw [this]
    cases h : p.operators.find? (text == ·) with
    | none => exact absurd (List.find?_eq_none.1 h text mem) (by simp)
    | some word => rw [eq_of_beq (List.find?_some h)]
  refine (bind_of_ok (sameLine_eq c)).trans ?_
  rw [same, if_neg (by simp)]
  refine (bind_of_ok (get_eq c)).trans ?_
  simp only [found]
  exact bind_of_ok (skip_of h)

/-- At a word that goes on with nothing the turns end. -/
theorem Starts.parses {p : Precedence} {e : Expr} {ts : List Token} (h : Starts p e ts) :
    Parses p e ts := by
  intro package depth c reading stops
  obtain ⟨left, enough, start⟩ := h reading (stops.tighter (by cases p <;> decide))
  rw [start]
  cases left with
  | zero => exact absurd enough (Nat.not_lt_zero _)
  | succ left =>
    have none := operator_none fun same => stops.operators same p (Nat.le_refl _)
    exact while_done ((bind_of_ok none).trans rfl) left

theorem Reads.parses {p : Precedence} {e : Expr} {ts : List Token} (h : Reads p e ts) :
    Parses p e ts := by
  unfold Reads at h
  split at h
  · exact h.parses
  · exact h

theorem Reads.starts {p : Precedence} {e : Expr} {ts : List Token} (chain : p.isChain)
    (h : Reads p e ts) : Starts p e ts := by
  unfold Reads at h
  rwa [if_pos chain] at h

theorem Starts.reads {p : Precedence} {e : Expr} {ts : List Token} (chain : p.isChain)
    (h : Starts p e ts) : Reads p e ts := by
  unfold Reads
  rwa [if_pos chain]

/-! ## Operators -/

theorem Operation.precedence_isChain (op : Operation) : op.precedence.isChain = true := by
  cases op <;> rfl

theorem Operation.stops (op : Operation) : op.word ∉ op.precedence.next.continuations := by
  cases op <;> decide

/-- An operand read by the next tighter level is the start of a chain. -/
theorem Parses.starts {p : Precedence} {e : Expr} {ts : List Token} (chain : p.isChain)
    (h : Parses p.next e ts) : Starts p e ts := by
  intro package depth c reading stops
  have operand := h reading stops
  refine ⟨c.cursor.tokens.size - (c.cursor.pos + ts.length) + 2, by omega, ?_⟩
  rw [Precedence.parse_chain chain]
  exact bind_of_ok operand

/-- An operator whose operands are both needed is emitted behind them. -/
theorem combine_plain {op : Operation} (plain : op.decides? = none) {rules : Nested}
    {c c' : Compiler} (read : op.precedence.next.parse rules c = (.ok (), c'))
    (unsealed : c'.draft.code.isSealed = false) :
    op.precedence.combine rules op.word c = (.ok (), c'.emitted 0 op.instructions) := by
  cases op with
  | or | and => cases plain
  | shiftRight =>
    refine (bind_of_ok read).trans ((bind_of_ok (emit_of unsealed .negate .none)).trans ?_)
    refine (emit_of ((c'.emitted_isSealed _ _).trans unsealed) .bitShift .none).trans ?_
    rw [Compiler.emitted_emitted]
    rfl
  | _ => exact (bind_of_ok read).trans (emit_of unsealed _ .none)

/-- A right operand that may be skipped is emitted between branches over it. -/
theorem shortCircuit_of {decides : Bool} {right : CompileM Unit} {c : Compiler} {n : Nat}
    {is : List Instruction} (unsealed : c.draft.code.isSealed = false)
    (read : right (c.emitted 0 [⟨.dup, .none⟩, branchOn decides 0]) =
      (.ok (), c.emitted n (⟨.dup, .none⟩ :: branchOn decides 0 :: is))) :
    shortCircuit decides right c = (.ok (), c.emitted n (shortCircuitCode decides c.here is)) := by
  have emits := @emit_emitted c unsealed n
  have branches := @emitFixup_emitted c unsealed
  let logic : Instruction := ⟨if decides then .or else .and, .none⟩
  let rest : List Instruction := [⟨.drop, .none⟩, ⟨.push, .value (.bool decides)⟩]
  have short : patchHere (c.here + 1) (c.emitted n (⟨.dup, .none⟩ :: branchOn decides 0 ::
      (is ++ [logic, ⟨.branch, .address 0⟩]))) = (.ok (), c.emitted n (⟨.dup, .none⟩ ::
      branchOn decides (c.here + is.length + 4) :: (is ++ [logic, ⟨.branch, .address 0⟩]))) :=
    patchHere_emitted n [⟨.dup, .none⟩] _ _ rfl (by simp; omega)
  have finish : patchHere (c.here + is.length + 3) (c.emitted n (⟨.dup, .none⟩ ::
      branchOn decides (c.here + is.length + 4) :: (is ++ logic :: ⟨.branch, .address 0⟩ :: rest))) =
      (.ok (), c.emitted n (shortCircuitCode decides c.here is)) := by
    let before : List Instruction :=
      ⟨.dup, .none⟩ :: branchOn decides (c.here + is.length + 4) :: (is ++ [logic])
    have fixup : c.here + is.length + 3 = c.here + before.length := by
      simp [before]
      omega
    have target : c.here + is.length + 6 = c.here + before.length + 1 + rest.length := by
      simp [before, rest]
      omega
    have patched := patchHere_emitted n before ⟨.branch, .address 0⟩ rest fixup target
    simpa [shortCircuitCode, before, logic, rest] using patched
  refine (bind_of_ok (emit_of unsealed .dup .none)).trans ?_
  refine (bind_of_ok (branches 0 [⟨.dup, .none⟩] _)).trans ?_
  refine (bind_of_ok read).trans ((bind_of_ok (emits _ _ .none)).trans ?_)
  refine (bind_of_ok (branches n _ .branch)).trans ?_
  simp only [List.cons_append, List.append_assoc, List.nil_append]
  refine (bind_of_ok short).trans ?_
  refine (bind_of_ok (emits _ .drop .none)).trans ((bind_of_ok (emits _ .push _)).trans ?_)
  simp only [List.cons_append, List.append_assoc, List.nil_append, List.length_cons,
    List.length_append, List.length_nil]
  exact finish

theorem combine_short {op : Operation} {decided : Bool} (h : op.decides? = some decided)
    (rules : Nested) : op.precedence.combine rules op.word =
      shortCircuit decided (op.precedence.next.parse rules) := by
  cases op <;> cases h <;> rfl

@[simp] theorem Compiler.spelling_emitted (c : Compiler) (n : Nat) (is : List Instruction) :
    (c.emitted n is).spelling = c.spelling := rfl

/-- The right operand of an operator is read, and its code and that of the operator emitted. -/
theorem combine_reads {depth : Nat} {c : Compiler} {op : Operation} {b : Expr} {tb : List Token}
    (reading : Reading package depth c tb) (right : Parses op.precedence.next b tb)
    (stops : (c.emitted tb.length []).Stops op.precedence.next) :
    op.precedence.combine (rulesTo package depth) op.word c = (.ok (), c.emitted tb.length
      (op.rightCode c.here fun start => b.code c.spelling start)) := by
  unfold Operation.rightCode
  cases h : op.decides? with
  | none =>
    have read := right reading stops.emitted
    have unsealed := (reading.ready.emitted tb.length (b.code c.spelling c.here)).unsealed
    refine (combine_plain h read unsealed).trans ?_
    rw [Compiler.hasRead, Compiler.emitted_emitted]
    rfl
  | some decided =>
    rw [combine_short h]
    refine shortCircuit_of reading.ready.unsealed ?_
    rw [← Nat.zero_add tb.length] at stops ⊢
    exact right.behind (reading.start _) stops

/-- The left side of an operator, the operator and its right operand are the start of a chain. -/
theorem Starts.binary {t : Token} {op : Operation} {a b : Expr} {ta tb : List Token}
    (left : Starts op.precedence a ta) (some : ta ≠ []) (word : t.word = mark op.word)
    (follows : Token.Follows ta t) (right : Parses op.precedence.next b tb) :
    Starts op.precedence (.binary op a b) (ta ++ t :: tb) := by
  intro package depth c reading stops
  have behind := reading.right (a.code c.spelling c.here)
  have same := reading.ahead.sameLine some follows (a.code c.spelling c.here)
  have operand := behind.tail []
  obtain ⟨k, enough, start⟩ := left reading.left (.of_is behind.ahead (Token.is_of_word word) op.stops)
  obtain ⟨k, rfl⟩ : ∃ k', k = k' + 1 := ⟨k - 1, by omega⟩
  have bound := reading.ahead.bound
  have length : (ta ++ t :: tb).length = ta.length + 1 + tb.length := by
    rw [List.length_append, List.length_cons, Nat.add_right_comm, ← Nat.add_assoc]
  rw [Compiler.hasRead, length] at stops
  have combined := combine_reads operand right
    (by simpa only [Compiler.emitted_emitted] using stops.emitted)
  have turned : chainTurn (rulesTo package depth) op.precedence (c.hasRead ta a) =
      (.ok true, c.hasRead (ta ++ t :: tb) (.binary op a b)) := by
    refine (bind_of_ok (operator_some behind.ahead same (Token.is_of_word word) op.word_mem)).trans ?_
    refine (bind_of_ok combined).trans ?_
    rw [Compiler.hasRead, length, Expr.code]
    simp only [Compiler.emitted_emitted, Compiler.emitted_here, Compiler.spelling_emitted,
      List.append_nil]
    rfl
  refine ⟨k, by omega, ?_⟩
  rw [start]
  exact while_again turned k

end StackScript
