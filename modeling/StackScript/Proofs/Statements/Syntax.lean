import StackScript.Proofs.Expressions.Syntax
import StackScript.Proofs.Expressions.Moving

/-!
# Statements as trees

Assignments, output, scopes, branches and loops, and how they are written. A block is a scope; an
`if` with a statement before its condition and every `for` are scopes that start with that
statement, so that the loop variables are bound once. `Laid` says which tokens spell a statement or
a sequence of them: a semicolon or the end of a line stands between two statements.

The code of a tree is the instructions that stand for it from an address on. Where `break` and
`continue` lead to is not known until the loop around them has been read, so that the code of a
statement has `Slot`s for their branches.

Main statements: `Laid.starts` (the words that a statement may start with), `Stmt.slots` and
`fill_plain` (code without slots has nothing to be filled).
-/
namespace StackScript

/-! ## Trees -/

/-- A value for a name, which is declared first if it is new. -/
structure Assignment where
  isNew : Bool
  name : String
  value : Expr

/-- A statement, or a sequence of statements. -/
inductive Stmt where
  /-- The end of a sequence, or an `else` that is missing. -/
  | nothing
  /-- A statement that starts on a line, and those behind it. -/
  | next (line : Nat) (first rest : Stmt)
  | assign (a : Assignment)
  | print (es : List Expr)
  /-- A scope of its own, which may start with an assignment. -/
  | inScope (start : Option Assignment) (body : Stmt)
  | branch (test : Expr) (yes no : Stmt)
  /-- What a `for` repeats in its scope; `post` comes between two passes. -/
  | cycle (test : Option Expr) (post : Option Assignment) (body : Stmt)
  /-- `break` or `continue`. -/
  | leave (isBreak : Bool)

namespace Stmt

/-- Statements between braces. -/
def block (body : Stmt) : Stmt := .inScope none body

/-- A branch, in a scope of its own if an assignment stands before its condition. -/
def choose (start : Option Assignment) (test : Expr) (yes no : Stmt) : Stmt :=
  if start.isSome then .inScope start (.branch test yes no) else .branch test yes no

/-- A loop in its scope. -/
def loop (start : Option Assignment) (test : Option Expr) (post : Option Assignment)
    (body : Stmt) : Stmt :=
  .inScope start (.cycle test post body)

/-- Whether this is an `else` that is missing. -/
def isNothing : Stmt → Bool
  | nothing => true
  | _ => false

end Stmt

/-! ## Names -/

variable (spell : String → String)

/-- A name is declared only where it is new, and the blank one never is. -/
def Assignment.Proper (a : Assignment) (names : List String) : Prop :=
  a.isNew = true → spell a.name ≠ "_" ∧ spell a.name ∉ names

/-- The name that an assignment declares. -/
def Assignment.names (a : Assignment) : List String := if a.isNew then [spell a.name] else []

/-- The name that an assignment declares, if there is one. -/
def namesIfAny (a : Option Assignment) : List String := (a.map (·.names spell)).getD []

namespace Stmt

/-- The names that a statement declares in the block it stands in. -/
def names : Stmt → List String
  | next _ first rest => first.names ++ rest.names
  | assign a => a.names spell
  | _ => []

/-- Names are declared once in each block, and `break` and `continue` stand in loops. -/
def Proper : Stmt → (names : List String) → (inLoop : Bool) → Prop
  | nothing, _, _ | print _, _, _ => True
  | next _ first rest, names, inLoop =>
    first.Proper names inLoop ∧ rest.Proper (names ++ first.names spell) inLoop
  | assign a, names, _ => a.Proper spell names
  | inScope start body, _, inLoop =>
    (∀ a ∈ start, a.Proper spell []) ∧ body.Proper (namesIfAny spell start) inLoop
  | branch _ yes no, names, inLoop => yes.Proper names inLoop ∧ no.Proper names inLoop
  | cycle _ _ body, names, _ => body.Proper names true
  | leave _, _, inLoop => inLoop = true

end Stmt

/-! ## Writing -/

/-- A reserved word. -/
def keyword (text : String) : Word := (.reserved, text)

theorem Token.is_of_keyword {t : Token} {text : String} (h : t.word = keyword text) :
    t.is text := by
  obtain ⟨tag, spelling⟩ := Prod.mk.inj h
  rw [Token.is_iff]
  exact ⟨.inr tag, spelling⟩

/-- Tokens that spell an assignment. -/
inductive Assignment.Laid : Assignment → List Token → Prop
  | intro {t op : Token} {isNew : Bool} {e : Expr} {ts : List Token} (name : t.tag = .identifier)
      (word : op.word = mark (if isNew then ":=" else "=")) (line : op.line = t.line)
      (value : Written (.expr .choice e) ts) :
      Assignment.Laid ⟨isNew, t.spelling, e⟩ (t :: op :: ts)

/-- Tokens that spell what may be missing. -/
def Perhaps {α : Type} (spells : α → List Token → Prop) : Option α → List Token → Prop
  | none, ts => ts = []
  | some a, ts => spells a ts

/-- Tokens that spell a whole expression. -/
def Expr.Laid (e : Expr) (ts : List Token) : Prop := Written (.expr .choice e) ts

/-- Tokens that spell what stands before the condition of a branch. -/
inductive Opening : Option Assignment → List Token → Prop
  | none : Opening none []
  | some {a : Assignment} {t : Token} {ts : List Token} (start : a.Laid ts)
      (ends : t.word = mark ";") : Opening (some a) (ts ++ [t])

/-- Tokens that spell the head of a loop: at most a condition, or three clauses. -/
inductive LoopHead : Option Assignment → Option Expr → Option Assignment → List Token → Prop
  | condition {test : Option Expr} {ts : List Token} (tests : Perhaps Expr.Laid test ts) :
      LoopHead none test none ts
  | clauses {start post : Option Assignment} {test : Option Expr} {first second : Token}
      {ts te tp : List Token} (starts : Perhaps Assignment.Laid start ts)
      (one : first.word = mark ";") (tests : Perhaps Expr.Laid test te)
      (two : second.word = mark ";") (posts : Perhaps Assignment.Laid post tp)
      (old : ∀ a ∈ post, a.isNew = false) :
      LoopHead start test post (ts ++ first :: te ++ second :: tp)

/-- A token ends a statement, or none does because the next statement starts on another line. -/
inductive Separated : (before ends behind : List Token) → Prop
  | semicolon {before behind : List Token} {t : Token} (word : t.word = mark ";") :
      Separated before [t] behind
  | last {before : List Token} : Separated before [] []
  | line {before behind : List Token} {t : Token} (other : ∀ u ∈ before.getLast?, t.line ≠ u.line)
      (no : t.is ";" = false) : Separated before [] (t :: behind)

/-- What tokens may spell. -/
inductive Fragment where
  /-- Statements between braces. -/
  | block (s : Stmt)
  /-- A branch. -/
  | chosen (s : Stmt)
  | statement (s : Stmt)
  /-- What follows the first body of a branch. -/
  | otherwise (s : Stmt)
  | sequence (s : Stmt)

/-- Tokens that spell a fragment of a program. -/
inductive Laid : Fragment → List Token → Prop
  | block {first last : Token} {body : Stmt} {ts : List Token} (opens : first.word = mark "\x7b")
      (inner : Laid (.sequence body) ts) (closes : last.word = mark "\x7d") :
      Laid (.block (.block body)) (first :: ts ++ [last])
  | chosen {t : Token} {start : Option Assignment} {test : Expr} {yes no : Stmt}
      {ts te ty tn : List Token} (word : t.word = keyword "if") (opening : Opening start ts)
      (tests : test.Laid te) (body : Laid (.block yes) ty) (rest : Laid (.otherwise no) tn) :
      Laid (.chosen (.choose start test yes no)) (t :: ts ++ te ++ ty ++ tn)
  | missing : Laid (.otherwise .nothing) []
  | otherwise {t : Token} {s : Stmt} {ts : List Token} (word : t.word = keyword "else")
      (inner : Laid (.block s) ts) : Laid (.otherwise s) (t :: ts)
  | again {t : Token} {s : Stmt} {ts : List Token} (word : t.word = keyword "else")
      (inner : Laid (.chosen s) ts) : Laid (.otherwise s) (t :: ts)
  | assign {a : Assignment} {ts : List Token} (h : a.Laid ts) : Laid (.statement (.assign a)) ts
  | print {t : Token} {es : List Expr} {ts : List Token} (word : t.word = keyword "print")
      (items : Written (.items es) ts) (some : es ≠ [])
      (follows : ∀ u ∈ ts.head?, u.line = t.line) : Laid (.statement (.print es)) (t :: ts)
  | inBlock {s : Stmt} {ts : List Token} (h : Laid (.block s) ts) : Laid (.statement s) ts
  | choose {s : Stmt} {ts : List Token} (h : Laid (.chosen s) ts) : Laid (.statement s) ts
  | loop {t : Token} {start post : Option Assignment} {test : Option Expr} {body : Stmt}
      {ts tb : List Token} (word : t.word = keyword "for") (head : LoopHead start test post ts)
      (inner : Laid (.block body) tb) :
      Laid (.statement (.loop start test post body)) (t :: ts ++ tb)
  | leave {t : Token} (isBreak : Bool)
      (word : t.word = keyword (if isBreak then "break" else "continue")) :
      Laid (.statement (.leave isBreak)) [t]
  | finish : Laid (.sequence .nothing) []
  | semicolon {t : Token} {s : Stmt} {ts : List Token} (word : t.word = mark ";")
      (rest : Laid (.sequence s) ts) : Laid (.sequence s) (t :: ts)
  | next {first rest : Stmt} {t : Token} {ts te tr : List Token}
      (one : Laid (.statement first) (t :: ts)) (ends : Separated (t :: ts) te tr)
      (others : Laid (.sequence rest) tr) :
      Laid (.sequence (.next t.line first rest)) (t :: ts ++ te ++ tr)

/-! ## First tokens -/

/-- The words that a statement may start with, beside names. -/
def Stmt.starts : List String := ["\x7b", "if", "print", "for", "break", "continue"]

/-- Whether a statement may start with a token. -/
def Token.Starts (t : Token) : Prop := t.tag = .identifier ∨ ∃ text ∈ Stmt.starts, t.is text

namespace Laid

variable {s : Stmt} {ts : List Token}

theorem block_starts (h : Laid (.block s) ts) : ∃ t rest, ts = t :: rest ∧ t.is "\x7b" := by
  cases h with
  | block opens => exact ⟨_, _, rfl, Token.is_of_word opens⟩

theorem chosen_starts (h : Laid (.chosen s) ts) : ∃ t rest, ts = t :: rest ∧ t.is "if" := by
  cases h with
  | chosen word => exact ⟨_, _, rfl, Token.is_of_keyword word⟩

/-- A statement starts with a name or with a word of its own. -/
theorem starts (h : Laid (.statement s) ts) : ∃ t rest, ts = t :: rest ∧ t.Starts := by
  cases h with
  | assign h =>
    cases h with
    | intro name => exact ⟨_, _, rfl, .inl name⟩
  | print word => exact ⟨_, _, rfl, .inr ⟨"print", by decide, Token.is_of_keyword word⟩⟩
  | inBlock h =>
    obtain ⟨t, rest, rfl, is⟩ := h.block_starts
    exact ⟨t, rest, rfl, .inr ⟨_, by decide, is⟩⟩
  | choose h =>
    obtain ⟨t, rest, rfl, is⟩ := h.chosen_starts
    exact ⟨t, rest, rfl, .inr ⟨_, by decide, is⟩⟩
  | loop word => exact ⟨_, _, rfl, .inr ⟨"for", by decide, Token.is_of_keyword word⟩⟩
  | leave isBreak word =>
    refine ⟨_, _, rfl, .inr ⟨_, ?_, Token.is_of_keyword word⟩⟩
    cases isBreak <;> decide

end Laid

/-! ## Slots -/

/-- An instruction, or the branch of a `break` or `continue`. -/
inductive Slot where
  | plain (i : Instruction)
  | leave (isBreak : Bool)

/-- The instruction of a slot, when it is known where `break` and `continue` lead to. -/
def Slot.fill (target : Bool → Nat) : Slot → Instruction
  | plain i => i
  | leave isBreak => ⟨.branch, .address (target isBreak)⟩

/-- The instructions of slots. -/
def fill (target : Bool → Nat) (slots : List Slot) : List Instruction := slots.map (·.fill target)

/-- Instructions as slots. -/
def plain (is : List Instruction) : List Slot := is.map .plain

section

variable (target : Bool → Nat) (a b : List Slot) (is js : List Instruction)

@[simp] theorem fill_length : (fill target a).length = a.length := List.length_map _

@[simp] theorem plain_length : (plain is).length = is.length := List.length_map _

@[simp] theorem fill_append : fill target (a ++ b) = fill target a ++ fill target b :=
  List.map_append

@[simp] theorem fill_nil : fill target [] = [] := rfl

@[simp] theorem fill_cons (slot : Slot) : fill target (slot :: a) = slot.fill target :: fill target a :=
  rfl

@[simp] theorem fill_plain : fill target (plain is) = is := by
  induction is with
  | nil => rfl
  | cons i is ih => exact congrArg (i :: ·) ih

end

/-! ## Statements -/

/-- The instructions that note a line, unless it was noted last. -/
def lineCode (line last : Nat) : List Instruction :=
  if 0 < line ∧ line ≠ last then [⟨.atLine, .int (Int64.ofNat line)⟩] else []

/-- The line that was noted last when a statement has started. -/
def lineAfter (line last : Nat) : Nat := if 0 < line ∧ line ≠ last then line else last

/-- The instructions that store the top of the stack under a name. -/
def storeCode (isNew : Bool) (name : String) : List Instruction :=
  if name = "_" then [⟨.drop, .none⟩]
  else if isNew then [⟨.symbolCreate, .name name⟩, ⟨.store, .name name⟩]
  else [⟨.store, .name name⟩]

theorem storeCode_plain (isNew : Bool) (name : String) : ∀ i ∈ storeCode isNew name, i.IsPlain := by
  unfold storeCode
  split
  · decide
  · cases isNew <;> simp [Instruction.IsPlain, Opcode.isTransfer, Opcode.isBranch]

/-- The instructions of an assignment. -/
def Assignment.code (start : Nat) (a : Assignment) : List Instruction :=
  a.value.code spell start ++ storeCode a.isNew (spell a.name)

/-- The instructions of an assignment, if there is one. -/
def codeIfAny (start : Nat) : Option Assignment → List Instruction
  | some a => a.code spell start
  | none => []

/-- The instructions that print values on a line. -/
def printCode (start : Nat) (es : List Expr) : List Instruction :=
  Expr.itemsCode spell start es ++
    [⟨.print, .int (Int64.ofNat es.length)⟩, ⟨.newline, .none⟩]

/-- The instructions of a condition and the branch that is taken when it does not hold. -/
def testCode (start exit : Nat) : Option Expr → List Instruction
  | some test => test.code spell start ++ [branchOn false exit]
  | none => []

/-- Leaving so many scopes. -/
def popScopes (count : Nat) : Instruction := ⟨.popScope, .int (Int64.ofNat count)⟩

namespace Stmt

/-- The line that was noted last when a statement has ended. -/
def lastLine : Stmt → (last : Nat) → Nat
  | next line first rest, last => rest.lastLine (first.lastLine (lineAfter line last))
  | inScope _ body, last => body.lastLine last
  | branch _ yes no, last => no.lastLine (yes.lastLine last)
  | cycle _ _ body, last => body.lastLine last
  | _, last => last

/-- The code of a statement from an address on; `last` is the line that was noted last, `depth` the
number of scopes that were opened in the innermost loop. -/
def slots : Stmt → (start last depth : Nat) → List Slot
  | nothing, _, _, _ => []
  | next line first rest, start, last, depth =>
    let noted := lineCode line last
    let one := first.slots (start + noted.length) (lineAfter line last) depth
    plain noted ++ one ++ rest.slots (start + noted.length + one.length)
      (first.lastLine (lineAfter line last)) depth
  | assign a, start, _, _ => plain (a.code spell start)
  | print es, start, _, _ => plain (printCode spell start es)
  | inScope opening body, start, last, depth =>
    let entry := ⟨.pushScope, .none⟩ :: codeIfAny spell (start + 1) opening
    plain entry ++ body.slots (start + entry.length) last (depth + 1) ++ plain [popScopes 1]
  | branch test yes no, start, last, depth =>
    let condition := test.code spell start
    let one := yes.slots (start + condition.length + 1) last depth
    let other := no.slots (start + condition.length + 1 + one.length + 1) (yes.lastLine last) depth
    if no.isNothing then
      plain (condition ++ [branchOn false (start + condition.length + 1 + one.length)]) ++ one
    else
      plain (condition ++ [branchOn false (start + condition.length + 1 + one.length + 1)]) ++ one ++
        plain [⟨.branch, .address (start + condition.length + 1 + one.length + 1 + other.length)⟩] ++
        other
  | cycle test post body, start, last, _ =>
    let head := (testCode spell start 0 test).length
    let passed := body.slots (start + head) last 0
    let next := start + head + passed.length
    let exit := next + (codeIfAny spell next post).length + 1
    plain (testCode spell start exit test ++ fill (bif · then exit else next) passed ++
      codeIfAny spell next post ++ [⟨.branch, .address start⟩])
  | leave isBreak, _, _, depth =>
    plain (if 0 < depth then [popScopes depth] else []) ++ [.leave isBreak]

theorem slots_leave (isBreak : Bool) (start last depth : Nat) :
    (leave isBreak).slots spell start last depth =
      plain (if 0 < depth then [popScopes depth] else []) ++ [.leave isBreak] := by
  rw [slots]

/-- Whether all that is counted in a statement is so little that a number counts it. -/
def Short : Stmt → (depth : Nat) → Prop
  | nothing, _ => True
  | next _ first rest, depth => first.Short depth ∧ rest.Short depth
  | assign a, _ => a.value.Short
  | print es, _ => es.length < countLimit ∧ Expr.ShortAll es
  | inScope opening body, depth => (∀ a ∈ opening, a.value.Short) ∧ body.Short (depth + 1)
  | branch test yes no, depth => test.Short ∧ yes.Short depth ∧ no.Short depth
  | cycle test post body, _ =>
    (∀ e ∈ test, e.Short) ∧ (∀ a ∈ post, a.value.Short) ∧ body.Short 0
  | leave _, depth => depth < countLimit

end Stmt

theorem testCode_length (start exit exit' : Nat) (test : Option Expr) :
    (testCode spell start exit test).length = (testCode spell start exit' test).length := by
  cases test <;> simp [testCode]

end StackScript
