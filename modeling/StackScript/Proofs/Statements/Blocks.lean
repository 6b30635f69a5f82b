import StackScript.Proofs.Statements.Reading

/-!
# Reading blocks and branches

A block is read in a scope of its own, and so is a branch with a statement before its condition. The
branch behind a failed condition is patched when it is known where the other body starts.

Main statements: `Made.block` and `Made.chosen`.
-/
namespace StackScript

open CompileM

variable {package : String → String → Option String → CompileM CodeRef} {depth : Nat}
variable {c c' : Compiler} {t : Token} {ts us : List Token} {rules : Nested}

/-! ## Scopes of their own -/

/-- A compiler in a scope of its own, with the assignment that the scope starts with. -/
def Compiler.withScope (c : Compiler) (count : Nat) (start : Option Assignment) : Compiler :=
  (c.deeper.declaring (namesIfAny c.spelling start)).wrote count
    (plain (⟨.pushScope, .none⟩ :: codeIfAny c.spelling (c.here + 1) start))

theorem pushScope_withScope (unsealed : c.draft.code.isSealed = false) (n : Nat) :
    pushScope (c.emitted n []) = (.ok (), c.withScope n none) := by
  have names : c.deeper.declaring (namesIfAny c.spelling none) = c.deeper :=
    Compiler.declaring_nothing _
  have push : (plain [] ++ plain [⟨.pushScope, .none⟩] : List Slot) =
      plain (⟨.pushScope, .none⟩ :: codeIfAny c.spelling (c.here + 1) none) := rfl
  refine (pushScope_of ((c.emitted_isSealed n []).trans unsealed)).trans ?_
  rw [Compiler.withScope, names, c.emitted_eq_wrote, Compiler.deeper_wrote, Compiler.wrote_wrote, ← push]
  rfl

theorem Compiler.withScope_hasAssigned (c : Compiler) (m n : Nat) (a : Assignment) :
    (c.withScope m none).hasAssigned n a = c.withScope (m + n) (some a) := by
  have here : (c.withScope m none).here = c.here + 1 := by
    rw [withScope, wrote_here]
    rfl
  rw [hasAssigned, here, withScope, declaring_wrote, wrote_emitted, declaring_declaring]
  rfl

theorem Compiler.withScope_emitted (c : Compiler) (m n : Nat) (start : Option Assignment) :
    (c.withScope m start).emitted n [] = c.withScope (m + n) start := by
  rw [withScope, wrote_emitted, show plain [] = [] from rfl, List.append_nil]
  rfl

theorem Compiler.Inside.withScope {names : List String} {inLoop : Bool} {level : Nat}
    (h : c.Inside names inLoop level) (n : Nat) (start : Option Assignment) :
    (c.withScope n start).Inside (namesIfAny c.spelling start) inLoop (level + 1) :=
  (h.deeper.declaring (namesIfAny c.spelling start)).wrote _ _

/-- At the end of a scope its names are forgotten; the code of the scope stays. -/
theorem popScope_withScope {names : List String} {inLoop : Bool} {level : Nat}
    (inside : c.Inside names inLoop level) (unsealed : c.draft.code.isSealed = false)
    (start : Option Assignment) (body : Stmt) (m n k : Nat) :
    popScope (((c.withScope m start).hasMade n body (level + 1)).emitted k []) =
      (.ok (), c.hasMade (m + n + k) (.inScope start body) level) := by
  rw [Compiler.withScope, Compiler.wrote_hasMade, Compiler.wrote_emitted]
  rw [Compiler.declaring_declaring]
  refine (popScope_of inside.inScope unsealed _).trans (congrArg (Prod.mk _) ?_)
  change _ = ((c.declaring []).atLine _).wrote _ _
  rw [c.declaring_nothing]
  refine congrArg (Compiler.wrote _ _) ?_
  rw [show plain [] = [] from rfl, List.append_nil, plain_length]
  rfl

/-! ## Blocks -/

/-- A turn of the reading of a block. -/
def blockTurn (rules : Nested) : CompileM Bool := do
  if ← accept "\x7d" then pure false
  else
    if ← atEnd then fail (.missing "\x7d")
    rules.statement
    pure true

theorem blockTurn_reads (rules : Nested) : ReadsStatements rules (blockTurn rules) := by
  intro c c' t ts ahead other read
  have closed : c.cursor.isNext "\x7d" = false := by rw [ahead.isNext, other]
  have atEnd : atEnd c = (.ok false, c) := by
    rw [← ahead.atEnd]
    rfl
  refine (bind_of_ok (accept_other closed)).trans ((bind_of_ok atEnd).trans ?_)
  exact (bind_of_ok read).trans rfl

theorem blockTurn_done (ahead : c.Ahead (t :: ts)) (is : t.is "\x7d") :
    blockTurn rules c = (.ok false, c.emitted 1 []) := (bind_of_ok (accept_of ahead is)).trans rfl

/-- Statements between braces are read in a scope of their own. -/
theorem Made.block {first last : Token} {body : Stmt} (opens : first.word = mark "\x7b")
    (inner : MadeInTurns body ts) (closes : last.word = mark "\x7d") :
    Made 1 block (fun _ => True) (.block body) (first :: ts ++ [last]) := by
  intro package depth c names inLoop level reading inside proper _
  rw [List.cons_append] at reading ⊢
  have closing := Token.is_of_word closes
  have unsealed := reading.ready.unsealed
  have deep := reading.deep
  rw [List.length_cons, List.length_append, List.length_singleton] at deep
  obtain ⟨depth, rfl⟩ : ∃ d, depth = d + 2 := ⟨depth - 2, by omega⟩
  have begun : Reading package (depth + 2) (c.withScope 1 none) (ts ++ [last]) :=
    (reading.tail []).of_cursor rfl ((Compiler.wrote_isSealed ..).trans unsealed)
  have inner' : Reading package depth (c.withScope 1 none) ts :=
    ⟨begun.ready, begun.ahead.left, by omega⟩
  have closed : ((c.withScope 1 none).emitted ts.length []).Closed := by
    refine .inr ?_
    rw [(begun.ahead.right []).isNext]
    exact closing
  have bound := inner'.ahead.bound
  obtain ⟨left, le, all⟩ := inner inner' (inside.withScope 1 none) proper.2 closed (blockTurn_reads _)
    (show ts.length ≤
      (c.withScope 1 none).cursor.tokens.size - (c.withScope 1 none).cursor.pos + 2 by omega)
  obtain ⟨left, rfl⟩ : ∃ l, left = l + 1 := ⟨left - 1, by omega⟩
  have behind : ((c.withScope 1 none).hasMade ts.length body (level + 1)).Ahead [last] :=
    begun.ahead.right []
  have made := all.trans (while_done (blockTurn_done behind closing) left)
  have length : (first :: (ts ++ [last])).length = 1 + ts.length + 1 := by
    rw [List.length_cons, List.length_append, List.length_singleton, Nat.add_comm 1]
  refine (bind_of_ok (expect_of reading.ahead (Token.is_of_word opens))).trans ?_
  refine (bind_of_ok (pushScope_withScope unsealed 1)).trans ((bind_of_ok made).trans ?_)
  rw [length]
  exact popScope_withScope inside unsealed _ _ 1 ts.length 1

/-- What is known of tokens that spell a block. -/
structure MadeBlock (s : Stmt) (ts : List Token) : Prop where
  made : Made 1 block (fun _ => True) s ts
  opens : ∃ t rest, ts = t :: rest ∧ t.word = mark "\x7b"
  unnamed : ∀ spell, s.names spell = []

/-! ## Branches -/

/-- The code behind a condition: the branch that is taken when it does not hold, the first body and
the second one. -/
def armSlots (spell : String → String) (start last depth : Nat) (one : List Slot) (no : Stmt) :
    List Slot :=
  let other := no.slots spell (start + 1 + one.length + 1) last depth
  if no.isNothing then .plain (branchOn false (start + 1 + one.length)) :: one
  else .plain (branchOn false (start + 1 + one.length + 1)) :: (one ++
    .plain ⟨.branch, .address (start + 1 + one.length + 1 + other.length)⟩ :: other)

theorem Stmt.branch_slots (spell : String → String) (test : Expr) (yes no : Stmt)
    (start last depth : Nat) :
    (Stmt.branch test yes no).slots spell start last depth =
      plain (test.code spell start) ++
        armSlots spell (start + (test.code spell start).length) (yes.lastLine last) depth
          (yes.slots spell (start + (test.code spell start).length + 1) last depth) no := by
  rw [Stmt.slots, armSlots]
  cases no.isNothing <;> simp [plain]

/-- From tokens behind the first body of a branch the compiler makes the second one. -/
def MadeOtherwise (no : Stmt) (ts : List Token) : Prop :=
  ∀ ⦃package : String → String → Option String → CompileM CodeRef⦄ ⦃depth : Nat⦄ ⦃c : Compiler⦄
    ⦃names : List String⦄ ⦃inLoop : Bool⦄ ⦃level n : Nat⦄ ⦃before one : List Slot⦄,
    Reading package depth (c.wrote n (before ++ .plain (branchOn false 0) :: one)) ts →
    c.Inside names inLoop level → no.Proper c.spelling names inLoop →
    (c.emitted (n + ts.length) []).cursor.isNext "else" = false →
    elseClause (rulesTo package (depth + 1)) (c.here + before.length)
        (c.wrote n (before ++ .plain (branchOn false 0) :: one)) =
      (.ok (), (c.atLine (no.lastLine c.draft.lastLine)).wrote (n + ts.length)
        (before ++ armSlots c.spelling (c.here + before.length) c.draft.lastLine level one no))

theorem MadeOtherwise.missing : MadeOtherwise .nothing [] := by
  intro package depth c names inLoop level n before one reading inside proper no
  have other : (c.wrote n (before ++ .plain (branchOn false 0) :: one)).cursor.isNext "else" = false := no
  refine (bind_of_ok (accept_other other)).trans ?_
  refine (patchHere_wrote n rfl rfl).trans ?_
  rfl

/-- The second body is read behind the branch that passes over it. -/
theorem MadeOtherwise.of {no : Stmt} (again : Bool) (word : t.word = keyword "else")
    (something : no.isNothing = false) (unnamed : ∀ spell, no.names spell = [])
    (which : ∀ {c : Compiler}, c.Ahead ts → c.cursor.isNext "if" = again)
    (made : ∀ {package : String → String → Option String → CompileM CodeRef} {depth : Nat}
      {c : Compiler} {names : List String} {inLoop : Bool} {level : Nat}, Reading package depth c ts →
      c.Inside names inLoop level → no.Proper c.spelling names inLoop →
      (c.emitted ts.length []).cursor.isNext "else" = false →
      (if again then (rulesTo package (depth + 2)).ifStatement else block (rulesTo package (depth + 2)))
        c = (.ok (), c.hasMade ts.length no level)) :
    MadeOtherwise no (t :: ts) := by
  intro package depth c names inLoop level n before one reading inside proper behind
  obtain ⟨depth, rfl⟩ := reading.level
  have unsealed : c.draft.code.isSealed = false :=
    (c.wrote_isSealed _ _).symm.trans reading.ready.unsealed
  let fails (target : Nat) : Slot := .plain (branchOn false target)
  let leaves (target : Nat) : Slot := .plain ⟨.branch, .address target⟩
  obtain ⟨other, hother⟩ : ∃ slots, slots = no.slots c.spelling
    (c.here + before.length + 1 + one.length + 1) c.draft.lastLine level := ⟨_, rfl⟩
  let failed := c.here + before.length
  -- the first body ends with a branch, behind which a failed condition leads
  have skip : emitFixup .branch (c.wrote (n + 1) (before ++ fails 0 :: one)) =
      (.ok (failed + 1 + one.length), c.wrote (n + 1) (before ++ fails 0 :: (one ++ [leaves 0]))) := by
    refine (emitFixup_wrote unsealed (n + 1) .branch).trans ?_
    rw [List.length_append, List.length_cons, List.append_assoc, List.cons_append,
      Nat.add_comm one.length, ← Nat.add_assoc, ← Nat.add_assoc]
    rfl
  have patched : patchHere failed (c.wrote (n + 1) (before ++ fails 0 :: (one ++ [leaves 0]))) =
      (.ok (), c.wrote (n + 1) (before ++ fails (failed + 1 + one.length + 1) :: (one ++ [leaves 0]))) :=
    patchHere_wrote (n + 1) rfl (by simp [failed, Nat.add_assoc])
  -- the second body is read
  obtain ⟨start, hstart⟩ : ∃ c', c' =
      c.wrote (n + 1) (before ++ fails (failed + 1 + one.length + 1) :: (one ++ [leaves 0])) := ⟨_, rfl⟩
  have reading' : Reading package depth start ts := by
    subst hstart
    have := (reading.tail []).inner (Nat.le_of_succ_le_succ reading.deep)
    exact this.of_cursor rfl ((c.wrote_isSealed _ _).trans unsealed)
  have inside' : start.Inside names inLoop level := hstart ▸ inside.wrote _ _
  have proper' : no.Proper start.spelling names inLoop := by
    rw [hstart]
    exact proper
  have cursor : (start.emitted ts.length []).cursor = (c.emitted (n + (t :: ts).length) []).cursor := by
    have same : start.cursor = (c.emitted (n + 1) []).cursor := by rw [hstart]; rfl
    exact c.emitted_cursor [] [] same (by rw [List.length_cons]; omega)
  have read := made reading' inside' proper' (by rwa [cursor])
  have next : isNext "if" start = (.ok again, start) := by
    rw [← which reading'.ahead]
    rfl
  have made' : start.hasMade ts.length no level = (c.atLine (no.lastLine c.draft.lastLine)).wrote
      (n + (t :: ts).length) (before ++ fails (failed + 1 + one.length + 1) ::
        (one ++ leaves 0 :: other)) := by
    have length : n + 1 + ts.length = n + (t :: ts).length := by
      rw [List.length_cons]
      omega
    have behind : c.here + (before ++ fails (failed + 1 + one.length + 1) ::
        (one ++ [leaves 0])).length = failed + 1 + one.length + 1 := by
      simp only [List.length_append, List.length_cons, List.length_nil, failed]
      omega
    rw [hstart, Compiler.wrote_hasMade, unnamed, c.declaring_nothing, behind, ← hother, length]
    simp
  have finish : patchHere (failed + 1 + one.length) (start.hasMade ts.length no level) =
      (.ok (), (c.atLine (no.lastLine c.draft.lastLine)).wrote (n + (t :: ts).length)
        (before ++ armSlots c.spelling failed c.draft.lastLine level one no)) := by
    obtain ⟨exit, hexit⟩ : ∃ a, a = failed + 1 + one.length + 1 + other.length := ⟨_, rfl⟩
    let arm := before ++ fails (failed + 1 + one.length + 1) :: one
    have done : patchHere (failed + 1 + one.length) ((c.atLine (no.lastLine c.draft.lastLine)).wrote
        (n + (t :: ts).length) (arm ++ leaves 0 :: other)) =
        (.ok (), (c.atLine (no.lastLine c.draft.lastLine)).wrote (n + (t :: ts).length)
          (arm ++ leaves exit :: other)) :=
      patchHere_wrote _ (by simp [arm, failed, Compiler.atLine, Compiler.here]; omega)
        (by simp [arm, hexit, failed, Compiler.atLine, Compiler.here]; omega)
    rw [made', armSlots, something, ← hother]
    simpa [arm, hexit, fails, leaves] using done
  refine (bind_of_ok (accept_of reading.ahead (Token.is_of_keyword word))).trans ?_
  rw [if_pos rfl, Compiler.wrote_emitted, show plain [] = [] from rfl, List.append_nil]
  refine (bind_of_ok skip).trans ((bind_of_ok patched).trans ?_)
  rw [← hstart]
  refine (bind_of_ok next).trans ?_
  cases again with
  | true => exact (bind_of_ok read).trans finish
  | false => exact (bind_of_ok read).trans finish

/-- The steps that read a condition and what depends on it. -/
def conditional (rules : Nested) : CompileM Unit := do
  condition rules
  let otherwise ← emitFixup .branchFalse
  block rules
  elseClause rules otherwise

/-- What is known of a condition and what depends on it. -/
structure Conditional (test : Expr) (yes no : Stmt) (te ty tn : List Token) : Prop where
  tests : test.Laid te
  body : MadeBlock yes ty
  rest : MadeOtherwise no tn

theorem Made.conditional {test : Expr} {yes no : Stmt} {te ty tn : List Token}
    (h : Conditional test yes no te ty tn) :
    Made 1 conditional (·.cursor.isNext "else" = false) (.branch test yes no) (te ++ ty ++ tn) := by
  intro package depth c names inLoop level reading inside proper behind
  have unsealed := reading.ready.unsealed
  obtain ⟨t, rest, opens, brace⟩ := h.body.opens
  obtain ⟨code, hcode⟩ : ∃ is, is = test.code c.spelling c.here := ⟨_, rfl⟩
  -- the condition
  have first := reading.left.left
  have second := reading.left.right []
  have tested := condition_of h.tests first (by
    subst opens
    exact .of_brace second.ahead brace inside.types)
  rw [Compiler.hasRead, ← hcode, Compiler.emitted_eq_wrote] at tested
  -- the first body
  obtain ⟨start, hstart⟩ : ∃ c', c' = c.wrote te.length (plain code ++ plain [branchOn false 0]) :=
    ⟨_, rfl⟩
  have fixup : emitFixup .branchFalse (c.wrote te.length (plain code)) =
      (.ok (c.here + code.length), start) := by
    rw [hstart, ← plain_length]
    exact emitFixup_wrote unsealed te.length .branchFalse
  have reading₁ : Reading package depth start (ty ++ tn) := by
    subst hstart
    rw [List.append_assoc] at reading
    exact (reading.right []).of_cursor rfl ((c.wrote_isSealed _ _).trans unsealed)
  have inside₁ : start.Inside names inLoop level := hstart ▸ inside.wrote _ _
  have proper₁ : yes.Proper start.spelling names inLoop := by
    rw [hstart]
    exact proper.1
  have body := h.body.made reading₁.left inside₁ proper₁ trivial
  obtain ⟨one, hone⟩ : ∃ slots, slots =
    yes.slots c.spelling (c.here + code.length + 1) c.draft.lastLine level := ⟨_, rfl⟩
  obtain ⟨last, hlast⟩ : ∃ c', c' = c.atLine (yes.lastLine c.draft.lastLine) := ⟨_, rfl⟩
  have made : start.hasMade ty.length yes level =
      last.wrote (te.length + ty.length) (plain code ++ .plain (branchOn false 0) :: one) := by
    rw [hstart, Compiler.wrote_hasMade, h.body.unnamed, c.declaring_nothing, hlast, hone]
    simp [Nat.add_assoc, plain]
  -- the second one
  have reading₂ : Reading package depth (start.hasMade ty.length yes level) tn := by
    refine (reading₁.right []).of_cursor rfl ?_
    exact (Compiler.wrote_isSealed _ _ _).trans reading₁.ready.unsealed
  rw [made] at body reading₂
  have inside₂ : last.Inside names inLoop level := hlast ▸ inside.atLine _
  have proper₂ : no.Proper last.spelling names inLoop := by
    rw [hlast]
    exact proper.2
  have total : te.length + ty.length + tn.length = (te ++ ty ++ tn).length := by
    simp only [List.length_append]
  have other := h.rest reading₂ inside₂ proper₂ (by rw [total, hlast]; exact behind)
  refine (bind_of_ok tested).trans ((bind_of_ok fixup).trans ?_)
  refine (bind_of_ok body).trans ?_
  rw [plain_length, hlast] at other
  rw [hlast]
  refine other.trans (congrArg (Prod.mk _) ?_)
  change _ = ((c.declaring []).atLine _).wrote _ _
  rw [c.declaring_nothing, Stmt.branch_slots, ← hcode, ← hone, total]
  rfl

/-- What follows a condition and what depends on it. -/
theorem conditional_then {α : Type} {rest : CompileM α} (h : conditional rules c = (.ok (), c')) :
    (do
      condition rules
      let otherwise ← emitFixup .branchFalse
      block rules
      elseClause rules otherwise
      rest) c = rest c' := by
  have split : (do
      condition rules
      let otherwise ← emitFixup .branchFalse
      block rules
      elseClause rules otherwise
      rest) = (do conditional rules; rest) := by
    simp only [conditional, bind_assoc]
  rw [split]
  exact bind_of_ok h

/-- A branch without a statement before its condition. -/
theorem Made.plainBranch {test : Expr} {yes no : Stmt} {te ty tn : List Token}
    (h : Conditional test yes no te ty tn) :
    Made 1 (fun rules => ifWith rules (simpleStatement rules)) (·.cursor.isNext "else" = false)
      (.branch test yes no) (t :: (te ++ ty ++ tn)) := by
  intro package depth c names inLoop level reading inside proper behind
  obtain ⟨first, rest, rfl, brace⟩ := h.body.opens
  have tail := reading.tail []
  have shape : te ++ first :: rest ++ tn = te ++ first :: (rest ++ tn) := by simp
  have search : headContains ";" (c.emitted 1 []) = (.ok false, c.emitted 1 []) :=
    headContains_of (shape ▸ tail.ahead) (h.tests.passed (by decide)) (by rw [(Prod.mk.inj brace).1]; decide)
      (Token.is_of_word brace) nofun
  have length : (t :: (te ++ first :: rest ++ tn)).length =
      1 + (te ++ first :: rest ++ tn).length := Nat.add_comm _ _
  rw [length] at behind ⊢
  have made := Made.conditional h tail (inside.emitted 1 []) proper
    (by rwa [Compiler.emitted_emitted])
  rw [Compiler.emitted_hasMade] at made
  refine (bind_of_ok (skip_of reading.ahead)).trans ((bind_of_ok search).trans ?_)
  rw [if_neg Bool.false_ne_true, if_neg Bool.false_ne_true]
  exact conditional_then made

/-- A branch with an assignment before its condition is read in a scope of its own. -/
theorem Made.scopedBranch {a : Assignment} {semicolon : Token} {test : Expr} {yes no : Stmt}
    {ts te ty tn : List Token} (start : a.Laid ts)
    (ends : semicolon.word = mark ";") (h : Conditional test yes no te ty tn) :
    Made 1 (fun rules => ifWith rules (simpleStatement rules)) (·.cursor.isNext "else" = false)
      (.inScope (some a) (.branch test yes no)) (t :: (ts ++ semicolon :: (te ++ ty ++ tn))) := by
  intro package depth c names inLoop level reading inside proper behind
  have unsealed := reading.ready.unsealed
  have is := Token.is_of_word ends
  have tail := reading.tail []
  have search : headContains ";" (c.emitted 1 []) = (.ok true, c.emitted 1 []) :=
    headContains_of tail.ahead (start.passed (by decide)) (by rw [(Prod.mk.inj ends).1]; decide) is
      (fun _ => by decide)
  -- the assignment is read in the new scope
  have begun : Reading package depth (c.withScope 1 none) (ts ++ semicolon :: (te ++ ty ++ tn)) :=
    tail.of_cursor rfl ((Compiler.wrote_isSealed ..).trans unsealed)
  have inside₁ := inside.withScope 1 none
  have assigned := headStatement_of start begun.left inside₁ (proper.1 a rfl)
    (.of_is (begun.ahead.right []) is (by decide))
  rw [Compiler.withScope_hasAssigned] at assigned
  -- so is the condition, and what depends on it
  have behind₁ : Reading package depth (c.withScope (1 + ts.length) (some a))
      (semicolon :: (te ++ ty ++ tn)) := by
    have right := begun.right []
    rw [Compiler.withScope_emitted] at right
    exact right.of_cursor rfl ((Compiler.wrote_isSealed ..).trans unsealed)
  have inner := behind₁.tail []
  rw [Compiler.withScope_emitted] at inner
  have total : (t :: (ts ++ semicolon :: (te ++ ty ++ tn))).length =
      1 + ts.length + 1 + (te ++ ty ++ tn).length := by
    simp only [List.length_cons, List.length_append]
    omega
  rw [total] at behind ⊢
  have made := Made.conditional h inner (inside.withScope _ _) proper.2
    (by rwa [Compiler.withScope_emitted])
  refine (bind_of_ok (skip_of reading.ahead)).trans ((bind_of_ok search).trans ?_)
  simp only [if_true]
  refine (bind_of_ok (pushScope_withScope unsealed 1)).trans ((bind_of_ok assigned).trans ?_)
  refine (bind_of_ok (expect_of behind₁.ahead is)).trans ?_
  rw [Compiler.withScope_emitted]
  have popped := popScope_withScope inside unsealed (some a) (.branch test yes no)
    (1 + ts.length + 1) (te ++ ty ++ tn).length 0
  rw [Compiler.emitted_nothing] at popped
  exact (conditional_then made).trans popped

theorem Made.chosen {start : Option Assignment} {test : Expr} {yes no : Stmt}
    {ts te ty tn : List Token} (opening : Opening start ts) (h : Conditional test yes no te ty tn) :
    Made 1 (fun rules => ifWith rules (simpleStatement rules)) (·.cursor.isNext "else" = false)
      (.choose start test yes no) (t :: ts ++ te ++ ty ++ tn) := by
  cases opening with
  | none =>
    have made := Made.plainBranch (t := t) h
    simpa [Stmt.choose] using made
  | some start ends =>
    have made := Made.scopedBranch (t := t) start ends h
    simpa [Stmt.choose] using made

end StackScript
