import StackScript.Proofs.Compiling.Sessions
import StackScript.Proofs.Statements.Loops
import StackScript.Proofs.Expressions.Compiled

/-!
# Compiling statements

Output and the words that leave a loop, and then all statements together: the constructs of a program
are read one inside the other, and tokens that spell a program are compiled to its code. A source
that is a single statement without a keyword is compiled to the code of the statement behind the
note of its line, and runs as that code computes.

Main statements: `Laid.isMade` (by induction on how a program is written), `compile_of` and
`compile_single`.
-/
namespace StackScript

open CompileM

section

variable {package : String → String → Option String → CompileM CodeRef} {depth : Nat}
variable {c c' : Compiler} {t : Token} {ts us : List Token} {rules : Nested}

/-! ## Leaving a loop -/

theorem noteLeaves_leave (l : OpenLoop) (outer : List OpenLoop) (start : Nat) (is : List Instruction)
    (isBreak : Bool) (loop : l.kind = .loop) :
    noteLeaves start (plain is ++ [.leave isBreak]) (l :: outer) =
      OpenLoop.noteBranch isBreak (start + is.length) (l :: outer) := by
  have left : l.isLeftBy isBreak = true := by simp [OpenLoop.isLeftBy, loop]
  cases isBreak <;>
    simp [noteLeaves, OpenLoop.noted, OpenLoop.noteBranch, left, leavesAt_append, leavesAt_plain, leavesAt]

theorem Made.leave (isBreak : Bool) (word : t.word = keyword (if isBreak then "break" else "continue")) :
    Made 1 (fun _ => loopControl) (fun _ => True) (.leave isBreak) [t] := by
  intro package depth c names inLoop level reading inside proper _
  obtain rfl : inLoop = true := proper
  obtain ⟨l, outer, loops, kind, scopeDepth, tryDepth⟩ := inside.loop rfl
  have unsealed := reading.ready.unsealed
  have isWord : t.is "break" = isBreak := by
    have is := Token.is_of_keyword word
    cases isBreak with
    | true => exact is
    | false => exact Token.is_other is (by decide)
  obtain ⟨pops, hpops⟩ : ∃ is, is = if 0 < level then [popScopes level] else [] := ⟨_, rfl⟩
  have found : (c.emitted 1 []).draft.loops.find? (OpenLoop.isLeftBy isBreak) = some l := by
    change c.draft.loops.find? _ = _
    rw [loops, List.find?_cons_of_pos]
    simp [OpenLoop.isLeftBy, kind]
  have levels : c.draft.scopeDepth - l.scopeDepth = level := by omega
  have noTries : c.draft.tryDepth - l.tryDepth = 0 := by omega
  have fixup := emitFixup_emitted (c := c) unsealed 1 pops .branch
  -- the branch is noted with the loop
  have noted : (c.inLoops (OpenLoop.noteBranch isBreak (c.here + pops.length) c.draft.loops)).emitted 1
      (pops ++ [⟨.branch, .address 0⟩]) = c.hasMade 1 (.leave isBreak) level := by
    have slots : (Stmt.leave isBreak).slots c.spelling c.here c.draft.lastLine level =
        plain pops ++ [.leave isBreak] := by rw [hpops]; rfl
    have blank : blanks (plain pops ++ [.leave isBreak]) = pops ++ [⟨.branch, .address 0⟩] := by
      simp [blanks, Slot.fill]
    change _ = ((c.declaring []).atLine c.draft.lastLine).wrote 1 _
    rw [c.declaring_nothing, slots, Compiler.wrote, blank, loops]
    change _ = (c.inLoops (noteLeaves c.here _ c.draft.loops)).emitted _ _
    rw [loops, noteLeaves_leave l outer c.here pops isBreak kind]
  have branches : (do
      (List.range (c.draft.tryDepth - l.tryDepth)).forM fun _ => emitOp .tryPop
      let fixup ← emitFixup .branch
      modifyDraft fun d => { d with loops := OpenLoop.noteBranch isBreak fixup d.loops }
      : CompileM Unit) (c.emitted 1 pops) = (.ok (), c.hasMade 1 (.leave isBreak) level) := by
    rw [noTries, ← noted]
    have none : (List.range 0).forM (fun _ => emitOp .tryPop) (c.emitted 1 pops) =
        (.ok (), c.emitted 1 pops) := rfl
    exact (bind_of_ok none).trans (bind_of_ok fixup)
  refine (bind_of_ok (next_of reading.ahead)).trans ((bind_of_ok (get_eq _)).trans ?_)
  rw [isWord]
  simp only [found]
  by_cases some : 0 < level
  · have emits : emitInt .popScope (c.draft.scopeDepth - l.scopeDepth) (c.emitted 1 []) =
        (.ok (), c.emitted 1 [popScopes level]) := by
      rw [levels]
      exact emit_emitted unsealed 1 [] .popScope (.int (Int64.ofNat level))
    rw [hpops, if_pos some] at branches
    have deeper : l.scopeDepth < (c.emitted 1 []).draft.scopeDepth :=
      Nat.lt_of_lt_of_eq (Nat.lt_add_of_pos_right some) scopeDepth
    rw [if_pos deeper]
    exact (bind_of_ok emits).trans branches
  · rw [hpops, if_neg some] at branches
    have same : ¬l.scopeDepth < (c.emitted 1 []).draft.scopeDepth := by
      change ¬l.scopeDepth < c.draft.scopeDepth
      omega
    rw [if_neg same]
    exact branches

/-! ## Output -/

/-- A turn of the reading of expressions with commas between them. -/
def itemTurn (rules : Nested) (count : Nat) : CompileM (Turn Nat Nat) := do
  rules.expression
  if ← accept "," then pure (.again (count + 1)) else pure (.done (count + 1))

/-- Expressions with commas between them are read up to what goes on with none of them. -/
theorem itemTurns_of {q : Phrase} (written : Written q ts) {es : List Expr} (items : q = .items es)
    (some : es ≠ []) {count left : Nat} (reading : Reading package depth c ts)
    (stops : (c.emitted ts.length []).Stops .choice)
    (ends : (c.emitted ts.length []).cursor.isNext "," = false) (enough : es.length ≤ left) :
    turns (itemTurn (rulesTo package (depth + 1))) left count c =
      (.ok (count + es.length), c.emitted ts.length (Expr.itemsCode c.spelling c.here es)) := by
  induction written generalizing es count left c with
  | none =>
    cases items
    exact absurd rfl some
  | @last e ts h =>
    cases items
    obtain ⟨left, rfl⟩ : ∃ l, left = l + 1 := ⟨left - 1, by simp at enough; omega⟩
    have read : (rulesTo package (depth + 1)).expression c = (.ok (), c.hasRead ts e) :=
      h.parses reading stops.emitted
    have comma : (c.hasRead ts e).cursor.isNext "," = false := ends
    have turned : itemTurn (rulesTo package (depth + 1)) count c =
        (.ok (.done (count + 1)), c.hasRead ts e) :=
      (bind_of_ok read).trans ((bind_of_ok (accept_other comma)).trans rfl)
    refine (turns_done turned left).trans ?_
    rw [Expr.itemsCode, Expr.itemsCode, List.append_nil]
    rfl
  | @more comma e es ta tb h word others someOthers _ ih =>
    cases items
    obtain ⟨left, rfl⟩ : ∃ l, left = l + 1 := ⟨left - 1, by simp at enough; omega⟩
    have is := Token.is_of_word word
    have behind := reading.right (e.code c.spelling c.here)
    have read : (rulesTo package (depth + 1)).expression c = (.ok (), c.hasRead ta e) :=
      h.parses reading.left (.of_is behind.ahead is (by decide))
    have turned : itemTurn (rulesTo package (depth + 1)) count c =
        (.ok (.again (count + 1)), (c.hasRead ta e).emitted 1 []) :=
      (bind_of_ok read).trans ((bind_of_ok (accept_of behind.ahead is)).trans rfl)
    have joined : (c.hasRead ta e).emitted 1 [] =
        c.emitted (ta.length + 1) (e.code c.spelling c.here) := by
      rw [Compiler.hasRead, Compiler.emitted_emitted, List.append_nil]
    have total : (ta ++ comma :: tb).length = ta.length + 1 + tb.length := by
      rw [List.length_append, List.length_cons]
      omega
    rw [joined] at turned
    have reading' := behind.tail []
    rw [Compiler.emitted_emitted, List.append_nil] at reading'
    have behind' : (c.emitted (ta.length + 1) (e.code c.spelling c.here)).emitted tb.length [] =
        c.emitted (ta ++ comma :: tb).length (e.code c.spelling c.here) := by
      rw [Compiler.emitted_emitted, total, List.append_nil]
    have rest := @ih _ _ rfl someOthers (count + 1) _ reading' (behind' ▸ stops.emitted)
      (behind' ▸ ends) (Nat.le_of_succ_le_succ enough)
    refine (turns_again turned left).trans (rest.trans ?_)
    rw [Compiler.emitted_emitted, Compiler.emitted_here, total, List.length_cons, Nat.add_assoc,
      Nat.add_comm 1]
    rfl
  | _ => cases items

theorem expressionList_of {es : List Expr} (items : Written (.items es) ts) (some : es ≠ [])
    (reading : Reading package depth c ts) (stops : (c.emitted ts.length []).Stops .choice)
    (ends : (c.emitted ts.length []).cursor.isNext "," = false) :
    expressionList (rulesTo package (depth + 1)) c =
      (.ok es.length, c.emitted ts.length (Expr.itemsCode c.spelling c.here es)) := by
  have counted := items.items_length
  have bound := reading.ahead.bound
  have enough : es.length ≤ c.cursor.tokens.size - c.cursor.pos + 2 := by omega
  have read : turns (itemTurn (rulesTo package (depth + 1))) _ 0 c = _ :=
    itemTurns_of items rfl some reading stops ends enough
  rwa [Nat.zero_add] at read

/-- The values of a line are read and printed. -/
theorem Made.print {es : List Expr} (items : Written (.items es) ts) (some : es ≠ [])
    (follows : ∀ u ∈ ts.head?, u.line = t.line) :
    Made 1 printStatement Compiler.Ended (.print es) (t :: ts) := by
  intro package depth c names inLoop level reading inside proper ended
  have unsealed := reading.ready.unsealed
  have tail := reading.tail []
  have length : (t :: ts).length = 1 + ts.length := Nat.add_comm _ _
  rw [length] at ended ⊢
  -- something stands behind the word on its line
  have goesOn : atStatementEnd (c.emitted 1 []) = (.ok false, c.emitted 1 []) := by
    obtain ⟨first, rest, rfl, other⟩ : ∃ first rest, ts = first :: rest ∧
        ∀ text ∉ Written.starts, first.is text = false := by
      cases items with
      | none => exact absurd rfl some
      | last h => exact h.first
      | more h =>
        obtain ⟨first, rest, rfl, other⟩ := h.first
        exact ⟨first, _, rfl, other⟩
    have same : (c.emitted 1 []).sameLine = true :=
      Compiler.Ahead.sameLine (show c.Ahead ([t] ++ first :: rest) from reading.ahead) (by simp) (by
        simpa using follows first rfl) []
    have no (text : String) (ne : text ∉ Written.starts) :
        (c.emitted 1 []).cursor.isNext text = false := by
      rw [tail.ahead.isNext]
      exact other text ne
    rw [atStatementEnd_eq, same, tail.ahead.atEnd]
    simp [Token.Cursor.isAnyNext, no ";" (by decide), no "\x7d" (by decide)]
  have behind : (c.emitted 1 []).emitted ts.length [] = c.emitted (1 + ts.length) [] :=
    c.emitted_emitted ..
  have list := expressionList_of items some tail
    (behind ▸ (ended.stops reading.ready.last inside.types).emitted)
    (behind ▸ ended.isNext reading.ready.last (by decide))
  rw [Compiler.emitted_emitted] at list
  have emits := emit_emitted (c := c) unsealed
  refine (bind_of_ok (skip_of reading.ahead)).trans ((bind_of_ok goesOn).trans ?_)
  rw [if_pos (by rfl)]
  refine (bind_of_ok list).trans ((bind_of_ok (emits _ _ .print _)).trans ((emits _ _ .newline _).trans ?_))
  refine congrArg (Prod.mk _) ?_
  change _ = ((c.declaring []).atLine c.draft.lastLine).wrote _ (plain (printCode c.spelling c.here es))
  rw [c.declaring_nothing, ← Compiler.emitted_eq_wrote]
  simp only [printCode, List.nil_append, List.append_assoc, List.singleton_append]
  rfl

/-! ## Statements by their first words -/

theorem Reading.deeper (h : Reading package depth c ts) : Reading package (depth + 1) c ts :=
  ⟨h.ready, h.ahead, Nat.le_succ_of_le h.deep⟩

variable {s : Stmt} {step : Nested → CompileM Unit} {behind : Compiler → Prop}

/-- A construct that the rules at hand read is one statement among others. -/
theorem Made.statement (made : Made 1 step behind s (t :: ts))
    (same : ∀ (rules : Nested) {c : Compiler}, c.Ahead (t :: ts) →
      startedStatement rules c = step rules c)
    (ends : ∀ {c : Compiler}, c.cursor.last.tag = .endOfInput → c.Ended → behind c) :
    Made 2 startedStatement Compiler.Ended s (t :: ts) := by
  intro package depth c names inLoop level reading inside proper ended
  rw [same _ reading.ahead]
  exact made reading.deeper inside proper (ends reading.ready.last ended)

theorem startedStatement_keyword {text : String} (ahead : c.Ahead (t :: ts))
    (word : t.word = keyword text) (other : text ≠ "\x7b" ∧ text ≠ "@") :
    startedStatement rules c = keywordStatement rules text c := by
  obtain ⟨tag, spelling⟩ := Prod.mk.inj word
  have is := Token.is_of_keyword word
  refine (bind_of_ok (current_of ahead)).trans ?_
  rw [if_neg (by rw [Token.is_other is other.1]; decide),
    if_neg (by rw [Token.is_other is other.2]; decide), tag, spelling]
  rfl

theorem startedStatement_block (ahead : c.Ahead (t :: ts)) (word : t.word = mark "\x7b") :
    startedStatement rules c = block rules c := by
  refine (bind_of_ok (current_of ahead)).trans ?_
  rw [if_pos (Token.is_of_word word)]

theorem startedStatement_name (ahead : c.Ahead (t :: ts)) (name : t.tag = .identifier) :
    startedStatement rules c = simpleStatement rules c := by
  refine (bind_of_ok (current_of ahead)).trans ?_
  rw [if_neg (by simp [Token.is, name]), if_neg (by simp [Token.is, name]), name]
  rfl

theorem Made.assign {a : Assignment} (laid : a.Laid (t :: ts)) :
    Made 1 simpleStatement Compiler.Ended (.assign a) (t :: ts) := by
  intro package depth c names inLoop level reading inside proper ended
  refine (simpleStatement_of laid reading inside proper (ended.stops reading.ready.last inside.types)).trans ?_
  rw [Compiler.hasAssigned, Compiler.emitted_eq_wrote]
  rfl

/-- Tokens from which a branch is made when no `else` stands behind them. -/
structure MadeBranch (s : Stmt) (ts : List Token) : Prop where
  made : Made 1 (fun rules => ifWith rules (simpleStatement rules)) (·.cursor.isNext "else" = false) s ts
  opens : ∃ t rest, ts = t :: rest ∧ t.word = keyword "if"
  unnamed : ∀ spell, s.names spell = []
  something : s.isNothing = false

theorem MadeBranch.statement (h : MadeBranch s ts) : Made 2 startedStatement Compiler.Ended s ts := by
  intro package depth c names inLoop level reading inside proper ended
  obtain ⟨t, rest, rfl, word⟩ := h.opens
  refine (startedStatement_keyword reading.ahead word (by decide)).trans ?_
  exact h.made reading inside proper (ended.isNext reading.ready.last (by decide))

/-- What the writing of a fragment means for the steps that read it. -/
def Fragment.IsMade : Fragment → List Token → Prop
  | .block s, ts => MadeBlock s ts
  | .chosen s, ts => MadeBranch s ts
  | .statement s, ts => Made 2 startedStatement Compiler.Ended s ts
  | .otherwise s, ts => MadeOtherwise s ts
  | .sequence s, ts => MadeInTurns s ts

theorem Stmt.choose_unnamed (start : Option Assignment) (test : Expr) (yes no : Stmt)
    (spell : String → String) : (Stmt.choose start test yes no).names spell = [] := by
  unfold choose
  split <;> rfl

theorem Stmt.choose_something (start : Option Assignment) (test : Expr) (yes no : Stmt) :
    (Stmt.choose start test yes no).isNothing = false := by
  unfold choose
  split <;> rfl

/-- From tokens that spell a fragment of a program its code is made. -/
theorem Laid.isMade {q : Fragment} (h : Laid q ts) : q.IsMade ts := by
  induction h with
  | block opens inner closes ih =>
    exact ⟨.block opens ih closes, ⟨_, _, rfl, opens⟩, fun _ => rfl⟩
  | @chosen t start test yes no ts te ty tn word opening tests body rest ihBody ihRest =>
    exact ⟨.chosen opening ⟨tests, ihBody, ihRest⟩, ⟨_, _, rfl, word⟩, Stmt.choose_unnamed _ _ _ _,
      Stmt.choose_something _ _ _ _⟩
  | missing => exact .missing
  | @otherwise t s ts word inner ih =>
    refine .of false word (by cases inner; rfl) (MadeBlock.unnamed ih) (fun {c} ahead => ?_) ?_
    · obtain ⟨first, rest, rfl, brace⟩ := MadeBlock.opens ih
      rw [ahead.isNext]
      exact Token.is_other (Token.is_of_word brace) (by decide)
    · intro package depth c names inLoop level reading inside proper _
      exact MadeBlock.made ih reading.deeper inside proper trivial
  | @again t s ts word inner ih =>
    refine .of true word (MadeBranch.something ih) (MadeBranch.unnamed ih) (fun {c} ahead => ?_) ?_
    · obtain ⟨first, rest, rfl, brace⟩ := MadeBranch.opens ih
      rw [ahead.isNext]
      exact Token.is_of_keyword brace
    · intro package depth c names inLoop level reading inside proper behind
      exact MadeBranch.made ih reading inside proper behind
  | @assign a ts laid =>
    cases laid with
    | intro name word line value =>
      exact (Made.assign (.intro name word line value)).statement
        (fun _ _ ahead => startedStatement_name ahead name) fun _ ended => ended
  | @print t es ts word items some follows =>
    exact (Made.print items some follows).statement
      (fun _ _ ahead => startedStatement_keyword ahead word (by decide)) fun _ ended => ended
  | @inBlock s ts _ ih =>
    obtain ⟨first, rest, rfl, brace⟩ := MadeBlock.opens ih
    exact (MadeBlock.made ih).statement (fun _ _ ahead => startedStatement_block ahead brace)
      fun _ _ => trivial
  | choose _ ih => exact MadeBranch.statement ih
  | @loop t start post test body ts tb word head inner ih =>
    exact (Made.loop head ih).statement
      (fun _ _ ahead => startedStatement_keyword ahead word (by decide)) fun _ _ => trivial
  | @leave t isBreak word =>
    refine (Made.leave isBreak word).statement (fun _ _ ahead => ?_) fun _ _ => trivial
    cases isBreak <;> exact startedStatement_keyword ahead word (by decide)
  | finish => exact .finish
  | semicolon word _ ih => exact .semicolon word ih
  | @next first rest t ts te tr one ends others ihOne ihOthers =>
    refine MadeInTurns.next ihOne ?_ ends others ihOthers
    obtain ⟨u, tail, same, starts⟩ := one.starts
    cases same
    exact starts

/-! ## Sources -/

/-- A turn of the reading of a source. -/
def sourceTurn (rules : Nested) : CompileM Bool := do
  if ← atEnd then pure false
  else
    rules.statement
    pure true

theorem sourceTurn_reads (rules : Nested) : ReadsStatements rules (sourceTurn rules) := by
  intro c c' t ts ahead _ read
  have atEnd : atEnd c = (.ok false, c) := by
    rw [← ahead.atEnd]
    rfl
  exact (bind_of_ok atEnd).trans ((bind_of_ok read).trans rfl)

/-- A source that spells statements is compiled to their code, in which no branch is left open. -/
theorem compile_of {source : String} {tokens : List Token} {names : List String}
    (scanned : Token.scanAll source = .ok tokens) (laid : Laid (.sequence s) tokens)
    (noType : ¬Token.OpensPointers tokens) (inside : c.Inside names false 0)
    (proper : s.Proper c.spelling names false) :
    ∃ (code : Code) (c' : Compiler), compile source c = (.ok code.close, c') ∧
      code.isSealed = false ∧
      code.instructions = (blanks (s.slots c.spelling 0 0 0)).toArray := by
  obtain ⟨opened, hopened⟩ : ∃ c₁, c₁ = c.opened tokens source 0 := ⟨_, rfl⟩
  have ahead : opened.Ahead tokens := hopened ▸ c.opened_ahead tokens source
  have ready : opened.Ready := by
    subst hopened
    refine ⟨c.opened_unsealed _ source, c.opened_last _ source, ?_⟩
    simpa [Compiler.opened, Token.Cursor.ofTokens] using noType
  have inside' : opened.Inside names false 0 := by
    subst hopened
    exact ⟨inside.types, inside.scope, fun is => absurd is Bool.false_ne_true⟩
  have proper' : s.Proper opened.spelling names false := by
    rw [hopened]
    exact proper
  -- the rules are deep enough for all tokens
  let package := packageTo ((c.files.texts.length + 1) * pathLimit)
  have files : importDepth c = (.ok ((c.files.texts.length + 1) * pathLimit), c) := rfl
  have opens := openStatements_of (c := c) scanned
  have rules := @openedRules_eq c tokens source 0 package
  rw [← hopened] at opens rules
  have reading : Reading package (2 * (tokens.length + 2) - 1) opened tokens :=
    ⟨ready, ahead, by omega⟩
  -- turns are taken to the end
  have finished : (opened.emitted tokens.length []).cursor.atEnd = true := by
    rw [hopened]
    exact c.opened_atEnd tokens source []
  have depth : 2 * (tokens.length + 2) - 1 + 3 = 2 * (tokens.length + 2) + 2 := by omega
  have bound := ahead.bound
  obtain ⟨left, le, all⟩ := laid.isMade reading inside' proper' (.inl finished)
    (sourceTurn_reads _) (show tokens.length ≤ opened.cursor.tokens.size - opened.cursor.pos + 2 by omega)
  rw [depth] at all
  obtain ⟨left, rfl⟩ : ∃ l, left = l + 1 := ⟨left - 1, by omega⟩
  obtain ⟨last, hlast⟩ : ∃ c₂, c₂ = opened.hasMade tokens.length s 0 := ⟨_, rfl⟩
  rw [← hlast] at all
  have atEnd : CompileM.atEnd last = (.ok true, last) := by
    rw [hlast]
    exact congrArg (fun b => (Except.ok b, _)) finished
  have done : sourceTurn (rulesTo package (2 * (tokens.length + 2) + 2)) last = (.ok false, last) :=
    (bind_of_ok atEnd).trans rfl
  have statements : statementsWith package source c = (.ok (), last) :=
    (bind_of_ok opens).trans ((bind_of_ok rules).trans (all.trans (while_done done left)))
  refine ⟨last.unit, { last with draft := { last.draft with code := { name := last.moduleName } } },
    ?_, ?_, ?_⟩
  · refine (bind_of_ok files).trans ((bind_of_ok statements).trans ?_)
    exact finish_eq last
  · rw [hlast]
    exact (Compiler.wrote_isSealed _ _ _).trans ready.unsealed
  · rw [hlast, hopened]
    change (Code.pushAll { name := c.moduleName } (blanks (s.slots c.spelling 0 0 0))).instructions = _
    simp

end

/-! ## Sources of one statement -/

/-- Steps read all of a source as code that can start anywhere. -/
def ReadsAll (step : Nested → CompileM Unit) (normalize : Bool) (tokens : List Token)
    (is : Nat → List Instruction) : Prop :=
  ∀ {package : String → String → Option String → CompileM CodeRef} {depth : Nat} {c : Compiler},
    Reading package depth c tokens → c.normalize = normalize →
    (c.emitted tokens.length []).cursor.atEnd = true →
    step (rulesTo package (depth + 1)) c = (.ok (), c.emitted tokens.length (is c.here))

variable {source : String} {t : Token} {ts : List Token} {is : Nat → List Instruction} {c : Compiler}

/-- A source of one statement is compiled to its code behind the note of its line. -/
theorem compile_single_of (scanned : Token.scanAll source = .ok (t :: ts))
    (name : t.tag = .identifier) (noType : ¬Token.OpensPointers (t :: ts))
    (reads : ReadsAll simpleStatement c.normalize (t :: ts) is) :
    ∃ (code : Code) (c' : Compiler), compile source c = (.ok code.close, c') ∧
      code.isSealed = false ∧
      code.instructions = (⟨.atLine, .int (Int64.ofNat t.line)⟩ :: is 1).toArray := by
  obtain ⟨opened, hopened⟩ : ∃ c₁, c₁ = c.opened (t :: ts) source 0 := ⟨_, rfl⟩
  have ahead : opened.Ahead (t :: ts) := hopened ▸ c.opened_ahead (t :: ts) source
  have ready : opened.Ready := by
    subst hopened
    refine ⟨c.opened_unsealed _ source, c.opened_last _ source, ?_⟩
    simpa [Compiler.opened, Token.Cursor.ofTokens] using noType
  have line : 0 < t.line := Token.scanAll_line scanned t (by simp)
  -- the line is noted
  obtain ⟨noted, hnoted⟩ : ∃ c₁, c₁ = (opened.atLine t.line).emitted 0
      [⟨.atLine, .int (Int64.ofNat t.line)⟩] := ⟨_, rfl⟩
  have notes : atLine opened = (.ok (), noted) := by
    have noting := atLine_of ahead ready.unsealed
    have last : opened.draft.lastLine = 0 := by rw [hopened]; rfl
    rw [last, lineAfter, lineCode, if_pos ⟨line, by omega⟩, if_pos ⟨line, by omega⟩] at noting
    rw [noting, hnoted, Compiler.emitted_eq_wrote]
  -- the statement is read to the end
  let package := packageTo ((c.files.texts.length + 1) * pathLimit)
  let depth := 2 * ((t :: ts).length + 2)
  have reading : Reading package depth noted (t :: ts) := by
    have there : Reading package depth opened (t :: ts) := ⟨ready, ahead, by omega⟩
    refine there.of_cursor (by rw [hnoted]; rfl) ?_
    rw [hnoted, Compiler.emitted_isSealed]
    exact ready.unsealed
  have cursor : noted.cursor = opened.cursor := by rw [hnoted]; rfl
  have finished : (noted.emitted (t :: ts).length []).cursor.atEnd = true := by
    have there : ((c.opened (t :: ts) source 0).emitted (t :: ts).length []).cursor.atEnd = true :=
      c.opened_atEnd (t :: ts) source []
    rw [← hopened] at there
    simpa only [Compiler.emitted, cursor] using there
  have here : noted.here = 1 := by
    rw [hnoted, hopened]
    rfl
  have read := reads reading (by rw [hnoted, hopened]; rfl) finished
  rw [here] at read
  obtain ⟨last, hlast⟩ : ∃ c₂, c₂ = noted.emitted (t :: ts).length (is 1) := ⟨_, rfl⟩
  rw [← hlast] at read
  have atEnd : last.cursor.atEnd = true := by rw [hlast]; exact finished
  have body : startedStatement (rulesTo package (depth + 1)) noted = (.ok (), last) :=
    (startedStatement_name reading.ahead name).trans read
  have ends : statementEnd last = (.ok (), last) :=
    statementEnd_of (.last atEnd) (Compiler.isNext_atEnd atEnd (by rw [hlast]; exact reading.ready.last) ";")
  have statement : (rulesTo package (depth + 2)).statement opened = (.ok (), last) :=
    statementWith_of ahead (by simp [Token.is, name]) notes reading.ahead body ends
  -- and there is nothing else
  have turned : sourceTurn (rulesTo package (depth + 2)) opened = (.ok true, last) :=
    sourceTurn_reads _ ahead (by simp [Token.is, name]) statement
  have stopped : sourceTurn (rulesTo package (depth + 2)) last = (.ok false, last) := by
    have : CompileM.atEnd last = (.ok true, last) := by rw [← atEnd]; rfl
    exact (bind_of_ok this).trans rfl
  have opens := openStatements_of (c := c) scanned
  have rules := @openedRules_eq c (t :: ts) source 0 package
  rw [← hopened] at opens rules
  have bound := ahead.bound
  obtain ⟨left, enough⟩ : ∃ left, opened.cursor.tokens.size - opened.cursor.pos + 2 = left + 1 + 1 :=
    ⟨_, rfl⟩
  have turns : repeatWhile (sourceTurn (rulesTo package (depth + 2))) opened = (.ok (), last) := by
    rw [repeatWhile_eq, enough, while_again turned, while_done stopped]
  have statements : statementsWith package source c = (.ok (), last) :=
    (bind_of_ok opens).trans ((bind_of_ok rules).trans turns)
  have files : importDepth c = (.ok ((c.files.texts.length + 1) * pathLimit), c) := rfl
  refine ⟨last.unit, { last with draft := { last.draft with code := { name := last.moduleName } } },
    (bind_of_ok files).trans ((bind_of_ok statements).trans (finish_eq last)), ?_, ?_⟩
  · rw [hlast]
    exact (Compiler.emitted_isSealed _ _ _).trans reading.ready.unsealed
  · rw [hlast, hnoted, hopened]
    change (Code.pushAll (Code.pushAll { name := c.moduleName } [_]) (is 1)).instructions = _
    simp

/-- A source of one statement is compiled, and runs as its code computes. -/
theorem compile_single (scanned : Token.scanAll source = .ok (t :: ts)) (name : t.tag = .identifier)
    (noType : ¬Token.OpensPointers (t :: ts))
    (reads : ReadsAll simpleStatement c.normalize (t :: ts) is) (movable : Movable is)
    {m : Setting → StoreM Unit}
    (within : ∀ σ, StoreM.Within (fun s s' => s'.codes = s.codes) (m σ))
    (computes : ∀ (c' : Context) (w : World) (code : Code), c'.base = 0 → Placed code 1 (is 1) →
      Computes c' w code 1 (1 + (is 1).length) #[] (m (c'.setting c.spelling)) fun _ => #[]) :
    ∃ (code : Code) (c' : Compiler), compile source c = (.ok code, c') ∧
      ∀ (level : Strictness) (table : TableRef) (w : World) (s₀ : Store),
        let (r, s) := s₀.newCode code
        (Context.new s level r table).RunsAs w s (m ⟨level, table, c.spelling⟩) fun _ => #[] := by
  obtain ⟨code, c', compiled, unsealed, instructions⟩ := compile_single_of scanned name noType reads
  refine ⟨code.close, c', compiled, fun level table w s₀ => ?_⟩
  refine movable.unit_runs unsealed instructions (within _) (s₀.code_newCode code.close)
    fun c' strictness scope base body => ?_
  have run := computes c' w code.close base body
  rwa [Context.setting, strictness, scope] at run

end StackScript
