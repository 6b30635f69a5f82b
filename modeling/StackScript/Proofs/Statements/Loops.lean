import StackScript.Proofs.Compiling.Emission
import StackScript.Proofs.Statements.Blocks
import StackScript.Proofs.Statements.Running

/-!
# Reading loops

The statement after each pass stands before the body and is emitted behind it: it is compiled on the
side and moved. The branches of the body are noted with the loop and patched at its end.

Main statement: `Made.loop`.
-/
namespace StackScript

open CompileM

variable {package : String → String → Option String → CompileM CodeRef} {depth : Nat}
variable {c c' : Compiler} {t : Token} {ts us : List Token} {rules : Nested}

/-! ## The head of a loop -/

theorem loopCondition_eq (clauses : Bool) (c : Compiler) :
    loopCondition rules clauses c =
      if c.cursor.isNext "\x7b" || (clauses && c.cursor.isNext ";") then (.ok none, c)
      else (do
        condition rules
        pure (some (← emitFixup .branchFalse)) : CompileM (Option Nat)) c := by
  have next (text : String) : isNext text c = (.ok (c.cursor.isNext text), c) := rfl
  refine (bind_of_ok (next "\x7b")).trans ?_
  cases c.cursor.isNext "\x7b" with
  | true => rfl
  | false =>
    refine (bind_of_ok (next ";")).trans ?_
    rw [Bool.false_or]
    cases clauses && c.cursor.isNext ";" <;> rfl

/-- The condition of a loop is read up to the semicolon, or to the brace, behind it. -/
theorem loopCondition_of {test : Option Expr} {te : List Token} (clauses : Bool)
    (tests : Perhaps Expr.Laid test te) (reading : Reading package depth c (te ++ t :: us))
    (word : t.word = mark (if clauses then ";" else "\x7b")) (types : c.structTypes = []) :
    loopCondition (rulesTo package (depth + 1)) clauses c =
      (.ok (test.map fun e => c.here + (e.code c.spelling c.here).length),
        c.emitted te.length (testCode c.spelling c.here 0 test)) := by
  have is := Token.is_of_word word
  rw [loopCondition_eq]
  cases test with
  | none =>
    obtain rfl : te = [] := tests
    have next (text : String) : c.cursor.isNext text = t.is text := reading.ahead.isNext text
    rw [if_pos ?_]
    · rfl
    · rw [next, next]
      cases clauses with
      | true => simp [show t.is ";" = true from is]
      | false => simp [show t.is "\x7b" = true from is]
  | some e =>
    have laid : e.Laid te := tests
    obtain ⟨first, rest, rfl, other⟩ := laid.first
    have next (text : String) (ne : text ∉ Written.starts) : c.cursor.isNext text = false := by
      rw [reading.ahead.isNext]
      exact other text ne
    have behind := reading.right []
    have stops : (c.emitted (first :: rest).length []).Stops .choice := by
      cases clauses with
      | true => exact .of_is behind.ahead is (by decide)
      | false => exact .of_brace behind.ahead word types
    have tested := condition_of laid reading.left stops
    have fixup := emitFixup_emitted (c := c) reading.ready.unsealed (first :: rest).length
      (e.code c.spelling c.here) .branchFalse
    rw [next _ (by decide), next _ (by decide), Bool.and_false, Bool.or_false, if_neg (by decide)]
    exact (bind_of_ok tested).trans (bind_of_ok fixup)

/-! ## The statement after each pass -/

theorem Assignment.code_moved (spell : String → String) (a : Assignment) (start : Nat) :
    (a.code spell 0).map (·.retarget (· + start)) = a.code spell start := by
  have moved := ((a.value.movable spell).append (storeCode_movable a.isNew (spell a.name))).shifted 0 start
  rwa [Nat.zero_add] at moved

/-- The statement after each pass is read up to the brace of the body. -/
theorem postClause_of {post : Option Assignment} {semicolon : Token} {tp : List Token}
    {names : List String} {inLoop : Bool} {level : Nat} (posts : Perhaps Assignment.Laid post tp)
    (old : ∀ a ∈ post, a.isNew = false) (reading : Reading package depth c (semicolon :: (tp ++ t :: us)))
    (ends : semicolon.word = mark ";") (brace : t.word = mark "\x7b")
    (inside : c.Inside names inLoop level) :
    postClause (simpleStatement (rulesTo package (depth + 1))) true c =
      (.ok (post.map fun a => aside (a.code c.spelling 0)), c.emitted (1 + tp.length) []) := by
  have behind := reading.tail []
  have next (text : String) : isNext text (c.emitted 1 []) =
      (.ok ((c.emitted 1 []).cursor.isNext text), c.emitted 1 []) := rfl
  refine (bind_of_ok (expect_of reading.ahead (Token.is_of_word ends))).trans ?_
  refine (bind_of_ok (next "\x7b")).trans ?_
  cases post with
  | none =>
    obtain rfl : tp = [] := posts
    rw [behind.ahead.isNext, Token.is_of_word brace]
    rfl
  | some a =>
    have laid : a.Laid tp := posts
    have other : (c.emitted 1 []).cursor.isNext "\x7b" = false := by
      cases laid with
      | intro name =>
        rw [behind.ahead.isNext]
        simp [Token.is, name]
    have reading' : Reading package depth (setCode { name := "scratch" } (c.emitted 1 [])) tp :=
      behind.left.of_cursor rfl rfl
    have inside' : (setCode { name := "scratch" } (c.emitted 1 [])).Inside names inLoop level :=
      ⟨inside.types, inside.scope, inside.loop⟩
    have proper : a.Proper (setCode { name := "scratch" } (c.emitted 1 [])).spelling names := by
      intro new
      rw [old a rfl] at new
      cases new
    have assigned := headStatement_of laid reading' inside' proper
      (.of_brace (behind.right []).ahead brace inside.types)
    have unnamed : a.names c.spelling = [] := by rw [Assignment.names, old a rfl]; rfl
    have read : inHead (simpleStatement (rulesTo package (depth + 1)))
        (setCode { name := "scratch" } (c.emitted 1 [])) =
        (.ok (), (setCode { name := "scratch" } (c.emitted 1 [])).emitted tp.length
          (a.code c.spelling 0)) := by
      refine assigned.trans ?_
      change (Except.ok (), ((setCode _ _).declaring (a.names c.spelling)).emitted _ _) = _
      rw [unnamed, Compiler.declaring_nothing]
      rfl
    rw [other, if_neg Bool.false_ne_true]
    refine (bind_of_ok (capture_of read)).trans ?_
    rw [Compiler.emitted_emitted]
    rfl

/-! ## Loops -/

/-- The steps that add code, if there is any. -/
def appendIfAny : Option Code → CompileM Unit
  | some code => CompileM.append code
  | none => pure ()

theorem appendIfAny_of (spell : String → String) (post : Option Assignment)
    (unsealed : c.draft.code.isSealed = false) :
    appendIfAny (post.map fun a => aside (a.code spell 0)) c =
      (.ok (), c.emitted 0 (codeIfAny spell c.here post)) := by
  cases post with
  | none => rfl
  | some a =>
    refine (append_holds (aside_holds _) unsealed).trans ?_
    rw [a.code_moved]
    rfl

/-- What follows the addition of code, if there is any. -/
theorem appendIfAny_then {α : Type} {code : Option Code} {rest : CompileM α}
    (h : appendIfAny code c = (.ok (), c')) :
    (do
      match code with
      | some code => CompileM.append code
      | none => pure ()
      rest) c = rest c' := by
  cases code with
  | none =>
    cases h
    rfl
  | some code => exact bind_of_ok h

/-- The branch behind the condition, if there is one, gets its target. -/
theorem patchExit_of {spell : String → String} {test : Option Expr} {exit n : Nat}
    {is : List Instruction}
    (within : exit ≤ c.here + (testCode spell c.here 0 test).length + is.length) :
    patchAll (test.map fun e => c.here + (e.code spell c.here).length).toList exit
        (c.emitted n (testCode spell c.here 0 test ++ is)) =
      (.ok (), c.emitted n (testCode spell c.here exit test ++ is)) := by
  cases test with
  | none => rfl
  | some e =>
    simp only [testCode, List.length_append, List.length_singleton, ← Nat.add_assoc] at within
    have patched : patch (c.here + (e.code spell c.here).length) exit
        (c.emitted n (e.code spell c.here ++ branchOn false 0 :: is)) =
        (.ok (), c.emitted n (e.code spell c.here ++ branchOn false exit :: is)) :=
      patch_emitted n rfl within
    simp only [testCode, List.append_assoc, List.singleton_append]
    exact (bind_of_ok patched).trans rfl

/-- The branches in the body of a loop are noted with the loop. -/
theorem Compiler.looping_hasMade (c : Compiler) (m n : Nat) (is : List Instruction) {body : Stmt}
    (unnamed : body.names c.spelling = []) :
    (c.emitted m is).looping.hasMade n body 0 =
      ((c.atLine (body.lastLine c.draft.lastLine)).inLoops
        (OpenLoop.noted { kind := .loop, scopeDepth := c.draft.scopeDepth, tryDepth := c.draft.tryDepth }
          (c.here + is.length) (body.slots c.spelling (c.here + is.length) c.draft.lastLine 0) ::
          c.draft.loops)).emitted (m + n)
        (is ++ blanks (body.slots c.spelling (c.here + is.length) c.draft.lastLine 0)) := by
  have here : (c.emitted m is).looping.here = c.here + is.length := c.emitted_here m is
  rw [hasMade, here]
  change (((c.emitted m is).looping.declaring (body.names c.spelling)).atLine _).wrote _ _ = _
  rw [unnamed, declaring_nothing, wrote, ← emitted_emitted]
  change (Compiler.inLoops _ (noteLeaves (c.emitted m is).here _ _)).emitted _ _ = _
  rw [emitted_here]
  rfl

/-- The steps of a loop from its condition on. -/
def loopFrom (rules : Nested) (simple : CompileM Unit) (clauses : Bool) : CompileM Unit := do
  let top ← CompileM.mark
  let exit ← loopCondition rules clauses
  let post ← postClause simple clauses
  openLoop .loop
  block rules
  let next ← CompileM.mark
  match post with
  | some code => CompileM.append code
  | none => pure ()
  emit .branch (.address top)
  patchAll exit.toList (← CompileM.mark)
  closeLoop (some next)

/-- A loop from its condition on is the code of its passes. -/
theorem loopFrom_of {test : Option Expr} {post : Option Assignment} {body : Stmt} {clauses : Bool}
    {names : List String} {inLoop : Bool} {level k : Nat} {ts tb : List Token}
    (reading : Reading package depth c (ts ++ tb)) (inside : c.Inside names inLoop level)
    (proper : body.Proper c.spelling names true) (made : Made 1 block (fun _ => True) body tb)
    (unnamed : body.names c.spelling = [])
    (conditions : loopCondition (rulesTo package (depth + 1)) clauses c =
      (.ok (test.map fun e => c.here + (e.code c.spelling c.here).length),
        c.emitted k (testCode c.spelling c.here 0 test)))
    (posts : postClause (simpleStatement (rulesTo package (depth + 1))) clauses
        (c.emitted k (testCode c.spelling c.here 0 test)) =
      (.ok (post.map fun a => aside (a.code c.spelling 0)),
        c.emitted ts.length (testCode c.spelling c.here 0 test))) :
    loopFrom (rulesTo package (depth + 1)) (simpleStatement (rulesTo package (depth + 1))) clauses c =
      (.ok (), c.hasMade (ts ++ tb).length (.cycle test post body) level) := by
  have unsealed := reading.ready.unsealed
  obtain ⟨tests, htests⟩ : ∃ is, is = testCode c.spelling c.here 0 test := ⟨_, rfl⟩
  rw [← htests] at conditions posts
  -- the body is read in the loop
  obtain ⟨start, hstart⟩ : ∃ c', c' = (c.emitted ts.length tests).looping := ⟨_, rfl⟩
  have reading' : Reading package depth start tb := by
    subst hstart
    exact (reading.right []).of_cursor rfl ((c.emitted_isSealed ts.length tests).trans unsealed)
  have inside' : start.Inside names true 0 := hstart ▸ (inside.emitted _ _).looping
  have proper' : body.Proper start.spelling names true := by
    rw [hstart]
    exact proper
  have read := made reading' inside' proper' trivial
  -- its branches are noted with the loop
  obtain ⟨passed, hpassed⟩ : ∃ slots, slots =
    body.slots c.spelling (c.here + tests.length) c.draft.lastLine 0 := ⟨_, rfl⟩
  obtain ⟨next, hnext⟩ : ∃ a, a = c.here + tests.length + passed.length := ⟨_, rfl⟩
  obtain ⟨after, hafter⟩ : ∃ is, is = codeIfAny c.spelling next post := ⟨_, rfl⟩
  obtain ⟨exit, hexit⟩ : ∃ a, a = next + after.length + 1 := ⟨_, rfl⟩
  let fresh : OpenLoop :=
    { kind := .loop, scopeDepth := c.draft.scopeDepth, tryDepth := c.draft.tryDepth }
  obtain ⟨inner, hinner⟩ : ∃ c', c' = (c.atLine (body.lastLine c.draft.lastLine)).inLoops
    (fresh.noted (c.here + tests.length) passed :: c.draft.loops) := ⟨_, rfl⟩
  have here : inner.here = c.here := by rw [hinner]; rfl
  have unsealed' : inner.draft.code.isSealed = false := by rw [hinner]; exact unsealed
  have noted : start.hasMade tb.length body 0 =
      inner.emitted (ts ++ tb).length (tests ++ blanks passed) := by
    rw [hstart, c.looping_hasMade _ _ _ unnamed, ← hpassed, hinner, List.length_append]
  rw [noted] at read
  have nextHere : (inner.emitted (ts ++ tb).length (tests ++ blanks passed)).here = next := by
    rw [Compiler.emitted_here, here, hnext]
    simp [blanks, Nat.add_assoc]
  -- the statement after each pass and the branch back stand behind it
  have appended := appendIfAny_of (c := inner.emitted (ts ++ tb).length (tests ++ blanks passed))
    c.spelling post ((inner.emitted_isSealed _ _).trans unsealed')
  rw [nextHere, Compiler.emitted_emitted, Nat.add_zero, ← hafter] at appended
  let behind : List Instruction := after ++ [⟨.branch, .address c.here⟩]
  have jumps := emit_emitted (c := inner) unsealed' (ts ++ tb).length
    (tests ++ blanks passed ++ after) .branch (.address c.here)
  have joined : tests ++ blanks passed ++ after ++ [⟨.branch, .address c.here⟩] =
      tests ++ (blanks passed ++ behind) := by simp [behind]
  rw [joined] at jumps
  have sizes : (blanks passed).length = passed.length ∧ behind.length = after.length + 1 := by
    simp [blanks, behind]
  have marked : CompileM.mark (inner.emitted (ts ++ tb).length (tests ++ (blanks passed ++ behind))) =
      (.ok exit, inner.emitted (ts ++ tb).length (tests ++ (blanks passed ++ behind))) := by
    have : (inner.emitted (ts ++ tb).length (tests ++ (blanks passed ++ behind))).here = exit := by
      rw [Compiler.emitted_here, here, List.length_append, List.length_append, sizes.1, sizes.2]
      omega
    rw [← this]
    rfl
  -- the branches get their targets
  have length : (testCode c.spelling c.here exit test).length = tests.length := by
    rw [htests, testCode_length]
  have patched : patchAll (test.map fun e => inner.here + (e.code c.spelling inner.here).length).toList
      exit (inner.emitted (ts ++ tb).length
        (testCode c.spelling inner.here 0 test ++ (blanks passed ++ behind))) =
      (.ok (), inner.emitted (ts ++ tb).length
        (testCode c.spelling inner.here exit test ++ (blanks passed ++ behind))) :=
    patchExit_of (by
      rw [here, ← htests, List.length_append, sizes.1, sizes.2]
      omega)
  rw [here, ← htests] at patched
  have base : (c.atLine (body.lastLine c.draft.lastLine)).here = c.here := rfl
  have closed : closeLoop (some next) (inner.emitted (ts ++ tb).length
        (testCode c.spelling c.here exit test ++ blanks passed ++ behind)) =
      (.ok (), ((c.atLine (body.lastLine c.draft.lastLine)).inLoops c.draft.loops).emitted
        (ts ++ tb).length (testCode c.spelling c.here exit test ++
          fill (bif · then exit else next) passed ++ behind)) := by
    rw [hinner]
    exact closeLoop_of ⟨rfl, rfl⟩ passed (by rw [length, base]) (by rw [length, base]; omega)
      (by rw [length, base, sizes.2]; omega)
  rw [List.append_assoc] at closed
  have marked₀ : CompileM.mark c = (.ok c.here, c) := rfl
  have opened : openLoop .loop (c.emitted ts.length tests) = (.ok (), start) := by
    rw [hstart]
    rfl
  have marked₁ : CompileM.mark (inner.emitted (ts ++ tb).length (tests ++ blanks passed)) =
      (.ok next, inner.emitted (ts ++ tb).length (tests ++ blanks passed)) := by
    rw [← nextHere]
    rfl
  refine (bind_of_ok marked₀).trans ((bind_of_ok conditions).trans ((bind_of_ok posts).trans ?_))
  refine (bind_of_ok opened).trans ((bind_of_ok read).trans ((bind_of_ok marked₁).trans ?_))
  refine (appendIfAny_then appended).trans ((bind_of_ok jumps).trans ((bind_of_ok marked).trans ?_))
  refine (bind_of_ok patched).trans (closed.trans (congrArg (Prod.mk _) ?_))
  have slots : (Stmt.cycle test post body).slots c.spelling c.here c.draft.lastLine level =
      plain (testCode c.spelling c.here exit test ++ fill (bif · then exit else next) passed ++ behind) := by
    simp only [Stmt.slots, ← htests, ← hpassed, ← hnext, ← hafter, ← hexit, behind, List.append_assoc]
  change _ = ((c.declaring []).atLine _).wrote _ _
  rw [c.declaring_nothing, slots, ← Compiler.emitted_eq_wrote]
  rfl

theorem countedLoop_plain {simple : CompileM Unit} (search : headContains ";" c = (.ok false, c)) :
    countedLoop rules simple c = loopFrom rules simple false c := by
  exact (bind_of_ok search).trans rfl

theorem countedLoop_clauses {simple : CompileM Unit} (search : headContains ";" c = (.ok true, c))
    (started : (do
      if !(← isNext ";") then inHead simple
      expect ";" : CompileM Unit) c = (.ok (), c')) :
    countedLoop rules simple c = loopFrom rules simple true c' := by
  have next : isNext ";" c = (.ok (c.cursor.isNext ";"), c) := rfl
  replace started := (bind_of_ok next).symm.trans started
  refine (bind_of_ok search).trans ?_
  rw [if_pos rfl]
  refine (bind_of_ok next).trans ?_
  cases found : c.cursor.isNext ";" with
  | true =>
    rw [found] at started
    exact bind_of_ok started
  | false =>
    have both : (do inHead simple; expect ";") c = (.ok (), c') := by
      rw [found] at started
      exact started
    refine Eq.trans ?_ (bind_of_ok (f := fun _ => loopFrom rules simple true) both)
    rw [bind_assoc]
    rfl

theorem forStatement_of {simple : CompileM Unit} {c₁ c₂ : Compiler}
    (ahead : c.Ahead (t :: ts)) (unsealed : c.draft.code.isSealed = false)
    (search : headContains "range" (c.withScope 1 none) = (.ok false, c.withScope 1 none))
    (counted : countedLoop rules simple (c.withScope 1 none) = (.ok (), c₁))
    (popped : popScope c₁ = (.ok (), c₂)) : forStatement rules simple c = (.ok (), c₂) := by
  refine (bind_of_ok (skip_of ahead)).trans ((bind_of_ok (pushScope_withScope unsealed 1)).trans ?_)
  refine (bind_of_ok search).trans ?_
  rw [if_neg Bool.false_ne_true]
  exact (bind_of_ok counted).trans popped

/-- A search in a head goes on over what may be missing. -/
theorem Perhaps.passed {α : Type} {spells : α → List Token → Prop} {o : Option α} {text : String}
    (h : Perhaps spells o ts) (passed : ∀ a, spells a ts → Passed text ts) : Passed text ts := by
  cases o with
  | none =>
    obtain rfl : ts = [] := h
    exact .nil
  | some a => exact passed a h

/-- A loop with at most a condition. -/
theorem Made.conditionLoop {test : Option Expr} {body : Stmt} {te tb : List Token}
    (tests : Perhaps Expr.Laid test te) (h : MadeBlock body tb) :
    Made 1 (fun rules => forStatement rules (simpleStatement rules)) (fun _ => True)
      (.loop none test none body) (t :: (te ++ tb)) := by
  intro package depth c names inLoop level reading inside proper _
  have unsealed := reading.ready.unsealed
  obtain ⟨brace, rest, rfl, word⟩ := h.opens
  have begun : Reading package depth (c.withScope 1 none) (te ++ brace :: rest) :=
    (reading.tail []).of_cursor rfl ((Compiler.wrote_isSealed ..).trans unsealed)
  have inside' := inside.withScope 1 none
  have search {text : String} (mem : text ∈ headSearches) :
      headContains text (c.withScope 1 none) = (.ok false, c.withScope 1 none) :=
    headContains_of begun.ahead (tests.passed fun _ laid => laid.passed mem)
      (by rw [(Prod.mk.inj word).1]; decide) (Token.is_of_word word) nofun
  have conditions := loopCondition_of false tests begun word inside.types
  have made : loopFrom (rulesTo package (depth + 1)) (simpleStatement (rulesTo package (depth + 1)))
      false (c.withScope 1 none) = (.ok (), (c.withScope 1 none).hasMade (te ++ brace :: rest).length
        (.cycle test none body) (level + 1)) :=
    loopFrom_of begun inside' proper.2 h.made (h.unnamed _) conditions rfl
  have popped := popScope_withScope inside unsealed none (.cycle test none body) 1
    (te ++ brace :: rest).length 0
  rw [Compiler.emitted_nothing] at popped
  have total : (t :: (te ++ brace :: rest)).length = 1 + (te ++ brace :: rest).length :=
    Nat.add_comm _ _
  rw [total]
  exact forStatement_of reading.ahead unsealed (search (by decide))
    ((countedLoop_plain (search (by decide))).trans made) popped

/-- The first clause of a loop is read in the scope of the loop. -/
theorem firstClause_of {start : Option Assignment} {semicolon : Token} {ts us : List Token} {n : Nat}
    {names : List String} {inLoop : Bool} {level : Nat} (starts : Perhaps Assignment.Laid start ts)
    (reading : Reading package depth (c.withScope n none) (ts ++ semicolon :: us))
    (ends : semicolon.word = mark ";") (inside : c.Inside names inLoop level)
    (proper : ∀ a ∈ start, a.Proper c.spelling []) :
    (do
      if !(← isNext ";") then inHead (simpleStatement (rulesTo package (depth + 1)))
      expect ";" : CompileM Unit) (c.withScope n none) =
      (.ok (), c.withScope (n + ts.length + 1) start) := by
  have is := Token.is_of_word ends
  have next : isNext ";" (c.withScope n none) =
      (.ok ((c.withScope n none).cursor.isNext ";"), c.withScope n none) := rfl
  refine (bind_of_ok next).trans ?_
  cases start with
  | none =>
    obtain rfl : ts = [] := starts
    rw [reading.ahead.isNext, is]
    refine (expect_of reading.ahead is).trans ?_
    rw [Compiler.withScope_emitted]
    rfl
  | some a =>
    have laid : a.Laid ts := starts
    have other : (c.withScope n none).cursor.isNext ";" = false := by
      cases laid with
      | intro name =>
        rw [reading.ahead.isNext]
        simp [Token.is, name]
    have behind := reading.right []
    have assigned := headStatement_of laid reading.left (inside.withScope n none) (proper a rfl)
      (.of_is behind.ahead is (by decide))
    rw [Compiler.withScope_hasAssigned] at assigned
    have ahead : (c.withScope (n + ts.length) (some a)).Ahead (semicolon :: us) := by
      have ahead := behind.ahead
      rw [Compiler.withScope_emitted] at ahead
      exact ahead
    rw [other]
    refine (bind_of_ok assigned).trans ((expect_of ahead is).trans ?_)
    rw [Compiler.withScope_emitted]

/-- A loop with three clauses, any of which may be missing. -/
theorem Made.clauseLoop {start post : Option Assignment} {test : Option Expr} {body : Stmt}
    {first second : Token} {ts te tp tb : List Token} (starts : Perhaps Assignment.Laid start ts)
    (one : first.word = mark ";") (tests : Perhaps Expr.Laid test te)
    (two : second.word = mark ";") (posts : Perhaps Assignment.Laid post tp)
    (old : ∀ a ∈ post, a.isNew = false) (h : MadeBlock body tb) :
    Made 1 (fun rules => forStatement rules (simpleStatement rules)) (fun _ => True)
      (.loop start test post body) (t :: (ts ++ first :: (te ++ second :: (tp ++ tb)))) := by
  intro package depth c names inLoop level reading inside proper _
  have unsealed := reading.ready.unsealed
  obtain ⟨brace, rest, rfl, word⟩ := h.opens
  have begun : Reading package depth (c.withScope 1 none)
      (ts ++ first :: (te ++ second :: (tp ++ brace :: rest))) :=
    (reading.tail []).of_cursor rfl ((Compiler.wrote_isSealed ..).trans unsealed)
  have tag (t : Token) (text : String) (word : t.word = mark text) : t.tag ≠ .endOfInput := by
    rw [(Prod.mk.inj word).1]
    decide
  -- what the head holds
  have ranges : headContains "range" (c.withScope 1 none) = (.ok false, c.withScope 1 none) := by
    have passed : Passed "range" (ts ++ first :: (te ++ second :: tp)) := by
      have starts' : Passed "range" ts := starts.passed fun _ laid => laid.passed (by decide)
      have tests' : Passed "range" te := tests.passed fun _ laid => laid.passed (by decide)
      have posts' : Passed "range" tp := posts.passed fun _ laid => laid.passed (by decide)
      exact starts'.append ((Passed.semicolon one).append
        (tests'.append ((Passed.semicolon two).append posts')))
    have shape : ts ++ first :: (te ++ second :: (tp ++ brace :: rest)) =
        ts ++ first :: (te ++ second :: tp) ++ brace :: rest := by simp
    exact headContains_of (shape ▸ begun.ahead) passed (tag _ _ word) (Token.is_of_word word) nofun
  have clauses : headContains ";" (c.withScope 1 none) = (.ok true, c.withScope 1 none) :=
    headContains_of begun.ahead (starts.passed fun _ laid => laid.passed (by decide)) (tag _ _ one)
      (Token.is_of_word one) fun _ => by decide
  have started := firstClause_of starts begun one inside proper.1
  -- the clauses behind the first one
  obtain ⟨head, hhead⟩ : ∃ c', c' = c.withScope (1 + ts.length + 1) start := ⟨_, rfl⟩
  have inside' : head.Inside (namesIfAny c.spelling start) inLoop (level + 1) :=
    hhead ▸ inside.withScope _ _
  have reading' : Reading package depth head (te ++ second :: (tp ++ brace :: rest)) := by
    have tail := (begun.right []).tail []
    rw [Compiler.withScope_emitted, Compiler.withScope_emitted] at tail
    subst hhead
    exact tail.of_cursor rfl ((Compiler.wrote_isSealed ..).trans unsealed)
  have conditions := loopCondition_of true tests reading' two inside'.types
  have lasts := postClause_of posts old
    (reading'.right (testCode head.spelling head.here 0 test)) two word (inside'.emitted _ _)
  rw [Compiler.emitted_emitted, List.append_nil] at lasts
  have shape : te ++ second :: (tp ++ brace :: rest) = te ++ second :: tp ++ brace :: rest := by simp
  have length : te.length + (1 + tp.length) = (te ++ second :: tp).length := by
    rw [List.length_append, List.length_cons, Nat.add_comm 1]
  rw [length] at lasts
  have proper' : body.Proper head.spelling (namesIfAny c.spelling start) true := by
    rw [hhead]
    exact proper.2
  have made := loopFrom_of (shape ▸ reading') inside' proper' h.made (h.unnamed _) conditions lasts
  rw [← hhead] at started
  have popped := popScope_withScope inside unsealed start (.cycle test post body)
    (1 + ts.length + 1) (te ++ second :: tp ++ brace :: rest).length 0
  rw [Compiler.emitted_nothing, ← hhead] at popped
  have total : (t :: (ts ++ first :: (te ++ second :: (tp ++ brace :: rest)))).length =
      1 + ts.length + 1 + (te ++ second :: tp ++ brace :: rest).length := by
    simp only [List.length_cons, List.length_append]
    omega
  rw [total]
  exact forStatement_of reading.ahead unsealed ranges
    ((countedLoop_clauses clauses started).trans made) popped

theorem Made.loop {start post : Option Assignment} {test : Option Expr} {body : Stmt}
    {ts tb : List Token} (head : LoopHead start test post ts) (h : MadeBlock body tb) :
    Made 1 (fun rules => forStatement rules (simpleStatement rules)) (fun _ => True)
      (.loop start test post body) (t :: ts ++ tb) := by
  cases head with
  | condition tests => exact Made.conditionLoop tests h
  | clauses starts one tests two posts old =>
    have made := Made.clauseLoop (t := t) starts one tests two posts old h
    simpa using made

end StackScript
