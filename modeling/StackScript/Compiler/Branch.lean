import StackScript.Compiler.Expression

/-!
# Branches

`if`, `switch` and `try`. The tests and the bodies of a `switch` are laid out as they are read:
a test that fails goes on to the tests of the next clause, and a body ends by leaving the
`switch` unless it falls through to the next one.
-/
namespace StackScript.CompileM

/-- Whether a statement's head holds a word outside all brackets, before its body opens. -/
def headContainsFrom (c : Token.Cursor) (text : String) : (bound n depth : Nat) → Bool
  | 0, _, _ => false
  | bound + 1, n, depth =>
    let t := c.peek n
    if t.isEnd then false
    else if depth == 0 && t.is "\x7b" then false
    else if depth == 0 && t.is text then true
    else if t.is "(" || t.is "[" then headContainsFrom c text bound (n + 1) (depth + 1)
    else if t.is ")" || t.is "]" then headContainsFrom c text bound (n + 1) (depth - 1)
    else headContainsFrom c text bound (n + 1) depth

/-- Whether the head that starts here holds a word. -/
def headContains (text : String) : CompileM Bool := do
  pure (headContainsFrom (← get).cursor text (← turnBound) 1 0)

/-- Statements between braces, in a scope of their own. -/
def block (rules : Nested) : CompileM Unit := do
  expect "\x7b"
  pushScope
  statementsUntilClose rules
  popScope

/-! ## Conditions -/

/-- What follows the body of an `if`; `otherwise` is the branch of a failed condition. -/
def elseClause (rules : Nested) (otherwise : Nat) : CompileM Unit := do
  if ← accept "else" then
    let finish ← emitFixup .branch
    patchHere otherwise
    if ← isNext "if" then rules.ifStatement else block rules
    patchHere finish
  else patchHere otherwise

/-- An `if` with an optional statement before its condition. -/
def ifWith (rules : Nested) (simple : CompileM Unit) : CompileM Unit := do
  moveCursor Token.Cursor.skip
  let startsScope ← headContains ";"
  if startsScope then
    pushScope
    inHead simple
    expect ";"
  condition rules
  let otherwise ← emitFixup .branchFalse
  block rules
  elseClause rules otherwise
  if startsScope then popScope

/-! ## Loops and switches as targets of `break` -/

/-- Enter a loop or a switch. -/
def openLoop (kind : Breakable) : CompileM Unit :=
  modifyDraft fun d =>
    { d with loops := { kind := kind, scopeDepth := d.scopeDepth, tryDepth := d.tryDepth } :: d.loops }

/-- Leave a loop or a switch: `continue` leads to `next`, `break` to the next instruction. -/
def closeLoop (next : Option Nat) : CompileM Unit := do
  match (← get).draft.loops with
  | [] => pure ()
  | l :: outer =>
    modifyDraft fun d => { d with loops := outer }
    match next with
    | some next => patchAll l.continues next
    | none => pure ()
    patchAll l.breaks (← mark)

/-! ## Switches -/

/-- The branches of a `switch` that are not patched yet. -/
structure OpenSwitch where
  /-- Failed tests, and entries that pass over a default body. -/
  pending : List Nat := []
  /-- A body that falls into the next one. -/
  fallInto : Option Nat := none
  defaultBody : Option Nat := none
  /-- Bodies that leave the switch. -/
  ends : List Nat := []

/-- One test of a clause; without a subject the test is a condition. -/
def caseTest (rules : Nested) (subject : Option String) : CompileM Nat := do
  match subject with
  | some name =>
    emitName .load name
    rules.expression
    emitOp .equal
  | none => rules.expression
  emitFixup .branchTrue

/-- The tests of a clause with commas between them. -/
def caseTests (rules : Nested) (subject : Option String) : CompileM (List Nat) := do
  repeatTurns [] fun found => do
    let found := found ++ [← caseTest rules subject]
    if ← accept "," then pure (.again found) else pure (.done found)

/-- The statements of a clause; whether they end by falling through. -/
def clauseBody (rules : Nested) : CompileM Bool :=
  repeatTurns () fun _ => do
    if ← isAnyNext ["case", "default", "\x7d"] then pure (.done false)
    else
      if ← atEnd then fail (.missing "\x7d")
      if ← accept "fallthrough" then
        let _ ← accept ";"
        if !(← isAnyNext ["case", "default"]) then failAbout .invalidLoopControl "fallthrough"
        pure (.done true)
      else
        rules.statement
        pure (.again ())

/-- The head of a clause: its tests and the branch past its body. -/
def clauseHead (rules : Nested) (subject : Option String) (isDefault : Bool) (s : OpenSwitch) :
    CompileM (List Nat × OpenSwitch) := do
  if isDefault then
    let past ← emitFixup .branch
    pure ([], { s with pending := s.pending ++ [past] })
  else
    expect "case"
    patchAll s.pending (← mark)
    let found ← caseTests rules subject
    let past ← emitFixup .branch
    pure (found, { s with pending := [past] })

/-- A clause of a `switch`. -/
def clause (rules : Nested) (subject : Option String) (s : OpenSwitch) : CompileM OpenSwitch := do
  let isDefault ← accept "default"
  let (found, s) ← clauseHead rules subject isDefault s
  expect ":"
  let body ← mark
  patchAll found body
  patchAll s.fallInto.toList body
  pushScope
  let falls ← clauseBody rules
  popScope
  let leaving ← emitFixup .branch
  pure { s with
    defaultBody := if isDefault then some body else s.defaultBody
    fallInto := if falls then some leaving else none
    ends := if falls then s.ends else s.ends ++ [leaving] }

/-- Lead the branches that are left to where they belong. -/
def closeSwitch (s : OpenSwitch) : CompileM Unit := do
  patchAll s.pending (s.defaultBody.getD (← mark))
  patchAll s.ends (← mark)
  closeLoop none

/-- The subject of a `switch` under a made-up name. -/
def switchSubject (rules : Nested) : CompileM (Option String) := do
  if ← isNext "\x7b" then pure none
  else
    let name ← tempName "switch"
    condition rules
    createTemp name
    pure (some name)

/-- A `switch` with an optional subject. -/
def switchStatement (rules : Nested) : CompileM Unit := do
  moveCursor Token.Cursor.skip
  pushScope
  let subject ← switchSubject rules
  expect "\x7b"
  openLoop .switch
  let s ← repeatTurns ({} : OpenSwitch) fun s => do
    if ← accept "\x7d" then pure (.done s)
    else
      if ← atEnd then fail (.missing "\x7d")
      pure (.again (← clause rules subject s))
  closeSwitch s
  popScope

/-! ## Protected blocks -/

/-- Count the protected blocks that are open. -/
def modifyTryDepth (f : Nat → Nat) : CompileM Unit :=
  modifyDraft fun d => { d with tryDepth := f d.tryDepth }

/-- The name that a caught fault is bound to. -/
def caughtName : CompileM (Option String) := do
  if ← accept "(" then
    let name ← identifier
    expect ")"
    pure (some name)
  else if (← current).isIdentifier then pure (some (← identifier))
  else pure none

/-- The block that handles a fault; the protected block stays recorded while it runs. -/
def catchBlock (rules : Nested) : CompileM Unit := do
  let name ← caughtName
  expect "\x7b"
  pushScope
  match name with
  | some name =>
    emitName .load "_error"
    createAndStore name
  | none => pure ()
  statementsUntilClose rules
  popScope
  emitOp .tryPop

/-- A protected block with its handler. -/
def tryStatement (rules : Nested) : CompileM Unit := do
  moveCursor Token.Cursor.skip
  let handler ← emitFixup .tryBlock
  modifyTryDepth (· + 1)
  block rules
  emitOp .tryPop
  let finish ← emitFixup .branch
  if !(← accept "catch") then
    modifyTryDepth (· - 1)
    fail .missingCatch
  patchHere handler
  catchBlock rules
  modifyTryDepth (· - 1)
  patchHere finish

end StackScript.CompileM
