import StackScript.Compiler.Branch
import StackScript.Compiler.Target

/-!
# Loops

`for` with a condition, with three clauses, or over a `range`; and `break` and `continue`, which
first leave the scopes and the protected blocks that were opened since their target. Every loop
runs in a scope of its own that holds the loop variables.
-/
namespace StackScript

namespace OpenLoop

/-- Whether a loop or switch is what a word leaves. -/
def isLeftBy (isBreak : Bool) (l : OpenLoop) : Bool := isBreak || l.kind == .loop

/-- Note a branch with the innermost loop or switch that the word leaves. -/
def noteBranch (isBreak : Bool) (fixup : Nat) : List OpenLoop → List OpenLoop
  | [] => []
  | l :: outer =>
    if l.isLeftBy isBreak then
      (if isBreak then { l with breaks := l.breaks ++ [fixup] }
        else { l with continues := l.continues ++ [fixup] }) :: outer
    else l :: noteBranch isBreak fixup outer

end OpenLoop

namespace CompileM

/-- Emit several instructions on names. -/
def emitLoads : List String → CompileM Unit
  | [] => pure ()
  | name :: rest => do
    emitName .load name
    emitLoads rest

/-! ## Loops with a condition -/

/-- The statement after each pass of a loop with three clauses, which stands before the body. -/
def postClause (simple : CompileM Unit) (clauses : Bool) : CompileM (Option Code) := do
  if clauses then
    expect ";"
    if ← isNext "\x7b" then pure none else pure (some (← capture (inHead simple)))
  else pure none

/-- The condition of a loop, if it has one, with the branch that leaves the loop. -/
def loopCondition (rules : Nested) (clauses : Bool) : CompileM (Option Nat) := do
  let absent ← if ← isNext "\x7b" then pure true else pure (clauses && (← isNext ";"))
  if absent then pure none
  else
    condition rules
    pure (some (← emitFixup .branchFalse))

/-- A loop without a range. -/
def countedLoop (rules : Nested) (simple : CompileM Unit) : CompileM Unit := do
  let clauses ← headContains ";"
  if clauses then
    if !(← isNext ";") then inHead simple
    expect ";"
  let top ← mark
  let exit ← loopCondition rules clauses
  let post ← postClause simple clauses
  openLoop .loop
  block rules
  let next ← mark
  match post with
  | some code => append code
  | none => pure ()
  emit .branch (.address top)
  patchAll exit.toList (← mark)
  closeLoop (some next)

/-! ## Loops over a range -/

/-- The variables of a range and whether the loop declares them. -/
structure RangeHead where
  loopNames : List String := []
  define : Bool := false

/-- What stands before the word `range`. -/
def rangeHead : CompileM RangeHead := do
  if ← isNext "range" then pure {}
  else
    let key ← identifier
    let loopNames ← if ← accept "," then pure [key, ← identifier] else pure [key]
    if ← accept ":=" then pure ⟨loopNames, true⟩
    else
      expect "="
      pure ⟨loopNames, false⟩

/-- The made-up names of a range: the container, its keys, their number and the position. -/
structure RangeNames where
  container : String
  keys : String
  count : String
  position : String

/-- Make up the names of a range. -/
def rangeNames : CompileM RangeNames := do
  let container ← tempName "range"
  let keys ← tempName "keys"
  let count ← tempName "len"
  let position ← tempName "i"
  pure ⟨container, keys, count, position⟩

/-- Bind the made-up names before the first pass. -/
def bindRange (rules : Nested) (names : RangeNames) : CompileM Unit := do
  condition rules
  createTemp names.container
  emitLoads ["$rangekeys", names.container]
  emitCall 1 {}
  createTemp names.keys
  emitLoads ["len", names.keys]
  emitCall 1 {}
  createTemp names.count
  emitValue (.int 0)
  createTemp names.position

/-- Declare the variables of a range in the scope of the loop. -/
def declareVariables : List String → CompileM Unit
  | [] => pure ()
  | name :: rest => do
    if name ≠ "_" then
      let _ ← declare name
      emitValue .nil
      createTemp name
    declareVariables rest

/-- Store what is on the stack under a variable of a range, unless the variable is not wanted. -/
def storeVariable (name : Option String) (value : CompileM Unit) : CompileM Unit := do
  match name with
  | some name =>
    if name ≠ "_" then
      value
      emitName .store name
  | none => pure ()

/-- Give the variables their values for the next pass. -/
def updateVariables (names : RangeNames) (loopNames : List String) : CompileM Unit := do
  let key : CompileM Unit := do
    emitLoads [names.keys, names.position]
    emitOp .loadIndex
  storeVariable loopNames[0]? key
  storeVariable loopNames[1]? do
    emitName .load names.container
    key
    emitOp .loadIndex

/-- A loop over the keys of a container, found once before the first pass; each value is read by
its key. -/
def rangeLoop (rules : Nested) : CompileM Unit := do
  let head ← rangeHead
  expect "range"
  let names ← rangeNames
  bindRange rules names
  if head.define then declareVariables head.loopNames
  let top ← mark
  emitLoads [names.position, names.count]
  emitOp .lessThan
  let exit ← emitFixup .branchFalse
  updateVariables names head.loopNames
  openLoop .loop
  block rules
  let next ← mark
  emitName .load names.position
  emitValue (.int 1)
  emitOp .add
  emitName .store names.position
  emit .branch (.address top)
  patchHere exit
  closeLoop (some next)

/-- A loop. -/
def forStatement (rules : Nested) (simple : CompileM Unit) : CompileM Unit := do
  moveCursor Token.Cursor.skip
  pushScope
  if ← headContains "range" then rangeLoop rules else countedLoop rules simple
  popScope

/-! ## Leaving a loop -/

/-- `break` or `continue`. -/
def loopControl : CompileM Unit := do
  let isBreak := (← next).is "break"
  let d := (← get).draft
  match d.loops.find? (OpenLoop.isLeftBy isBreak) with
  | none =>
    back 1
    fail .invalidLoopControl
  | some l =>
    if l.scopeDepth < d.scopeDepth then emitInt .popScope (d.scopeDepth - l.scopeDepth)
    (List.range (d.tryDepth - l.tryDepth)).forM fun _ => emitOp .tryPop
    let fixup ← emitFixup .branch
    modifyDraft fun d => { d with loops := OpenLoop.noteBranch isBreak fixup d.loops }

end CompileM

end StackScript
