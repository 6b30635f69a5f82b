import StackScript.Machine.Context

/-!
# Instructions on control

Branches, panics, source lines, and protected blocks.

Main statements: `catch_none` (a fault without a protected block is not caught).
-/
namespace StackScript.Exec

/-- The address in the current unit that an operand holds. -/
def addressOf (operand : Operand) : Exec Nat := do
  let code ← ofContext Context.code
  let size ← ofStore fun s => (s.code code).size
  match operand.asAddress? with
  | some a => if a ≤ size then pure a else wrongOperand .invalidAddress operand
  | none => wrongOperand .invalidAddress operand

/-- Go on at an address. -/
def jump (target : Nat) : Exec Unit := modifyContext fun c => { c with pc := target }

/-- Go on at an address. -/
def branch (operand : Operand) : Exec Unit := do jump (← addressOf operand)

/-- Go on at an address if the top of the stack is true, or is not. -/
def branchIf (taken : Bool) (operand : Operand) : Exec Unit := do
  let target ← addressOf operand
  if (← popValue).isTruthy == taken then jump target

/-- Raise the top of the stack; an error is raised as it is. -/
def panic : Exec Unit := do
  match ← popValue with
  | .error f => throw f
  | v => throw (.about .panic (← ofStore v.display))

/-- Note the source line, where the debugger may stop. -/
def atLine (operand : Operand) : Exec Unit := do
  let line := countOf operand 0
  modifyContext fun c => { c with line := line }
  if (← ofContext Context.debugger).stopsAt line then
    throw (.about .debuggerSignal (Decimal.ofNat line))

/-- Enter a protected block. -/
def enterTry (operand : Operand) : Exec Unit := do
  let handler ← addressOf operand
  modifyContext fun c =>
    let record : TryRecord :=
      { handler := some handler, height := c.stack.size, fp := c.fp, depth := c.depth
        code := c.code, scope := c.scope, receivers := c.receivers.size
        moduleName := c.moduleName, line := c.line }
    { c with tries := record :: c.tries }

/-- Leave a protected block. -/
def leaveTry : Exec Unit := do
  match ← ofContext Context.tries with
  | [] => throw (.of .invalidTryState)
  | _ :: rest => modifyContext fun c => { c with tries := rest }

end StackScript.Exec

namespace StackScript.Context

/-- The name that a caught fault is bound to. -/
def caughtName : String := "_error"

/-- Go on at the handler of the innermost protected block that was not used yet. -/
def catch? (c : Context) (f : Fault) (s : Store) : Option (Context × Store) :=
  match c.tries.dropWhile (·.handler.isNone) with
  | [] => none
  | record :: rest =>
    match record.handler with
    | none => none
    | some handler =>
      let c :=
        { c with
          tries := { record with handler := none } :: rest
          stack := c.stack.shrink record.height
          fp := record.fp
          depth := record.depth
          code := record.code
          scope := record.scope
          receivers := c.receivers.shrink record.receivers
          moduleName := record.moduleName
          line := record.line
          pc := handler }
      some (c, record.scope.setAlways caughtName (.error f) s)

theorem catch_none {c : Context} (h : c.tries = []) (f : Fault) (s : Store) :
    c.catch? f s = none := by
  simp [catch?, h]

end StackScript.Context
