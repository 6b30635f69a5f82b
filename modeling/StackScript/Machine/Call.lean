import StackScript.Machine.Output
import StackScript.Builtin.Table
import StackScript.Code

/-!
# Calls

A call of a compiled function saves the caller's state as a frame and goes on in the function's
code; its return cuts the stack back to the frame. A builtin either answers at once or asks for
something that the machine has to do first; then the call is completed when that is done.

Main statements: `pushResults_one` (one result is the value of the call).
-/
namespace StackScript

/-- A builtin whose result is awaited. -/
structure PendingCall where
  callee : Native
  /-- Whether the caller takes every result. -/
  multi : Bool

namespace Exec

/-! ## Results -/

/-- Push the results of a call. Several results need a caller that takes them all; they lie above
a marker, the first one on top. -/
def pushResults (vs : List Value) (multi : Bool) : Exec Unit :=
  match vs with
  | [] => push (.marker .void)
  | [v] => push v
  | vs =>
    if multi then pushAll (.marker .results :: vs.reverse)
    else throw (.about .multipleResults (Decimal.ofNat vs.length))

/-- Push the result of a builtin that fails as its caller does. -/
def pushResult (v : Value) (multi : Bool) : Exec Unit :=
  match v with
  | .tuple r => do pushResults (← ofStore (·.tuple r)) multi
  | v => push v

/-- Push the result of a builtin whose failure is a second result. -/
def pushWithError (v error : Value) (multi : Bool) : Exec Unit :=
  pushAll (if multi then [.marker .results, error, v] else [v])

/-- Complete the call of a builtin. -/
def complete (call : PendingCall) (result : Except Fault Value) : Exec Unit :=
  match result with
  | .ok v =>
    if call.callee.returnsError then pushWithError v .nil call.multi else pushResult v call.multi
  | .error f =>
    if !call.callee.returnsError || f.kind.isControl then throw f
    else if call.multi then pushWithError .nil (.error f) true
    else throw ((Fault.of .unusedErrorReturn).causedBy f)

theorem pushResults_one (v : Value) (multi : Bool) : pushResults [v] multi = push v := rfl

/-! ## Calls -/

/-- The table of a called function's names. -/
def calleeScope (unit : Code) (captured : Option TableRef) (caller : TableRef) (s : Store) :
    TableRef × Store :=
  match unit.scopeRule with
  | .lexical => s.newChild (captured.getD caller) unit.name
  | .caller => s.newBoundary caller unit.name

/-- Go on in a compiled function. -/
def callFunction (code : CodeRef) (captured : Option TableRef) (args : List Value)
    (receiver : Option Value) (multi : Bool) : Exec Unit := do
  let args ← (StoreM.array .interface args.toArray : StoreM Value)
  fun c w s =>
    let unit := s.code code
    let (table, s) := calleeScope unit captured c.scope s
    let s := table.setAlways argumentsName args s
    let s := match receiver with
      | some v => table.setAlways receiverName v s
      | none => s
    let frame : Frame :=
      { moduleName := c.moduleName, line := c.line, scope := c.scope, code := c.code, pc := c.pc
        fp := c.fp, receivers := c.receivers.size, multi := multi }
    let stack := c.stack.push (.frame frame)
    let c :=
      { c with
        scope := table
        code := code
        stack := stack
        fp := stack.size - 1
        depth := c.depth + 1
        pc := 0
        moduleName := unit.package.getD c.moduleName }
    (((.ok (), c), w), s)

/-- Call a builtin. A result that has to be waited for is left to the machine. -/
def callNative (f : Native) (args : List Value) (receiver : Option Value) (multi : Bool) :
    Exec (Option (PendingCall × Answer)) := do
  match f.checkArity args.length with
  | .error fault => throw fault
  | .ok () =>
    let call : PendingCall := ⟨f, multi⟩
    let caller ← scope
    let answer : Except Fault Answer ← fun c w s =>
      let ((r, w), s) :=
        f.run { caller := caller, receiver := receiver, multiple := multi, args := args } w s
      (((.ok r, c), w), s)
    match answer with
    | .ok (.value v) => do
      complete call (.ok v)
      pure none
    | .ok answer => pure (some (call, answer))
    | .error fault => do
      complete call (.error fault)
      pure none

/-- Convert to a type that is called. -/
def callType (t : Ty) (args : List Value) : Exec Unit := do
  push (← match args with
    | [] => (Value.zero t : StoreM Value)
    | [v] => (v.coerce t : StoreM Value)
    | _ => throw (.about .argumentCount t.display))

/-- The number of arguments and the flags that an operand holds. -/
def readCall (operand : Operand) : Exec (Nat × CallFlags) :=
  match operand with
  | .tuple parts =>
    match parts.head?.bind Operand.asInt? with
    | some n =>
      pure (n.toInt.toNat, .ofInt (((parts[1]?).bind Operand.asInt?).getD 0))
    | none => wrongOperand .invalidFunctionCall operand
  | operand => pure (callCount operand.asInt?, {})

/-- The number of arguments of a call; the last one may have been spread. -/
def spreadCount (count : Nat) (flags : CallFlags) : Exec Nat := do
  if flags.spread then
    match (← pop).asInt? with
    | some n => pure (count - 1 + n.toInt.toNat)
    | none => throw (.about .invalidFunctionCall "spread")
  else pure count

/-- Take the receiver that was set last. -/
def takeReceiver : Exec (Option Value) := fun c w s =>
  let v := c.receivers.back?
  (((.ok v, { c with receivers := c.receivers.pop }), w), s)

/-- Call the value below the arguments. -/
def call (operand : Operand) : Exec (Option (PendingCall × Answer)) := do
  let (count, flags) ← readCall operand
  let args ← popValues (← spreadCount count flags)
  let callee ← popValue
  let receiver ← if flags.receiver then takeReceiver else pure none
  match callee with
  | .function code captured =>
    callFunction code captured args receiver flags.multi
    pure none
  | .native f => callNative f args receiver flags.multi
  | .type t =>
    callType t args
    pure none
  | v => throw (.about .invalidFunctionCall (← ofStore v.typeName))

/-! ## Returns -/

/-- Go on in the caller of a frame. -/
def restore (f : Frame) (c : Context) : Context :=
  let depth := c.depth - 1
  { c with
    depth := depth
    tries := c.tries.filter (·.depth ≤ depth)
    receivers := c.receivers.shrink f.receivers
    fp := f.fp
    pc := f.pc
    code := f.code
    scope := f.scope
    moduleName := f.moduleName
    line := f.line }

/-- Cut the stack back to the current frame and take it. -/
def takeFrame : Exec (Option Frame) := fun c w s =>
  let c := { c with stack := c.stack.shrink (c.fp + 1) }
  let frame := match c.stack.back? with
    | some (.frame f) => some f
    | _ => none
  (((.ok frame, { c with stack := c.stack.pop }), w), s)

/-- Leave the current call with some results; outside calls this is a stop. -/
def leave (count : Nat) : Exec Unit := do
  if (← ofContext Context.depth) = 0 then throw (.of .stop)
  else
    let vs ← popMany count
    match ← takeFrame with
    | some f =>
      modifyContext (restore f)
      pushResults vs f.multi
    | none => throw (.about .stackUnderflow "call frame")

end Exec

end StackScript
