import StackScript.World
import StackScript.Code.Listing
import StackScript.Scope

/-!
# Contexts of execution

A context runs one unit of code at a time over a stack of values. A call saves the caller's state
as a frame on the stack, below which the callee cannot reach. A protected block records where a
fault goes on.

Main statements: `pop_push` (what was pushed last is popped first) and `peek_push`.
-/
namespace StackScript

/-- What a context is doing. -/
inductive ContextState where
  | created
  | running
  /-- Paused by the debugger. -/
  | suspended
  | stopped
deriving Repr, DecidableEq, Inhabited

/-- Where the debugger stops. -/
structure Debugger where
  /-- Lines in ascending order. -/
  breakpoints : List Nat := []
  singleStep : Bool := false
deriving Repr, DecidableEq

/-- What a protected block restores when a fault is caught. -/
structure TryRecord where
  /-- Where the fault is handled; none once the record has been used. -/
  handler : Option Nat
  /-- The height of the stack. -/
  height : Nat
  fp : Nat
  depth : Nat
  code : CodeRef
  scope : TableRef
  receivers : Nat
  moduleName : String
  line : Nat

/-- One stack of values and the code that works on it. -/
structure Context where
  moduleName : String
  code : CodeRef
  scope : TableRef
  stack : Array Value := #[]
  pc : Nat := 0
  /-- The place of the current frame on the stack. -/
  fp : Nat := 0
  /-- How many calls are active. -/
  depth : Nat := 0
  line : Nat := 0
  /-- Protected blocks, the innermost first. -/
  tries : List TryRecord := []
  receivers : Array Value := #[]
  strictness : Strictness
  /-- When the running timers were started. -/
  timers : List Int := []
  debugger : Debugger := {}
  state : ContextState := .created

/-- Steps of execution. A failed one keeps what it has done so far. -/
abbrev Exec := ExceptT Fault (StateT Context (StateT World (StateM Store)))

instance : MonadLift WorldM Exec where
  monadLift m := fun c w s =>
    let ((result, w), s) := m w s
    (((result, c), w), s)

namespace Debugger

/-- Stop at a line. -/
def setBreakpoint (d : Debugger) (line : Nat) : Debugger :=
  { d with
    breakpoints := d.breakpoints.filter (· < line) ++ line :: d.breakpoints.filter (line < ·) }

/-- No longer stop at a line. -/
def clearBreakpoint (d : Debugger) (line : Nat) : Debugger :=
  { d with breakpoints := d.breakpoints.filter (· != line) }

/-- Whether there is anywhere to stop. -/
def isActive (d : Debugger) : Bool := d.singleStep || !d.breakpoints.isEmpty

/-- Whether to stop at a line. -/
def stopsAt (d : Debugger) (line : Nat) : Bool := d.singleStep || d.breakpoints.contains line

end Debugger

namespace Context

/-- The name that faults in a unit carry. -/
def moduleOf (code : Code) : String := code.package.getD code.name

/-- A context that is about to run a unit. -/
def new (s : Store) (strictness : Strictness) (code : CodeRef) (scope : TableRef) : Context :=
  { moduleName := moduleOf (s.code code), code := code, scope := scope, strictness := strictness }

/-- The place of the lowest value that the current call may take. -/
def base (c : Context) : Nat := if 0 < c.depth then c.fp + 1 else 0

/-- The value on top of the stack; a marker stands for none. -/
def result (c : Context) : Value :=
  match c.stack.back? with
  | some (.marker _) | none => .nil
  | some v => v

/-- Whether this is the marker below several results. -/
def isResultsMarker : Value → Bool
  | .marker .results => true
  | _ => false

/-- The results of a call that takes all of them: a tuple of several, or the top of the stack. -/
def results (c : Context) : StoreM Value :=
  let above := c.stack.toList.reverse.takeWhile fun v => !isResultsMarker v
  if above.length < c.stack.size then StoreM.tuple above else pure c.result

end Context

namespace Exec

/-! ## The stack -/

/-- Push a value. -/
def push (v : Value) : Exec Unit := fun c w s =>
  (((.ok (), { c with stack := c.stack.push v }), w), s)

/-- Push values, the first one first. -/
def pushAll (vs : List Value) : Exec Unit := fun c w s =>
  (((.ok (), { c with stack := vs.foldl Array.push c.stack }), w), s)

/-- Take the top of the stack. -/
def pop : Exec Value := fun c w s =>
  if c.stack.size ≤ c.base then (((.error (.of .stackUnderflow), c), w), s)
  else
    let v := c.stack.back?.getD .nil
    (((.ok v, { c with stack := c.stack.pop }), w), s)

/-- Take the top of the stack for use; the marker of a call without results is no value. -/
def popValue : Exec Value := fun c w s =>
  if c.stack.size ≤ c.base then (((.error (.of .stackUnderflow), c), w), s)
  else
    let v := c.stack.back?.getD .nil
    let c := { c with stack := c.stack.pop }
    if v.isMarker then (((.error (.of .voidReturn), c), w), s) else (((.ok v, c), w), s)

/-- Take some values, the lowest first. -/
def popMany (count : Nat) : Exec (List Value) := fun c w s =>
  if c.stack.size < c.base + count then
    (((.error (.about .stackUnderflow (Decimal.ofNat count)), c), w), s)
  else
    let vs := (c.stack.extract (c.stack.size - count) c.stack.size).toList
    (((.ok vs, { c with stack := c.stack.shrink (c.stack.size - count) }), w), s)

/-- The fault of a marker among values. -/
def refuseMarkers (vs : List Value) : Exec Unit :=
  if vs.any Value.isMarker then throw (.of .voidReturn) else pure ()

/-- Take some values, none of which may be a marker. -/
def popValues (count : Nat) : Exec (List Value) := do
  let vs ← popMany count
  refuseMarkers vs
  pure vs

/-- The value so many places below the top. -/
def peek (offset : Nat) : Exec Value := fun c w s =>
  if c.stack.size - c.base ≤ offset then
    (((.error (.about .stackUnderflow (Decimal.ofNat offset)), c), w), s)
  else (((.ok (c.stack.getD (c.stack.size - 1 - offset) .nil), c), w), s)

/-! ## Parts of the state -/

/-- Change the context. -/
def modifyContext (f : Context → Context) : Exec Unit := fun c w s => (((.ok (), f c), w), s)

/-- Something of the context. -/
def ofContext {α : Type} (f : Context → α) : Exec α := fun c w s => (((.ok (f c), c), w), s)

/-- Something of the store. -/
def ofStore {α : Type} (f : Store → α) : Exec α := fun c w s => (((.ok (f s), c), w), s)

/-- Change the store. -/
def modifyStore (f : Store → Store) : Exec Unit := fun c w s => (((.ok (), c), w), f s)

/-- The current table of names. -/
def scope : Exec TableRef := ofContext Context.scope

/-- The fault of a value of a type that an operation does not take. -/
def wrongType {α : Type} (v : Value) : Exec α := do
  throw (.about .invalidType (← ofStore v.typeName))

/-- The fault of an operand that an operation does not take. -/
def wrongOperand {α : Type} (kind : FaultKind) (operand : Operand) : Exec α := do
  throw (.about kind (← ofStore operand.display))

/-- The name that an operand holds. -/
def nameOf (operand : Operand) : Exec String :=
  match operand.asName? with
  | some name => pure name
  | none => wrongOperand .invalidSymbolName operand

/-- The count that an operand holds. -/
def countOf (operand : Operand) (default : Nat) : Nat :=
  match operand.asInt? with
  | some n => n.toInt.toNat
  | none => default

theorem pop_push (v : Value) (c : Context) (w : World) (s : Store)
    (h : c.base ≤ c.stack.size) :
    (do push v; pop : Exec Value) c w s = (((.ok v, c), w), s) := by
  have h' : ¬c.stack.size + 1 ≤ c.base := by omega
  have h'' : (c.stack.push v).size - 1 = c.stack.size := by simp
  simp only [push, pop, bind, ExceptT.bind, ExceptT.mk, StateT.bind, ExceptT.bindCont, Context.base,
    Array.size_push]
  simp only [Context.base] at h'
  simp [h']

theorem peek_push (v : Value) (c : Context) (w : World) (s : Store)
    (h : c.base ≤ c.stack.size) :
    (peek 0 { c with stack := c.stack.push v } w s).1.1.1 = .ok v := by
  have : ¬c.stack.size + 1 - c.base = 0 := by omega
  simp only [Context.base] at this
  simp [peek, Context.base, this]

end Exec

end StackScript
