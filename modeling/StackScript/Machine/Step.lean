import StackScript.Machine.Stack
import StackScript.Machine.Operator
import StackScript.Machine.Name
import StackScript.Machine.Flow
import StackScript.Machine.Call

/-!
# Steps of execution

One instruction of the current unit, and what becomes of a fault that it raises.

Main statements: `step_end` (outside calls the end of a unit ends the run).
-/
namespace StackScript

/-- What a step leads to. -/
inductive Progress where
  | goesOn
  /-- The code has come to its end. -/
  | finished
  /-- A builtin asks for something. -/
  | asks (call : PendingCall) (answer : Answer)

namespace Exec

/-- Perform an instruction that is no call. -/
def perform (i : Instruction) : Exec Unit :=
  match i.op with
  | .noOperation => pure ()
  | .push => pushOperand i.operand
  | .drop => dropValues i.operand
  | .dup => dup
  | .swap => swap
  | .copy => copyTop
  | .readStack => readStack i.operand
  | .flatten => flatten
  | .dropToMarker => dropToMarker i.operand
  | .load => loadName i.operand
  | .store => storeName i.operand
  | .loadIndex => loadIndex
  | .storeIndex => storeIndex
  | .loadSlice => loadSlice
  | .member => loadMember i.operand false
  | .classMember => loadMember i.operand true
  | .array => packArray i.operand
  | .makeArray => makeArray i.operand
  | .struct => packStruct i.operand
  | .coerce => coerceTop i.operand
  | .explode => explode
  | .add => binary Operator.add
  | .sub => binary Operator.subtract
  | .mul => binary Operator.multiplication.apply
  | .div => binary Operator.division.apply
  | .exp => binary Operator.power.apply
  | .modulo => binary Operator.remainder.apply
  | .negate => negateTop
  | .and => logical (· && ·)
  | .or => logical (· || ·)
  | .bitAnd => binary (Operator.bitwise (· &&& ·) (· && ·))
  | .bitOr => binary (Operator.bitwise (· ||| ·) (· || ·))
  | .bitShift => shiftBelow
  | .equal => equality true
  | .notEqual => equality false
  | .lessThan => binary (Operator.ordered (· == .lt))
  | .lessThanOrEqual => binary (Operator.ordered (· != .gt))
  | .greaterThan => binary (Operator.ordered (· == .gt))
  | .greaterThanOrEqual => binary (Operator.ordered (· != .lt))
  | .call => pure ()
  | .leave => leave (countOf i.operand 0)
  | .stop => throw (.of .stop)
  | .panic => panic
  | .atLine => atLine i.operand
  | .pushScope => openScope
  | .popScope => closeScopes i.operand
  | .symbolCreate => createName i.operand
  | .symbolDelete => deleteName i.operand
  | .constant => declareConstant i.operand
  | .tryPop => leaveTry
  | .print => print i.operand
  | .newline => write "\n"
  | .say => say
  | .log => log
  | .template => makeTemplate i.operand
  | .timer => timer i.operand
  | .setThis => setReceiver
  | .loadThis => loadReceiver
  | .argCheck => checkArguments i.operand
  | .requiredType => requireType i.operand
  | .staticTyping => setStrictness i.operand
  | .branchLimit => throw (.of .unimplementedInstruction)
  | .tryBlock => enterTry i.operand
  | .branch => branch i.operand
  | .branchTrue => branchIf true i.operand
  | .branchFalse => branchIf false i.operand

/-- The instruction that is next, if the unit has one there. -/
def fetch : Exec (Option Instruction) := fun c w s =>
  match (s.code c.code).instructions[c.pc]? with
  | some i => (((.ok (some i), { c with pc := c.pc + 1 }), w), s)
  | none => (((.ok none, c), w), s)

/-- Perform the next instruction. A call that comes to the end of its unit returns. -/
def step : Exec Progress := do
  match ← fetch with
  | some i =>
    if i.op == .call then
      match ← call i.operand with
      | some (call, answer) => pure (.asks call answer)
      | none => pure .goesOn
    else
      perform i
      pure .goesOn
  | none =>
    if 0 < (← ofContext Context.depth) then
      leave 0
      pure .goesOn
    else pure .finished

theorem step_end (c : Context) (w : World) (s : Store)
    (h : (s.code c.code).instructions[c.pc]? = none) (depth : c.depth = 0) :
    step c w s = (((.ok .finished, c), w), s) := by
  simp [step, fetch, ofContext, bind, ExceptT.bind, ExceptT.mk, StateT.bind,
    ExceptT.bindCont, h, depth, pure, ExceptT.pure]
  rfl

end Exec

end StackScript
