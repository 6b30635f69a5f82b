import StackScript.Value
import StackScript.Code.Opcode
import StackScript.Association

/-!
# Code units

A unit is a named sequence of instructions with what its function declares. A unit grows by
emission until it is sealed; sealing trims instructions that control cannot reach. Instructions
are deleted by moving the targets of all later branches, and joined by relocating them.

Main statements: `emit_sealed` (a sealed unit takes no instruction), `size_push`,
`isSealed_close`, and `CallFlags.ofInt_toInt` (the number that stands for flags says what they were).
-/
namespace StackScript

/-! ## Instructions -/

/-- What an instruction carries. -/
inductive Operand where
  | none
  | int (n : Int64)
  | address (target : Nat)
  | name (text : String)
  | value (v : Value)
  | tuple (items : List Operand)

instance : Inhabited Operand := ⟨.none⟩

namespace Operand

/-- The whole number of an operand. -/
def asInt? : Operand → Option Int64
  | int n => some n
  | address a => some (Int64.ofNat a)
  | value v => v.asInt?
  | _ => Option.none

/-- The address of an operand: an address proper, or a number that is not negative. -/
def asAddress? : Operand → Option Nat
  | address a => some a
  | int n => if 0 ≤ n.toInt then some n.toInt.toNat else Option.none
  | _ => Option.none

/-- The name of an operand. -/
def asName? : Operand → Option String
  | name s => some s
  | value (.string s) => some s
  | _ => Option.none

/-- The parts of an operand. -/
def asTuple? : Operand → Option (List Operand)
  | tuple items => some items
  | _ => Option.none

/-- Whether there is no operand. -/
def isNone : Operand → Bool
  | none => true
  | _ => false

end Operand

/-- An operation with its operand. -/
structure Instruction where
  op : Opcode
  operand : Operand

instance : Inhabited Instruction := ⟨⟨.noOperation, .none⟩⟩

namespace Instruction

/-- The target of a branch that holds an address proper. -/
def target? (i : Instruction) : Option Nat :=
  match i.op.isBranch, i.operand with
  | true, .address target => some target
  | _, _ => none

/-- Move the target of a branch. -/
def retarget (f : Nat → Nat) (i : Instruction) : Instruction :=
  match i.target? with
  | some target => { i with operand := .address (f target) }
  | none => i

end Instruction

/-! ## Declarations -/

/-- A declared parameter. -/
structure Parameter where
  name : String
  type : Ty
deriving Repr, DecidableEq

/-- The table under which a called function's names are bound. -/
inductive ScopeRule where
  /-- Where the function was made. -/
  | lexical
  /-- A boundary under the caller's scope. -/
  | caller
deriving Repr, DecidableEq

/-- What a compiled function declares. -/
structure Declaration where
  name : String
  parameters : List Parameter := []
  returns : List Ty := []
  variadic : Bool := false
  receiver : Option String := none
  scope : ScopeRule := .lexical
deriving Repr, DecidableEq

namespace Declaration

/-- The least number of arguments. -/
def minArgs (d : Declaration) : Nat :=
  if d.variadic then d.parameters.length - 1 else d.parameters.length

/-- The greatest number of arguments, if there is one. -/
def maxArgs? (d : Declaration) : Option Nat :=
  if d.variadic then none else some d.parameters.length

/-- The text of one parameter. -/
def parameterText (variadic : Bool) (p : Parameter) : String :=
  p.name ++ (if variadic then " ..." else " ") ++ p.type.display

/-- The text of the parameters; the last one of a variadic function is marked. -/
def parametersText (d : Declaration) : String :=
  Text.join ", " (d.parameters.mapIdx fun i p =>
    parameterText (d.variadic && i + 1 == d.parameters.length) p)

/-- The text of the results, with a blank before it. -/
def returnsText (d : Declaration) : String :=
  match d.returns with
  | [] => ""
  | [t] => " " ++ t.display
  | ts => " (" ++ Text.join ", " (ts.map Ty.display) ++ ")"

/-- The type of the function as programs see it. -/
def signature (d : Declaration) : String :=
  "func(" ++ d.parametersText ++ ")" ++ d.returnsText

/-- The declaration with its name. -/
def display (d : Declaration) : String :=
  "func " ++ d.name ++ "(" ++ d.parametersText ++ ")" ++ d.returnsText

end Declaration

/-! ## Units -/

/-- A sequence of instructions with what belongs to it. -/
structure Code where
  name : String
  declaration : Option Declaration := none
  instructions : Array Instruction := #[]
  /-- Slots set aside, at least as many as there are instructions. -/
  capacity : Nat := 0
  isSealed : Bool := false
  /-- Constants declared in the unit, by name. -/
  constants : List (String × Value) := []
  /-- The owner that faults in this code name. -/
  package : Option String := none

namespace Code

instance : Inhabited Code := ⟨{ name := "" }⟩

/-- Slots added when an instruction finds none. -/
def growth : Nat := 32

/-- The number of instructions, which is the address of the next one. -/
def size (c : Code) : Nat := c.instructions.size

/-- The fault of changing sealed code. -/
def sealedFault (c : Code) : Fault := .about .sealedCode c.name

/-- The fault of an address outside the code. -/
def badAddress (address : Nat) : Fault := .about .invalidAddress (Decimal.ofNat address)

/-- Add an instruction at the end, setting more slots aside when all are taken. -/
def push (c : Code) (i : Instruction) : Code :=
  { c with
    capacity := if c.capacity ≤ c.size then c.capacity + growth else c.capacity
    instructions := c.instructions.push i }

/-- Add an instruction to code that is not sealed. -/
def emit (c : Code) (op : Opcode) (operand : Operand) : Except Fault Code :=
  if c.isSealed then .error c.sealedFault else .ok (c.push ⟨op, operand⟩)

/-- Overwrite an instruction. -/
def emitAt (c : Code) (address : Nat) (op : Opcode) (operand : Operand) : Except Fault Code :=
  if c.isSealed then .error c.sealedFault
  else if c.size ≤ address then .error (badAddress address)
  else .ok { c with instructions := c.instructions.setIfInBounds address ⟨op, operand⟩ }

/-- Give an instruction an address as its operand. -/
def setAddress (c : Code) (address target : Nat) : Except Fault Code :=
  if c.size ≤ address ∨ c.size < target then .error (badAddress address)
  else
    .ok { c with
      instructions := c.instructions.modify address fun i => { i with operand := .address target } }

/-- Record constants that have no value yet. -/
def addConstants (c : Code) (constants : List (String × Value)) : Code :=
  { c with
    constants := constants.foldl
      (fun acc e => if Association.has e.1 acc then acc else acc ++ [e]) c.constants }

/-- Add the instructions of another unit at the end, its branches moved along. -/
def append (c other : Code) : Except Fault Code :=
  if c.isSealed ∧ 0 < other.size then .error c.sealedFault
  else
    let offset := c.size
    let joined := other.instructions.foldl (fun c i => c.push (i.retarget (· + offset))) c
    .ok (joined.addConstants other.constants)

/-- Delete an instruction; branches past it move back by one. -/
def remove (c : Code) (address : Nat) : Except Fault Code :=
  if c.size ≤ address then .error (badAddress address)
  else
    .ok { c with
      instructions := (c.instructions.eraseIdxIfInBounds address).map
        (·.retarget fun target => if address < target then target - 1 else target)
      capacity := c.capacity - 1 }

/-- Whether a branch leads to an address. -/
def isTarget (c : Code) (address : Nat) : Bool :=
  c.instructions.any fun i => i.target? == some address

/-- From an address on, delete instructions that follow a transfer of control and that no branch
leads to. Every round deletes an instruction or goes on by one, so as many rounds as there are
instructions are enough. -/
def trimFrom (c : Code) : (rounds : Nat) → (address : Nat) → Code
  | 0, _ => c
  | rounds + 1, address =>
    if address + 1 < c.size then
      if (c.instructions[address]?.map (·.op.isTransfer)).getD false
          && !c.isTarget (address + 1) then
        match c.remove (address + 1) with
        | .ok c => c.trimFrom rounds address
        | .error _ => c
      else c.trimFrom rounds (address + 1)
    else c

/-- Trim and close a unit. -/
def close (c : Code) : Code :=
  if c.isSealed then c
  else
    let trimmed := c.trimFrom c.size 0
    { trimmed with capacity := trimmed.size, isSealed := true }

/-- The name of a function made from this unit and its declaration. -/
def display (c : Code) : String :=
  match c.declaration with
  | some d => d.display
  | none => "func " ++ c.name

/-- The type name of a function made from this unit. -/
def signature (c : Code) : String := (c.declaration.map Declaration.signature).getD "func"

/-- The table rule of a function made from this unit. -/
def scopeRule (c : Code) : ScopeRule := (c.declaration.map Declaration.scope).getD .lexical

theorem emit_sealed {c : Code} (h : c.isSealed = true) (op : Opcode) (operand : Operand) :
    c.emit op operand = .error c.sealedFault := by
  simp [emit, h]

theorem size_push (c : Code) (i : Instruction) : (c.push i).size = c.size + 1 := by
  simp [push, size]

theorem isSealed_close (c : Code) : c.close.isSealed = true := by
  unfold close; split <;> simp_all

end Code

/-!
## Flags of calls

The operand of a call holds the number of its arguments and, if there is anything to say about
it, how the arguments are taken and the results are given.
-/

/-- How a call takes its arguments and gives its results. -/
structure CallFlags where
  /-- The last argument was spread, and a count follows it. -/
  spread : Bool := false
  /-- The caller takes every result. -/
  multi : Bool := false
  /-- A receiver was pushed. -/
  receiver : Bool := false
deriving Repr, DecidableEq

/-- The number that stands for the flags of a call. -/
def CallFlags.toInt (f : CallFlags) : Int64 :=
  (if f.spread then 1 else 0) + (if f.multi then 2 else 0) + (if f.receiver then 4 else 0)

/-- The flags that a number stands for. -/
def CallFlags.ofInt (n : Int64) : CallFlags :=
  { spread := n &&& 1 != 0, multi := n &&& 2 != 0, receiver := n &&& 4 != 0 }

/-- The operand of a call. -/
def callOperand (count : Nat) (flags : Int64) : Operand :=
  if flags = 0 then .int (Int64.ofNat count) else .tuple [.int (Int64.ofNat count), .int flags]

/-- The number of a call's arguments; what is no number is none. -/
def callCount (n : Option Int64) : Nat := ((n.map Int64.toInt).getD 0).toNat

/-- The argument count and the flags of a call's operand. -/
def callParts (operand : Operand) : Nat × Int64 :=
  match operand with
  | .tuple parts =>
    (callCount (parts.head?.bind Operand.asInt?), ((parts[1]?).bind Operand.asInt?).getD 0)
  | other => (callCount other.asInt?, 0)

theorem CallFlags.ofInt_toInt (f : CallFlags) : CallFlags.ofInt f.toInt = f := by
  obtain ⟨spread, multi, receiver⟩ := f
  cases spread <;> cases multi <;> cases receiver <;> decide

end StackScript
