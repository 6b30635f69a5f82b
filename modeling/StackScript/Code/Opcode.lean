/-!
# Operation codes

What an instruction of the machine does. The operand of a branch is an address, which moves when
code is joined or trimmed.

Main statements: `isBranch_iff` (the four branches) and `ofName?_name`.
-/
namespace StackScript

/-- An operation of the machine. -/
inductive Opcode where
  -- the stack
  | noOperation | push | drop | dup | swap | copy | readStack | flatten | dropToMarker
  -- names and aggregates
  | load | store | loadIndex | storeIndex | loadSlice | member | classMember | array |
  makeArray | struct | coerce | explode
  -- arithmetic and logic
  | add | sub | mul | div | exp | modulo | negate | and | or | bitAnd | bitOr | bitShift
  -- comparison
  | equal | notEqual | lessThan | lessThanOrEqual | greaterThan | greaterThanOrEqual
  -- calls and stops
  | call | leave | stop | panic | atLine
  -- scopes
  | pushScope | popScope | symbolCreate | symbolDelete | constant
  -- leaving protected blocks
  | tryPop
  -- output
  | print | newline | say | log
  -- the rest
  | template | timer | setThis | loadThis | argCheck | requiredType | staticTyping
  /-- Stands before the branches; no code holds it. -/
  | branchLimit
  -- branches
  | tryBlock | branch | branchTrue | branchFalse
deriving Repr, DecidableEq, Inhabited

namespace Opcode

/-- The name of an operation in listings. -/
def name : Opcode → String
  | noOperation => "NoOperation"
  | push => "Push"
  | drop => "Drop"
  | dup => "Dup"
  | swap => "Swap"
  | copy => "Copy"
  | readStack => "ReadStack"
  | flatten => "Flatten"
  | dropToMarker => "DropToMarker"
  | load => "Load"
  | store => "Store"
  | loadIndex => "LoadIndex"
  | storeIndex => "StoreIndex"
  | loadSlice => "LoadSlice"
  | member => "Member"
  | classMember => "ClassMember"
  | array => "Array"
  | makeArray => "MakeArray"
  | struct => "Struct"
  | coerce => "Coerce"
  | explode => "Explode"
  | add => "Add"
  | sub => "Sub"
  | mul => "Mul"
  | div => "Div"
  | exp => "Exp"
  | modulo => "Modulo"
  | negate => "Negate"
  | and => "And"
  | or => "Or"
  | bitAnd => "BitAnd"
  | bitOr => "BitOr"
  | bitShift => "BitShift"
  | equal => "Equal"
  | notEqual => "NotEqual"
  | lessThan => "LessThan"
  | lessThanOrEqual => "LessThanOrEqual"
  | greaterThan => "GreaterThan"
  | greaterThanOrEqual => "GreaterThanOrEqual"
  | call => "Call"
  | leave => "Return"
  | stop => "Stop"
  | panic => "Panic"
  | atLine => "AtLine"
  | pushScope => "PushScope"
  | popScope => "PopScope"
  | symbolCreate => "SymbolCreate"
  | symbolDelete => "SymbolDelete"
  | constant => "Constant"
  | tryPop => "TryPop"
  | print => "Print"
  | newline => "Newline"
  | say => "Say"
  | log => "Log"
  | template => "Template"
  | timer => "Timer"
  | setThis => "SetThis"
  | loadThis => "LoadThis"
  | argCheck => "ArgCheck"
  | requiredType => "RequiredType"
  | staticTyping => "StaticTyping"
  | branchLimit => "BranchInstructions"
  | tryBlock => "Try"
  | branch => "Branch"
  | branchTrue => "BranchTrue"
  | branchFalse => "BranchFalse"

/-- Every operation. -/
def all : List Opcode :=
  [noOperation, push, drop, dup, swap, copy, readStack, flatten, dropToMarker, load, store,
   loadIndex, storeIndex, loadSlice, member, classMember, array, makeArray, struct, coerce,
   explode, add, sub, mul, div, exp, modulo, negate, and, or, bitAnd, bitOr, bitShift, equal,
   notEqual, lessThan, lessThanOrEqual, greaterThan, greaterThanOrEqual, call, leave, stop,
   panic, atLine, pushScope, popScope, symbolCreate, symbolDelete, constant, tryPop, print,
   newline, say, log, template, timer, setThis, loadThis, argCheck, requiredType, staticTyping,
   branchLimit, tryBlock, branch, branchTrue, branchFalse]

/-- The operation of a name. -/
def ofName? (name : String) : Option Opcode := all.find? (·.name == name)

/-- Whether the operand is the address of an instruction. -/
def isBranch : Opcode → Bool
  | tryBlock | branch | branchTrue | branchFalse => true
  | _ => false

/-- Whether control never goes on to the next instruction. -/
def isTransfer : Opcode → Bool
  | branch | leave | stop => true
  | _ => false

theorem isBranch_iff (op : Opcode) :
    op.isBranch = true ↔ op = tryBlock ∨ op = branch ∨ op = branchTrue ∨ op = branchFalse := by
  cases op <;> simp [isBranch]

theorem ofName?_name {name : String} {op : Opcode} (h : ofName? name = some op) :
    op.name = name := by
  have := List.find?_some h
  simpa using this

end Opcode

end StackScript
