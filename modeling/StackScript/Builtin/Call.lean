import StackScript.World
import StackScript.Value.Map
import StackScript.Value.Struct
import StackScript.Scope

/-!
# Calls of builtins

What a builtin is given, and what it answers: a value, or a request that the machine has to serve
first: to wait for another goroutine or for the clock, to call back a comparison, or to evaluate a
source. The machine goes on where the request left off.

Main statements: `Sorting.size_compared` (sorting keeps every item).
-/
namespace StackScript

/-- What a builtin is called with. -/
structure NativeCall where
  /-- The caller's table. -/
  caller : TableRef
  receiver : Option Value := none
  /-- Whether the caller takes more than one result. -/
  multiple : Bool := false
  args : List Value := []

/-- What a blocked goroutine waits for. -/
inductive Wait where
  /-- A time on the clock. -/
  | clock (time : Int)
  /-- A wait group at zero. -/
  | group (r : WaitGroupRef)
  /-- A mutex that is free, to be taken. -/
  | lock (r : MutexRef)
  /-- Room in a channel, a handle on which is held, for a message. -/
  | send (r : ChannelRef) (message : Value)
  /-- A message, or the end of a channel. -/
  | receive (r : ChannelRef) (multiple : Bool)
  /-- Nothing: the call has broken down, and who made it goes on no more. -/
  | never

/-- An insertion sort that is waiting for a comparison: the items before `next` are in order but
for the one at `place`, which is compared with the one before it. -/
structure Sorting where
  less : Value
  /-- The table under which the comparison is called. -/
  scope : TableRef
  element : Ty
  items : Array Value
  next : Nat
  place : Nat

/-- What a builtin answers. -/
inductive Answer where
  | value (v : Value)
  | wait (w : Wait)
  | sort (s : Sorting)
  /-- The value of an expression in the caller's table. -/
  | evaluate (source : String)

namespace Sorting

/-- Go on with the next item that is not in order yet. -/
def advance (s : Sorting) : Sorting := { s with next := s.next + 1, place := s.next + 1 }

/-- The items that are to be compared; there are none when all are in order. -/
def comparison? (s : Sorting) : Option (Value × Value) :=
  if s.next < s.items.size then
    some (s.items.getD s.place .nil, s.items.getD (s.place - 1) .nil)
  else none

/-- Go on after a comparison. -/
def compared (s : Sorting) (isLess : Bool) : Sorting :=
  if isLess then
    let items := s.items.swapIfInBounds s.place (s.place - 1)
    let s := { s with items := items, place := s.place - 1 }
    if s.place = 0 then s.advance else s
  else s.advance

/-- A sort of which nothing is done. -/
def start (less : Value) (scope : TableRef) (element : Ty) (items : Array Value) : Sorting :=
  { less := less, scope := scope, element := element, items := items, next := 1, place := 1 }

theorem size_compared (s : Sorting) (isLess : Bool) :
    (s.compared isLess).items.size = s.items.size := by
  unfold compared advance
  split
  · dsimp only; split <;> simp
  · rfl

end Sorting

namespace NativeCall

/-- An argument; the number of arguments has been checked. -/
def arg (c : NativeCall) (index : Nat) : Value := c.args.getD index .nil

/-- An argument that may be missing. -/
def arg? (c : NativeCall) (index : Nat) : Option Value := c.args[index]?

/-- The fault of an argument that the named function does not take. -/
def refuse {α : Type} (name : String) : WorldM α := throw (.about .argumentType name)

/-- The fault of a value of a kind that a function does not take. -/
def refuseValue {α : Type} (v : Value) : WorldM α := do
  refuse (v.typeName (← getThe Store))

/-- A number or a boolean as a whole number. -/
def int (c : NativeCall) (name : String) (index : Nat) : WorldM Int64 :=
  match (c.arg? index).filter (fun v => v.kind.isNumeric || v.kind == .bool) |>.bind Value.asInt? with
  | some n => pure n
  | none => refuse name

/-- A number as a floating point number. -/
def float (c : NativeCall) (name : String) (index : Nat) : WorldM Float :=
  match (c.arg? index).filter (·.kind.isNumeric) |>.bind Value.asFloat? with
  | some x => pure x
  | none => refuse name

/-- The text of an argument; a missing one is empty. -/
def text (c : NativeCall) (index : Nat) : WorldM String := do
  match c.arg? index with
  | some v => pure (v.display (← getThe Store))
  | none => pure ""

/-- The receiver of a method. -/
def receiverValue (c : NativeCall) : WorldM Value :=
  match c.receiver with
  | some v => pure v
  | none => throw (.about .invalidFunctionCall "missing receiver")

/-- The fault of a receiver of another kind. -/
def wrongReceiver {α : Type} (v : Value) : WorldM α := do
  throw (.about .invalidType (v.typeName (← getThe Store)))

/-- A new array of texts. -/
def texts (items : List String) : WorldM Value :=
  StoreM.array (.plain .string) (items.map Value.string).toArray

end NativeCall

end StackScript
