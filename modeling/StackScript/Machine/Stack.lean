import StackScript.Machine.Context

/-!
# Instructions on the stack

Pushing, dropping, doubling and reordering values, spreading arrays, and cutting the stack back to
a marker.

Main statements: `dropTo_pops` (cutting back ends at the marker).
-/
namespace StackScript.Exec

/-- Push what an operand stands for. A function that closes over its scope takes the current
one, unless it was captured before. -/
def pushOperand (operand : Operand) : Exec Unit :=
  match operand with
  | .value (.function code none) => do
    match (← ofStore (·.code code)).scopeRule with
    | .lexical => push (.function code (some (← scope)))
    | .caller => push (.function code none)
  | .value v => push v
  | .int n => push (.int n)
  | .name text => push (.string text)
  | .none => push .nil
  | operand => wrongOperand .invalidType operand

/-- Drop some values, at least one. -/
def dropValues (operand : Operand) : Exec Unit := do
  let _ ← popMany (max (countOf operand 1) 1)

/-- Push the top of the stack again. -/
def dup : Exec Unit := do push (← peek 0)

/-- Swap the two values on top. -/
def swap : Exec Unit := do
  let top ← pop
  let below ← pop
  push top
  push below

/-- Replace the top of the stack by a deep copy. -/
def copyTop : Exec Unit := do
  let v ← popValue
  push (← (v.copy : StoreM Value))

/-- Push the value so many places below the top. -/
def readStack (operand : Operand) : Exec Unit := do push (← peek (countOf operand 0))

/-- No memory holds an array of so many items. -/
def itemLimit : Nat := 0x8000000000000000

/-- Replace an array by its items and their number. -/
def flatten : Exec Unit := do
  match ← popValue with
  | .array r =>
    let items := (← ofStore (·.array r)).items
    if itemLimit ≤ items.size then throw (.of .limitReached)
    else
      pushAll items.toList
      push (.int (Int64.ofNat items.size))
  | v => wrongType v

/-- Whether a value is the marker of a label. -/
def isMarkerOf (label : String) : Value → Bool
  | .marker m => m.label == label
  | _ => false

/-- The stack below the nearest marker of a label, if there is one above the base. -/
def dropTo (label : String) (base : Nat) : (height : Nat) → Array Value → Array Value × Bool
  | 0, stack => (stack, false)
  | height + 1, stack =>
    if stack.size ≤ base then (stack, false)
    else if isMarkerOf label (stack.back?.getD .nil) then (stack.pop, true)
    else dropTo label base height stack.pop

/-- Drop everything down to the marker of a label. -/
def dropToMarker (operand : Operand) : Exec Unit := do
  let label := operand.asName?.getD ""
  let found : Bool ← fun c w s =>
    let base := c.base
    let (stack, found) := dropTo label base c.stack.size c.stack
    (((.ok found, { c with stack := stack }), w), s)
  if !found then throw (.about .invalidMarker label)

theorem dropTo_pops (label : String) {base : Nat} {stack : Array Value} {v : Value} (height : Nat)
    (h : base ≤ stack.size) (hv : isMarkerOf label v = true) :
    dropTo label base (height + 1) (stack.push v) = (stack, true) := by
  have : ¬stack.size + 1 ≤ base := by omega
  simp [dropTo, this, hv]

end StackScript.Exec
