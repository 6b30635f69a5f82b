import StackScript.Machine.Context
import StackScript.Value.Copy
import StackScript.Value.Struct
import StackScript.Decimal.Basic
import StackScript.Text.Layout

/-!
# Operators

Operands of different scalar kinds are first brought to one kind, as far as the strictness lets
them. Arithmetic keeps the kind of its operands; whole numbers wrap around.

Main statements: `unify_same` (operands of one kind are left alone) and `powerTo_zero`.
-/
namespace StackScript.Operator

/-- The names of the types of two operands. -/
def typesText (s : Store) (a b : Value) : String := a.typeName s ++ " and " ++ b.typeName s

/-- The fault of operands that an operator does not take. -/
def refuse {α : Type} (a b : Value) : StoreM α := do
  throw (.about .invalidType (typesText (← get) a b))

/-- The texts of two operands, for comparison when their kinds do not meet. -/
def asTexts (a b : Value) : StoreM (Value × Value) := do
  let s ← get
  pure (.string (a.display s), .string (b.display s))

/-- Bring two operands to one kind. -/
def unify (strictness : Strictness) (a b : Value) : StoreM (Value × Value) :=
  if a.kind == b.kind || !a.kind.isScalar || !b.kind.isScalar then pure (a, b)
  else
    match strictness with
    | .strict => do throw (.about .typeMismatch (typesText (← get) a b))
    | .relaxed => Value.promote a b
    | .dynamic => tryCatch (Value.promote a b) fun _ => asTexts a b

theorem unify_same (strictness : Strictness) {a b : Value} (h : a.kind = b.kind) :
    unify strictness a b = pure (a, b) := by
  simp [unify, h]

/-! ## Arithmetic -/

/-- An operation on whole numbers and on floating point numbers. -/
structure Arithmetic where
  whole : Int64 → Int64 → Except FaultKind Int64
  fraction : Float → Float → Except FaultKind Float

/-- The value of a computation that may fail, in a kind. -/
def settle {α : Type} (r : Except FaultKind α) (wrap : α → Value) : StoreM Value :=
  match r with
  | .ok x => pure (wrap x)
  | .error kind => throw (.of kind)

/-- Apply an operation to two numbers of one kind; the result has that kind. -/
def Arithmetic.apply (f : Arithmetic) (a b : Value) : StoreM Value :=
  match a, b with
  | .int x, .int y => settle (f.whole x y) .int
  | .byte x, .byte y =>
    settle (f.whole (Int64.ofNat x.toNat) (Int64.ofNat y.toNat)) fun n => .byte n.toUInt64.toUInt8
  | .int32 x, .int32 y => settle (f.whole x.toInt64 y.toInt64) fun n => .int32 n.toInt32
  | .int64 x, .int64 y => settle (f.whole x y) .int64
  | .float32 x, .float32 y =>
    settle (f.fraction x.toFloat y.toFloat) fun x => .float32 x.toFloat32
  | .float64 x, .float64 y => settle (f.fraction x y) .float64
  | a, b => refuse a b

/-- Addition of numbers. -/
def addition : Arithmetic := ⟨fun x y => .ok (x + y), fun x y => .ok (x + y)⟩

/-- Subtraction of numbers. -/
def subtraction : Arithmetic := ⟨fun x y => .ok (x - y), fun x y => .ok (x - y)⟩

/-- Multiplication. -/
def multiplication : Arithmetic := ⟨fun x y => .ok (x * y), fun x y => .ok (x * y)⟩

/-- Division; whole quotients are cut towards zero. -/
def division : Arithmetic where
  whole x y := if y = 0 then .error .divisionByZero else .ok (x / y)
  fraction x y := if y == 0 then .error .divisionByZero else .ok (x / y)

/-- The remainder of a division. -/
def remainder : Arithmetic where
  whole x y := if y = 0 then .error .divisionByZero else .ok (x % y)
  fraction x y := if y == 0 then .error .divisionByZero else .ok (Decimal.remainder x y)

/-- `result · base ^ power` by squaring; `bound` is at least the number of the power's bits. -/
def powerTo : (bound : Nat) → (result base : Int64) → (power : Nat) → Int64
  | 0, result, _, _ => result
  | bound + 1, result, base, power =>
    if power = 0 then result
    else powerTo bound (if power % 2 = 1 then result * base else result) (base * base) (power / 2)

theorem powerTo_zero (bound : Nat) (result base : Int64) : powerTo bound result base 0 = result := by
  cases bound <;> simp [powerTo]

/-- The greatest power that whole numbers are raised to. -/
def greatestPower : Nat := 0xFFFFFFFF

/-- Powers. A whole number to a negative power is zero, but for one. -/
def power : Arithmetic where
  whole x y :=
    if y < 0 then .ok (if x = 1 then 1 else 0)
    else .ok (powerTo 32 1 x (min y.toInt.toNat greatestPower))
  fraction x y := .ok (x.pow y)

/-- Addition: arrays grow, structs are merged, texts joined. -/
def add (a b : Value) : StoreM Value := do
  match a, b with
  | .array x, .array y =>
    let s ← get
    StoreM.array (s.array x).element ((s.array x).items ++ (s.array y).items)
  | .array x, item =>
    let array := (← get).array x
    let item ← item.coerce array.element
    StoreM.array array.element (array.items.push item)
  | .struct x, .struct y =>
    let s ← get
    StoreM.struct ((s.struct x).merge (s.struct y))
  | .string x, .string y => pure (.string (x ++ y))
  | a, b => addition.apply a b

/-- Subtraction: from a text every occurrence of another one is taken, from an array every item
that is equal. -/
def subtract (a b : Value) : StoreM Value := do
  match a, b with
  | .string x, .string y => pure (.string (Text.without x y))
  | .array x, item =>
    let s ← get
    let array := s.array x
    StoreM.array array.element (array.items.filter fun v => !v.equal s item)
  | a, b => subtraction.apply a b

/-- A number with the other sign, or the opposite of a boolean. -/
def negate (v : Value) : StoreM Value := do
  match v with
  | .bool b => pure (.bool !b)
  | .byte n => pure (.byte (0 - n))
  | .int32 n => pure (.int32 (-n))
  | .int n => pure (.int (-n))
  | .int64 n => pure (.int64 (-n))
  | .float32 x => pure (.float32 (-x))
  | .float64 x => pure (.float64 (-x))
  | .nil => pure (.bool true)
  | v => throw (.about .invalidType (v.typeName (← get)))

/-! ## Bits -/

/-- An operation on the bits of two whole numbers, or on two booleans. -/
def bitwise (whole : Int64 → Int64 → Int64) (bools : Bool → Bool → Bool) (a b : Value) :
    StoreM Value :=
  match a, b with
  | .bool x, .bool y => pure (.bool (bools x y))
  | a, b =>
    if a.kind.isInteger then
      Arithmetic.apply ⟨fun x y => .ok (whole x y), fun _ _ => .error .invalidType⟩ a b
    else refuse a b

/-- A whole number shifted to the left, or to the right by a negative count. Only the last 32 bits
of the count matter. -/
def shifted (n count : Int64) : Int64 :=
  let amount := count.toInt.natAbs % 0x100000000
  if count < 0 then
    if 64 ≤ amount then if n < 0 then -1 else 0 else n >>> Int64.ofNat amount
  else if 64 ≤ amount then 0
  else n <<< Int64.ofNat amount

/-- A shift; the result is converted back to the kind of the number. -/
def shift (a b : Value) : StoreM Value := do
  if a.kind.isInteger && b.kind.isInteger then
    let n := shifted (a.asInt?.getD 0) (b.asInt?.getD 0)
    Value.coerce (.int n) (a.typeOf (← get))
  else refuse a b

/-! ## Comparison -/

/-- The order of two floating point numbers, unless one of them is none. -/
def compareFloats (x y : Float) : Option Ordering :=
  if x < y then some .lt else if y < x then some .gt else if x == y then some .eq else none

/-- The order of two values, if they have one. -/
def order? (a b : Value) : Option Ordering :=
  match a, b with
  | .string x, .string y => some (compare x y)
  | .bool x, .bool y => some (compare x y)
  | a, b =>
    if a.kind.isInteger && b.kind.isInteger then
      match a.asInt?, b.asInt? with
      | some x, some y => some (compare x.toInt y.toInt)
      | _, _ => none
    else if a.kind.isNumeric && b.kind.isNumeric then
      match a.asFloat?, b.asFloat? with
      | some x, some y => compareFloats x y
      | _, _ => none
    else none

/-- Whether the order of two values passes a test. -/
def ordered (test : Ordering → Bool) (a b : Value) : StoreM Value :=
  match order? a b with
  | some o => pure (.bool (test o))
  | none => refuse a b

end StackScript.Operator

namespace StackScript.Exec

/-- Replace two operands, brought to one kind, by a result. -/
def binary (f : Value → Value → StoreM Value) : Exec Unit := do
  let b ← popValue
  let a ← popValue
  let strictness ← ofContext Context.strictness
  let (a, b) ← (Operator.unify strictness a b : StoreM (Value × Value))
  push (← (f a b : StoreM Value))

/-- Replace two operands by whether they are equal, or not equal. -/
def equality (same : Bool) : Exec Unit :=
  binary fun a b => do pure (.bool (a.equal (← get) b == same))

/-- Replace two operands by a boolean made of whether they are true. -/
def logical (f : Bool → Bool → Bool) : Exec Unit := do
  let b ← popValue
  let a ← popValue
  push (.bool (f a.isTruthy b.isTruthy))

/-- Replace an operand by its opposite. -/
def negateTop : Exec Unit := do
  let v ← popValue
  push (← (Operator.negate v : StoreM Value))

/-- Shift the operand below the count. -/
def shiftBelow : Exec Unit := do
  let count ← popValue
  let v ← popValue
  push (← (Operator.shift v count : StoreM Value))

end StackScript.Exec
