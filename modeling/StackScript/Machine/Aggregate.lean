import StackScript.Machine.Context
import StackScript.Value.Map
import StackScript.Value.Struct

/-!
# Instructions on aggregates

Indexing, slices, members, and building arrays, maps and structs from the values on the stack.

Main statements: `indexIn_lt` (an accepted index lies in the array).
-/
namespace StackScript.Aggregate

/-! ## Indices -/

/-- The place in a sequence that a value stands for. -/
def indexIn (v : Value) (size : Nat) (s : Store) : Except Fault Nat :=
  match if v.kind.isInteger then v.asInt? else none with
  | none => .error (.about .invalidIndex (v.typeName s))
  | some n =>
    if n.toInt < 0 ∨ size ≤ n.toInt.toNat then
      .error (.about .invalidIndex (Decimal.ofInt n.toInt))
    else .ok n.toInt.toNat

theorem indexIn_lt {v : Value} {size i : Nat} {s : Store} (h : indexIn v size s = .ok i) :
    i < size := by
  unfold indexIn at h
  split at h
  · cases h
  · split at h
    · cases h
    · injection h with h; omega

/-- The place in a sequence that a value stands for, or its fault. -/
def place (v : Value) (size : Nat) : StoreM Nat := fun s => (indexIn v size s, s)

/-- A character as a number: a byte if it fits, else a wider one. -/
def charValue (c : Char) : Value :=
  if c.toNat < 256 then .byte c.toNat.toUInt8 else .int32 (Int32.ofNat c.toNat)

/-- A part of a value under an index. -/
def item (container index : Value) : StoreM Value := do
  match container with
  | .array r =>
    let items := ((← get).array r).items
    pure (items.getD (← place index items.size) .nil)
  | .string text =>
    let chars := text.toList
    pure (charValue (chars.getD (← place index chars.length) ' '))
  | .map r => r.find index
  | .struct r =>
    let s ← get
    let key := index.display s
    match StructRef.getInherited? s (s.struct r) key with
    | some v => pure v
    | none => throw (.about .invalidField key)
  | v => throw (.about .invalidType (v.typeName (← get)))

/-- Store a part of a value under an index. -/
def setItem (container index v : Value) : StoreM Unit := do
  match container with
  | .array r =>
    let (readonly, size, element) : Bool × Nat × Ty ← fun s =>
      let a := s.array r
      (.ok (a.readonly, a.items.size, a.element), s)
    if readonly then throw (.about .readOnly (index.display (← get)))
    else
      let i ← place index size
      let v ← v.coerce element
      modify fun s => s.modifyArray r fun a => { a with items := a.items.setIfInBounds i v }
  | .map r => r.set index v
  | .struct r => r.set (index.display (← get)) v
  | v => throw (.about .invalidType (v.typeName (← get)))

/-! ## Slices -/

/-- A bound of a slice of a sequence. -/
def bound? (v : Value) (size : Nat) : Option Nat :=
  match v.asInt? with
  | some n => if 0 ≤ n.toInt ∧ n.toInt.toNat ≤ size then some n.toInt.toNat else none
  | none => none

/-- The bounds of a slice of a sequence, the lower one first. -/
def bounds? (lo hi : Value) (size : Nat) : Option (Nat × Nat) :=
  match bound? lo size, bound? hi size with
  | some lo, some hi => if lo ≤ hi then some (lo, hi) else none
  | _, _ => none

/-- The fault of bounds outside a sequence. -/
def sliceFault (s : Store) (lo hi : Value) : Fault :=
  .about .invalidSlice ("[" ++ lo.display s ++ ":" ++ hi.display s ++ "]")

/-- Part of an array or of a text. -/
def slice (container lo hi : Value) : StoreM Value := do
  let s ← get
  match container.length? s with
  | none => throw (.about .invalidType (container.typeName s))
  | some size =>
    match bounds? lo hi size with
    | none => throw (sliceFault s lo hi)
    | some (lo, hi) =>
      match container with
      | .array r => StoreM.array (s.array r).element ((s.array r).items.extract lo hi)
      | .string text => pure (.string (String.ofList ((text.toList.drop lo).take (hi - lo))))
      | v => throw (.about .invalidType (v.typeName s))

/-! ## Members -/

/-- A named field of a struct: its own, or one of its parents that is a method or, where fields
are inherited, any. -/
def field? (s : Store) (r : StructRef) (name : String) (inherited : Bool) : Option Value :=
  let o := s.struct r
  match o.get? name with
  | some v => some v
  | none => (StructRef.getInherited? s o name).filter fun v => inherited || v.isCallable

/-- A named part of a value: a field, an entry, or a method of its kind. -/
def member (v : Value) (name : String) (inherited : Bool) : StoreM Value := do
  let found : Option Value ← match v with
    | .struct r => do pure (field? (← get) r name inherited)
    | .map r => some <$> r.find (.string name)
    | _ => pure none
  match found.or ((Native.method? v.kind name).map Value.native) with
  | some v => pure v
  | none => throw (.about .invalidField name)

/-! ## Building -/

/-- Consecutive values as pairs. -/
def pairs : List Value → List (Value × Value)
  | k :: v :: rest => (k, v) :: pairs rest
  | _ => []

/-- A new array of copies. -/
def copies (v : Value) : (count : Nat) → Array Value → StoreM (Array Value)
  | 0, done => pure done
  | count + 1, done => do copies v count (done.push (← v.copy))

/-- A new map of a type with some entries. -/
def mapOf (t : Ty) (entries : List (Value × Value)) : StoreM Value := do
  let v ← StoreM.map { keyType := t.keyType, valueType := t.elementType }
  if let .map r := v then
    for (k, v) in entries do
      r.set k v
  pure v

/-- The struct of a package with some fields. -/
def packageOf (name : String) (entries : List (Value × Value)) : StoreM Value := do
  let s ← get
  let o := StructObject.ofPackage name
  StoreM.struct
    { o with
      fields := entries.foldl (fun fs (k, v) => Association.insert (k.display s) v fs) o.fields }

/-- A new struct without a type with some fields. -/
def structOf (entries : List (Value × Value)) : StoreM Value := do
  let o ← entries.foldlM (fun (o : StructObject) (k, v) => do
    StructRef.stored o (k.display (← get)) v) {}
  StoreM.struct o

end StackScript.Aggregate

namespace StackScript.Exec

/-- The type that an operand holds. -/
def typeOf (operand : Operand) : Exec Ty :=
  match operand with
  | .value (.type t) => pure t
  | operand => wrongOperand .invalidTypeSpec operand

/-- Replace a container and an index by the part. -/
def loadIndex : Exec Unit := do
  let index ← popValue
  let container ← popValue
  push (← (Aggregate.item container index : StoreM Value))

/-- Store a value under an index of a container, which stays on the stack. -/
def storeIndex : Exec Unit := do
  let v ← popValue
  let index ← popValue
  let container ← popValue
  (Aggregate.setItem container index v : StoreM Unit)
  push container

/-- Replace a container and two bounds by the slice. -/
def loadSlice : Exec Unit := do
  let hi ← popValue
  let lo ← popValue
  let container ← popValue
  push (← (Aggregate.slice container lo hi : StoreM Value))

/-- Replace a value by a named part of it. -/
def loadMember (operand : Operand) (inherited : Bool) : Exec Unit := do
  let name ← nameOf operand
  let v ← popValue
  push (← (Aggregate.member v name inherited : StoreM Value))

/-- The count of an operand, which may have a second part. -/
def countAndPart (operand : Operand) : Nat × Option Operand :=
  match operand with
  | .tuple items => (countOf (items.headD .none) 0, items[1]?)
  | operand => (countOf operand 0, none)

/-- Pack values into an array, of a type if one is given. -/
def packArray (operand : Operand) : Exec Unit := do
  let (count, part) := countAndPart operand
  match part with
  | some part =>
    let element ← typeOf part
    let items ← popValues count
    let items ← (items.mapM (Value.coerce · element) : StoreM (List Value))
    push (← (StoreM.array element items.toArray : StoreM Value))
  | none =>
    let items ← popValues count
    push (← (StoreM.array .interface items.toArray : StoreM Value))

/-- Replace a size, with what to fill it by above if the operand is two, by an array. -/
def makeArray (operand : Operand) : Exec Unit := do
  let fill ← if operand.asInt? = some 2 then popValue else pure .nil
  let size ← popValue
  match if size.kind.isInteger then size.asInt? else none with
  | some n =>
    if n.toInt < 0 then throw (.about .invalidIndex (Decimal.ofInt n.toInt))
    else
      let items ← (Aggregate.copies fill n.toInt.toNat #[] : StoreM (Array Value))
      push (← (StoreM.array .interface items : StoreM Value))
  | none => throw (.about .invalidIndex (← ofStore size.display))

/-- Pack pairs of names and values into a struct, or into a map or a package. -/
def packStruct (operand : Operand) : Exec Unit := do
  let (count, part) := countAndPart operand
  let entries := Aggregate.pairs (← popValues (count * 2))
  push (← match part with
    | some (.value (.type t)) => (Aggregate.mapOf t entries : StoreM Value)
    | some (.name package) => (Aggregate.packageOf package entries : StoreM Value)
    | _ => (Aggregate.structOf entries : StoreM Value))

/-- Convert the top of the stack to a type. -/
def coerceTop (operand : Operand) : Exec Unit := do
  let t ← typeOf operand
  let v ← popValue
  push (← (v.coerce t : StoreM Value))

end StackScript.Exec
