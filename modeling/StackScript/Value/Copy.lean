import StackScript.Value.Display

/-!
# Copies, zero values and equality

A deep copy has objects of its own for every array, struct and map that is reached through items,
fields and entries; parents of structs, channels, wait groups and mutexes stay shared. The zero
value of a type with parts is a new object.

Aggregates are equal when they are one object or hold equal parts, maps and structs whatever the
order of their parts. Numbers of different kinds are compared by value. Functions, channels, wait
groups and mutexes are equal only to themselves, errors by their messages.

Main statements: `copyTo_scalar` (what refers to no aggregate is its own copy), `equal_nil` and
`equal_function` (a function equals its captured copies).
-/
namespace StackScript.Value

/-- Copy the values of an association in order. -/
def copyEntries {α : Type} (copy : Value → StoreM Value) :
    List (α × Value) → StoreM (List (α × Value))
  | [] => pure []
  | (k, v) :: rest => do
    let v ← copy v
    let rest ← copyEntries copy rest
    pure ((k, v) :: rest)

/-- A deep copy, at most `depth` deep; what lies deeper stays shared. -/
def copyTo : (depth : Nat) → Value → StoreM Value
  | 0, v => pure v
  | depth + 1, v =>
    match v with
    | array r => do
      let a := (← get).array r
      let items ← a.items.mapM (copyTo depth)
      StoreM.array a.element items
    | struct r => do
      let o := (← get).struct r
      let fields ← copyEntries (copyTo depth) o.fields
      StoreM.struct { o with fields := fields }
    | map r => do
      let m := (← get).map r
      let entries ← copyEntries (copyTo depth) m.entries
      StoreM.map { keyType := m.keyType, valueType := m.valueType, entries := entries }
    | v => pure v

/-- A copy that shares no array, struct or map with the original. -/
def copy (v : Value) : StoreM Value := do
  copyTo ((← get).objectCount + 1) v

mutual
/-- The zero value of a type; `name` is the name the type was declared under. -/
def zeroNamed (name : Option String) : Ty → StoreM Value
  | .named n t => zeroNamed (name.or (some n)) t
  | .array e => StoreM.array e #[]
  | .map k v => StoreM.map { keyType := k, valueType := v }
  | .struct fields => do
    let values ← zeroFields fields
    StoreM.struct
      { typeName := name, fields := Association.ofList values
        fieldTypes := some (Association.ofList fields) }
  | .plain .bool => pure (bool false)
  | .plain .byte => pure (byte 0)
  | .plain .int32 => pure (int32 0)
  | .plain .int => pure (int 0)
  | .plain .int64 => pure (int64 0)
  | .plain .float32 => pure (float32 0)
  | .plain .float64 => pure (float64 0)
  | .plain .string => pure (string "")
  | .plain .array => StoreM.array .interface #[]
  | .plain .map => StoreM.map {}
  | .plain .struct => StoreM.struct { typeName := name }
  | .plain .waitGroup => StoreM.waitGroup
  | .plain .mutex => StoreM.mutex
  | _ => pure nil

/-- The zero values of declared fields. -/
def zeroFields : List (String × Ty) → StoreM (List (String × Value))
  | [] => pure []
  | (n, t) :: rest => do
    let v ← zeroNamed none t
    let rest ← zeroFields rest
    pure ((n, v) :: rest)
end

/-- The zero value of a type. -/
def zero (t : Ty) : StoreM Value := zeroNamed none t

/-- The zero value of a scalar kind, which is no object. -/
def zeroScalar : Kind → Value
  | .bool => bool false
  | .byte => byte 0
  | .int32 => int32 0
  | .int => int 0
  | .int64 => int64 0
  | .float32 => float32 0
  | .float64 => float64 0
  | .string => string ""
  | _ => nil

theorem copyTo_scalar (depth : Nat) {v : Value} (h : v.kind.isScalar = true) :
    copyTo depth v = pure v := by
  cases depth with
  | zero => rfl
  | succ n => cases v <;> simp_all [copyTo, kind, Kind.isScalar, Kind.rank]

/-! ## Equality -/

/-- Whether two numbers are equal: whole numbers as such, others as floating point numbers. -/
def numbersEqual (a b : Value) : Bool :=
  if a.kind.isInteger && b.kind.isInteger then a.asInt? == b.asInt?
  else
    match a.asFloat?, b.asFloat? with
    | some x, some y => x == y
    | none, none => true
    | _, _ => false

/-- Whether two lists of parts have one length and equal parts at each place. -/
def allEqual (equal : Value → Value → Bool) (xs ys : List Value) : Bool :=
  xs.length == ys.length && (xs.zip ys).all fun (x, y) => equal x y

/-- Whether two associations have one size and equal values under every key. -/
def sameEntries {α : Type} [BEq α] (equal : Value → Value → Bool) (xs ys : List (α × Value)) :
    Bool :=
  xs.length == ys.length &&
    xs.all fun (k, v) =>
      match Association.find? k ys with
      | some w => equal v w
      | none => false

/-- Whether two values are equal, looking into parts at most `depth` deep. -/
def equalTo (s : Store) : (depth : Nat) → Value → Value → Bool
  | 0, _, _ => false
  | depth + 1, a, b =>
    match a, b with
    | nil, nil => true
    | bool x, bool y => x == y
    | string x, string y => x == y
    | array x, array y =>
      x == y || allEqual (equalTo s depth) (s.array x).items.toList (s.array y).items.toList
    | struct x, struct y =>
      x == y || sameEntries (equalTo s depth) (s.struct x).fields (s.struct y).fields
    | map x, map y => x == y || sameEntries (equalTo s depth) (s.map x).entries (s.map y).entries
    | function x _, function y _ => x == y
    | native x, native y => x == y
    | channel x, channel y => x == y
    | waitGroup x, waitGroup y => x == y
    | mutex x, mutex y => x == y
    | error x, error y => x.message == y.message
    | type x, type y => x == y
    | marker x, marker y => x == y
    | a, b => a.kind.isNumeric && b.kind.isNumeric && numbersEqual a b

/-- Whether two values are equal. -/
def equal (s : Store) (a b : Value) : Bool := equalTo s (s.objectCount + 1) a b

theorem equal_nil (s : Store) : equal s nil nil = true := rfl

theorem equal_function (s : Store) (code : CodeRef) (p q : Option TableRef) :
    equal s (function code p) (function code q) = true := by
  simp [equal, equalTo]

end StackScript.Value
