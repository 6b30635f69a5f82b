import StackScript.Builtin.Method
import StackScript.Value.Copy
import StackScript.Text.Layout

/-!
# Builtins at the root

Lengths, growing and shrinking aggregates, making values, types, positions, closing channels,
sorting, launching functions, the keys of a range, and names at the root.

Main statements: `insertionSort_length` (sorting keeps every item).
-/
namespace StackScript.RootFn

/-- The length of a value. -/
def lengthOf (v : Value) : WorldM Value := do
  match v.length? (← getThe Store) with
  | some n => pure (.int (Int64.ofNat n))
  | none => NativeCall.refuseValue v

/-- A new array with items at the end of those of an array. -/
def appended (c : NativeCall) : WorldM Value := do
  let a : ArrayObject ← match c.arg 0 with
    | .array r => do pure ((← getThe Store).array r)
    | .nil => pure {}
    | v => NativeCall.refuseValue v
  let added ← (c.args.drop 1).mapM fun v => v.coerce a.element
  StoreM.array a.element (a.items ++ added.toArray)

/-- Remove a key of a map or a field of a struct. -/
def deleted (c : NativeCall) : WorldM Value := do
  match c.arg 0 with
  | .map r =>
    let _ ← r.delete (c.arg 1)
    pure .nil
  | .struct r =>
    r.delete ((c.arg 1).display (← getThe Store))
    pure .nil
  | v => NativeCall.refuseValue v

/-- The fields of a new instance: copies of the model's, or zero values where it has none. -/
def instanceFields (model : StructObject) : List (String × Ty) → StoreM (List (String × Value))
  | [] => pure []
  | (name, t) :: rest => do
    let v ← match Association.find? name model.fields with
      | some v => v.copy
      | none => Value.zero t
    pure ((name, v) :: (← instanceFields model rest))

/-- Copies of the fields that are no functions. -/
def copiedFields : List (String × Value) → StoreM (List (String × Value))
  | [] => pure []
  | (name, v) :: rest => do
    if v.isCallable then copiedFields rest
    else
      let v ← v.copy
      pure ((name, v) :: (← copiedFields rest))

/-- A new instance of the type that a struct is the model of. -/
def newInstance (r : StructRef) : StoreM Value := do
  let model := (← get).struct r
  let fields ← match model.fieldTypes with
    | some types => instanceFields model types
    | none => copiedFields model.fields
  StoreM.struct
    { typeName := model.typeName, fieldTypes := model.fieldTypes, fields := fields
      parent := some r }

/-- The zero value of a type, an instance of a struct type, or a copy. -/
def newValue (v : Value) : StoreM Value :=
  match v with
  | .type t => Value.zero t
  | .struct r => newInstance r
  | v => v.copy

/-- Zero values of a type, each of its own. -/
def zeros (t : Ty) : (count : Nat) → Array Value → StoreM (Array Value)
  | 0, done => pure done
  | count + 1, done => do zeros t count (done.push (← Value.zero t))

/-- An array, map or channel of a type. -/
def made (c : NativeCall) : WorldM Value := do
  match c.arg 0 with
  | .type t =>
    let size ← if 1 < c.args.length then c.int "make" 1 else pure 0
    if size < 0 then throw (.about .invalidIndex (Decimal.ofInt size.toInt))
    else
      let size := size.toInt.toNat
      match t.kind with
      | .array => do
        let items ← zeros t.elementType size #[]
        StoreM.array t.elementType items
      | .map => StoreM.map { keyType := t.keyType, valueType := t.elementType }
      | .channel => StoreM.channel t.elementType size
      | _ => Value.zero t
  | v => NativeCall.refuseValue v

/-- The place of a text in a text or of an item in an array, or whether a map has a key. -/
def position (c : NativeCall) : WorldM Value := do
  let s ← getThe Store
  let placed (n : Option Nat) : Value := .int ((n.map Int64.ofNat).getD (-1))
  match c.arg 0 with
  | .string text => pure (placed (Text.find? text ((c.arg 1).display s)))
  | .array r => pure (placed ((s.array r).items.findIdx? fun item => item.equal s (c.arg 1)))
  | .map r =>
    let found ← (r.contains (c.arg 1) : StoreM Bool)
    pure (.int (if found then 1 else -1))
  | v => NativeCall.refuseValue v

/-! ## Sorting -/

/-- Whether a value does not come before another one: texts and numbers by value, all else by its
text. -/
def inOrder (s : Store) (a b : Value) : Bool :=
  match a, b with
  | .string x, .string y => !(y < x)
  | a, b =>
    if a.kind.isNumeric && b.kind.isNumeric then
      match a.asFloat?, b.asFloat? with
      | some x, some y => !(y < x)
      | _, _ => true
    else !(b.display s < a.display s)

/-- Put a value after all those that it is in order with, from the end of a reversed list. -/
def insertReversed (le : Value → Value → Bool) (v : Value) : List Value → List Value
  | [] => [v]
  | x :: rest => if le x v then v :: x :: rest else x :: insertReversed le v rest

/-- Sort by insertion. -/
def insertionSort (le : Value → Value → Bool) (items : List Value) : List Value :=
  (items.foldl (fun done v => insertReversed le v done) []).reverse

/-- Lists up to this length are sorted by insertion. -/
def shortLength : Nat := 20

/-- Sort so that equal items keep their order. -/
def sortItems (s : Store) (items : List Value) : List Value :=
  if items.length ≤ shortLength then insertionSort (inOrder s) items
  else items.mergeSort (inOrder s)

/-- A sorted copy, by a given comparison or the order of the values. -/
def sorted (c : NativeCall) : WorldM Answer := do
  match c.arg 0 with
  | .array r =>
    let s ← getThe Store
    let a := s.array r
    match c.arg? 1 with
    | none =>
      let v ← (StoreM.array a.element (sortItems s a.items.toList).toArray : StoreM Value)
      pure (.value v)
    | some less =>
      let scope ← (fun w s =>
        let (r, s) := s.newBoundary c.caller "sort"
        ((.ok r, w), s) : WorldM TableRef)
      pure (.sort (.start less scope a.element a.items))
  | v => NativeCall.refuseValue v

/-! ## Functions and ranges -/

/-- Launch a function. -/
def launched (c : NativeCall) : WorldM Value := do
  let f := c.arg 0
  if !f.isCallable then
    throw (.about .invalidFunctionCall (f.typeName (← getThe Store)))
  else
    World.launch ⟨f, c.args.drop 1, c.receiver⟩
    pure .nil

/-- The numbers below a bound. -/
def indices (count : Nat) : Array Value := (Array.range count).map fun i => .int (Int64.ofNat i)

/-- What a loop over a value walks: places, keys, names of fields, or numbers. -/
def rangeKeysOf (v : Value) : WorldM Value := do
  let s ← getThe Store
  let keys : Array Value ← match v with
    | .array r => pure (indices (s.array r).items.size)
    | .string text => pure (indices text.length)
    | .map r => pure (s.map r).keys.toArray
    | .struct r => pure ((s.struct r).keys.map Value.string).toArray
    | .nil => pure #[]
    | v =>
      if v.kind.isInteger then pure (indices ((v.asInt?.getD 0).toInt.toNat))
      else throw (.about .invalidType (v.typeName s))
  StoreM.array .interface keys

/-- Store a value at the root. -/
def setAtRoot (c : NativeCall) : WorldM Value := do
  let name := (c.arg 0).display (← getThe Store)
  let root := (← getThe World).root
  modifyThe Store fun s => root.setAlways name (c.arg 1) s
  pure .nil

/-- A builtin at the root. -/
def run (f : RootFn) (c : NativeCall) : WorldM Answer := do
  match f with
  | .len => .value <$> lengthOf (c.arg 0)
  | .append => .value <$> appended c
  | .delete => .value <$> deleted c
  | .new => .value <$> (newValue (c.arg 0) : StoreM Value)
  | .make => .value <$> made c
  | .typeof => do pure (.value (.type ((c.arg 0).typeOf (← getThe Store))))
  | .index => .value <$> position c
  | .close =>
    match c.arg 0 with
    | .channel r => .value <$> (Method.closeChannel r : StoreM Value)
    | v => NativeCall.refuseValue v
  | .sort => sorted c
  | .go => .value <$> launched c
  | .rangeKeys => .value <$> rangeKeysOf (c.arg 0)
  | .setGlobal => .value <$> setAtRoot c

theorem length_insertReversed (le : Value → Value → Bool) (v : Value) (items : List Value) :
    (insertReversed le v items).length = items.length + 1 := by
  induction items with
  | nil => rfl
  | cons x rest ih => unfold insertReversed; split <;> simp [ih]

theorem insertionSort_length (le : Value → Value → Bool) (items : List Value) :
    (insertionSort le items).length = items.length := by
  have (done : List Value) :
      (items.foldl (fun done v => insertReversed le v done) done).length
        = done.length + items.length := by
    induction items generalizing done with
    | nil => rfl
    | cons x rest ih => simp [ih, length_insertReversed]; omega
  simp [insertionSort, this]

end StackScript.RootFn
