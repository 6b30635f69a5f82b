import StackScript.Builtin.Call
import StackScript.Json.Read

/-!
# The package of JSON

Values become JSON and back: structs and maps become objects, objects become structs without a
type.

Main statements: `ofJson_null`.
-/
namespace StackScript.JsonFn

/-- The members of an object, the value of each made by `part`. -/
def membersOf (part : Value → StoreM JsonValue) (fields : List (String × Value)) :
    StoreM JsonValue := do
  let members ← fields.mapM fun (name, v) => do pure (name, ← part v)
  pure (.ofMembers members)

/-- A floating point number in JSON, which has no infinities. -/
def fractionOf (x : Float) : StoreM JsonValue :=
  if x.isFinite then pure (.fraction x)
  else throw (.about .invalidConversion (Decimal.ofFloat x))

/-- A value in JSON, its parts nested at most `depth` deep. -/
def toJsonTo : (depth : Nat) → Value → StoreM JsonValue
  | 0, _ => pure .null
  | depth + 1, v => do
    let s ← get
    match v with
    | .nil => pure .null
    | .bool b => pure (.bool b)
    | .float32 x => fractionOf x.toFloat
    | .float64 x => fractionOf x
    | .string text => pure (.string text)
    | .array r => do pure (.array (← (s.array r).items.toList.mapM (toJsonTo depth)))
    | .struct r =>
      let o := s.struct r
      membersOf (toJsonTo depth)
        (o.keys.filterMap fun k => (Association.find? k o.fields).map fun v => (k, v))
    | .map r =>
      membersOf (toJsonTo depth) ((s.map r).entries.map fun (k, v) => (k.display, v))
    | .error f => pure (.string f.message)
    | .marker _ => throw (.of .voidReturn)
    | v =>
      if v.kind.isInteger then pure (.whole ((v.asInt?.getD 0).toInt))
      else pure (.string (v.display s))

/-- A value in JSON. -/
def toJson (v : Value) : StoreM JsonValue := do toJsonTo ((← get).objectCount + 2) v

mutual
/-- The value of a text in JSON. Whole numbers of 64 bits with a sign are whole, all others are
doubles. -/
def ofJson : JsonValue → StoreM Value
  | .null => pure .nil
  | .bool b => pure (.bool b)
  | .whole n =>
    if n ≤ Decimal.greatestInt64 then pure (.int (Int64.ofInt n))
    else pure (.float64 (Float.ofInt n))
  | .fraction x => pure (.float64 x)
  | .string text => pure (.string text)
  | .array items => do StoreM.array .interface (← ofJsonItems items).toArray
  | .object members => do StoreM.struct { fields := ← ofJsonMembers members }

/-- The values of items. -/
def ofJsonItems : List JsonValue → StoreM (List Value)
  | [] => pure []
  | item :: rest => do
    let v ← ofJson item
    pure (v :: (← ofJsonItems rest))

/-- The values of members. -/
def ofJsonMembers : List (String × JsonValue) → StoreM (List (String × Value))
  | [] => pure []
  | (name, item) :: rest => do
    let v ← ofJson item
    pure ((name, v) :: (← ofJsonMembers rest))
end

theorem ofJson_null : ofJson .null = pure .nil := by simp [ofJson]

/-- The value of a text, converted to a type if one is given. -/
def unmarshalled (c : NativeCall) : WorldM Value := do
  match JsonReader.read (← c.text 0) with
  | .error f => throw f
  | .ok json =>
    let v ← (ofJson json : StoreM Value)
    match c.arg? 1 with
    | some (.type t) => v.coerce t
    | some other => NativeCall.refuseValue other
    | none => pure v

/-- A function of the package. -/
def run (f : JsonFn) (c : NativeCall) : WorldM Value := do
  match f with
  | .marshal =>
    let json ← (toJson (c.arg 0) : StoreM JsonValue)
    pure (.string (if (c.arg 1).isTruthy then json.prettyText else json.text))
  | .unmarshal => unmarshalled c

end StackScript.JsonFn
