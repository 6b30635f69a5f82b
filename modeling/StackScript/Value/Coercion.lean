import StackScript.Value.Copy
import StackScript.Text.Bytes
import StackScript.Decimal.Read

/-!
# Conversions

A value is converted to a type the way a cast does it. Scalars convert among each other where
their texts or numbers allow it; arrays and maps are converted part by part into new objects
unless their types already agree; everything has the empty interface. A marker is no value.

Main statements: `coerce_interface` (the interface takes every value as it is) and
`promote_same` (operands of one kind are left alone).
-/
namespace StackScript.Value

/-- The fault of a conversion that does not exist. -/
def conversionFault (v : Value) (target : Ty) : StoreM Value := do
  throw (.about .invalidConversion (v.typeName (← get) ++ " to " ++ target.display))

/-- The low byte of a whole number. -/
def lowByte (n : Int64) : UInt8 := n.toUInt64.toUInt8

/-- A value as text. -/
def toText (v : Value) : StoreM Value := do
  let s ← get
  match v with
  | array r =>
    let a := s.array r
    if a.element.kind == .byte then
      pure (string (Text.ofBytes (a.items.toList.filterMap fun i => i.asInt?.map lowByte)))
    else pure (string (v.display s))
  | v => pure (string (v.display s))

/-- A value as a boolean. -/
def toBool (v : Value) : StoreM Value :=
  match v with
  | string text =>
    match Text.trim text with
    | "true" => pure (bool true)
    | "false" => pure (bool false)
    | _ => conversionFault v (.plain .bool)
  | v => if v.kind.isNumeric then pure (bool v.isTruthy) else conversionFault v (.plain .bool)

/-- A value as a floating point number of a kind. -/
def toFloating (kind : Kind) (v : Value) : StoreM Value :=
  let number :=
    match v with
    | string text => Decimal.readFloat (Text.trim text)
    | v => v.asFloat?
  match number with
  | some x => pure (if kind == .float32 then float32 x.toFloat32 else float64 x)
  | none => conversionFault v (.plain kind)

/-- A whole number in one of the integer kinds, its high bits dropped. -/
def ofInteger (kind : Kind) (n : Int64) : Value :=
  match kind with
  | .byte => byte (lowByte n)
  | .int32 => int32 n.toInt32
  | .int64 => int64 n
  | _ => int n

/-- A value as a whole number of a kind. -/
def toInteger (kind : Kind) (v : Value) : StoreM Value :=
  let number :=
    match v with
    | string text =>
      let text := Text.trim text
      (Decimal.readInt64 text).or ((Decimal.readFloat text).map Float.toInt64)
    | v => v.asInt?
  match number with
  | some n => pure (ofInteger kind n)
  | none => conversionFault v (.plain kind)

/-- A value as a scalar of a kind. -/
def coerceScalar (kind : Kind) (v : Value) : StoreM Value :=
  if v.kind == kind then pure v
  else if v.isNil then pure (zeroScalar kind)
  else if kind == .string then toText v
  else if kind == .bool then toBool v
  else if kind.isFloat then toFloating kind v
  else toInteger kind v

/-- The key that a converted value stands for. -/
def keyOf (v : Value) : StoreM MapKey := do
  match MapKey.ofValue? v with
  | some key => pure key
  | none => throw (.about .invalidType (v.typeName (← get)))

/-- Convert keys and values one entry after the other, later entries overwriting earlier ones
whose keys became the same. -/
def coerceEntries (toKey toItem : Value → StoreM Value) :
    List (Value × Value) → List (MapKey × Value) → StoreM (List (MapKey × Value))
  | [], done => pure done
  | (k, v) :: rest, done => do
    let key ← keyOf (← toKey k)
    let item ← toItem v
    coerceEntries toKey toItem rest (Association.insert key item done)

/-- Convert a map or a struct to a map of given types, whose conversions are given too. -/
def coerceToMap (whole keyType valueType : Ty) (toKey toItem : Value → StoreM Value) (v : Value) :
    StoreM Value := do
  let s ← get
  match v with
  | nil => zero whole
  | map r =>
    let m := s.map r
    if m.keyType == keyType && m.valueType == valueType then pure v
    else
      let entries := m.entries.map fun (k, v) => (k.toValue m.keyType, v)
      let entries ← coerceEntries toKey toItem entries []
      StoreM.map { keyType := keyType, valueType := valueType, entries := entries }
  | struct r =>
    let o := s.struct r
    let fields := o.keys.filterMap fun k => (Association.find? k o.fields).map (string k, ·)
    let entries ← coerceEntries toKey toItem fields []
    StoreM.map { keyType := keyType, valueType := valueType, entries := entries }
  | v => conversionFault v whole

/-- Convert a struct or a map to a struct; only entries under texts become fields. -/
def coerceToStruct (whole : Ty) (v : Value) : StoreM Value := do
  match v with
  | nil => zero whole
  | struct _ => pure v
  | map r =>
    let m := (← get).map r
    StoreM.struct
      { fields := m.entries.filterMap fun (k, v) =>
          match k with
          | .string name => some (name, v)
          | _ => none }
  | v => conversionFault v whole

/-- Convert to a kind that has no parts here. -/
def coerceToKind (whole : Ty) (kind : Kind) (v : Value) : StoreM Value :=
  match kind, v with
  | _, nil => zero whole
  | .error, string text => pure (error (.native text))
  | kind, v => if v.kind == kind then pure v else conversionFault v whole

/-- A value as it is, unless it is a marker. -/
def unchanged (v : Value) : StoreM Value :=
  if v.isMarker then throw (.of .voidReturn) else pure v

/-- Convert to a type, `whole` being the type as it was named. -/
def coerceAs (whole : Ty) (t : Ty) (v : Value) : StoreM Value :=
  if v.isMarker then throw (.of .voidReturn)
  else
    match t with
    | .named _ t => coerceAs whole t v
    | .pointer _ => pure v
    | .array element =>
      match v with
      | nil => zero whole
      | array r => do
        let a := (← get).array r
        if element.isInterface || a.element == element then pure v
        else
          let items ← a.items.mapM (coerceAs element element)
          StoreM.array element items
      | string text =>
        if element.kind == .byte then
          StoreM.array (.plain .byte) ((Text.bytes text).map byte).toArray
        else conversionFault v whole
      | v => conversionFault v whole
    | .map key value =>
      coerceToMap whole key value (coerceAs key key) (coerceAs value value) v
    | .struct _ => coerceToStruct whole v
    | .channel _ => coerceToKind whole .channel v
    | .plain kind =>
      if kind == .interface || kind == .pointer then pure v
      else if kind.isScalar then coerceScalar kind v
      else if kind == .map then coerceToMap whole .interface .interface unchanged unchanged v
      else if kind == .struct then coerceToStruct whole v
      else coerceToKind whole kind v

/-- Convert a value to a type. -/
def coerce (v : Value) (target : Ty) : StoreM Value := coerceAs target target v

/-- Bring two scalars to the wider of their kinds; other operands are left alone. -/
def promote (a b : Value) : StoreM (Value × Value) :=
  if a.kind == b.kind || !a.kind.isScalar || !b.kind.isScalar then pure (a, b)
  else do
    let target := Ty.plain (a.kind.wider b.kind)
    let a ← coerce a target
    let b ← coerce b target
    pure (a, b)

theorem coerce_interface {v : Value} (h : v.isMarker = false) : coerce v .interface = pure v := by
  simp [coerce, coerceAs, h]

theorem promote_same {a b : Value} (h : a.kind = b.kind) : promote a b = pure (a, b) := by
  simp [promote, h]

end StackScript.Value
