import StackScript.Value.Coercion

/-!
# Maps

Keys and values are converted to the declared types on the way in. A missing key reads as the
zero value of the value type.

Main statements: `set_readonly` (a readonly map is never changed).
-/
namespace StackScript.MapRef

/-- The key of a map that a value stands for. -/
def key (r : MapRef) (k : Value) : StoreM MapKey := do
  let m := (← get).map r
  Value.keyOf (← Value.coerce k m.keyType)

/-- The value under a key. -/
def find (r : MapRef) (k : Value) : StoreM Value := do
  let key ← r.key k
  let m := (← get).map r
  match Association.find? key m.entries with
  | some v => pure v
  | none => Value.zero m.valueType

/-- Whether a key is present; what is no key is not. -/
def contains (r : MapRef) (k : Value) : StoreM Bool := do
  try
    let key ← r.key k
    pure (Association.has key ((← get).map r).entries)
  catch _ => pure false

/-- The fault of changing a readonly map. -/
def refuse (k : Value) : StoreM Unit := do
  throw (.about .readOnly (k.display (← get)))

/-- Store a value under a key. -/
def set (r : MapRef) (k v : Value) : StoreM Unit := do
  let m := (← get).map r
  if m.readonly then refuse k
  else
    let key ← r.key k
    let v ← Value.coerce v m.valueType
    modify fun s => s.modifyMap r fun m => { m with entries := Association.insert key v m.entries }

/-- Remove a key; whether it was present. -/
def delete (r : MapRef) (k : Value) : StoreM Bool := do
  let m := (← get).map r
  if m.readonly then
    refuse k
    pure false
  else
    let key ← r.key k
    modify fun s => s.modifyMap r fun m => { m with entries := Association.erase key m.entries }
    pure (Association.has key m.entries)

theorem set_readonly (r : MapRef) (k v : Value) (s : Store) (h : (s.map r).readonly = true) :
    (r.set k v).run s = (.error (.about .readOnly (k.display s)), s) := by
  simp [set, refuse, h, bind, ExceptT.bind, ExceptT.mk, ExceptT.bindCont, ExceptT.run, StateT.bind,
    get, getThe, MonadStateOf.get, liftM, monadLift, MonadLift.monadLift, ExceptT.lift,
    StateT.get, Functor.map, StateT.map, throw, throwThe, MonadExceptOf.throw, pure]
  rfl

end StackScript.MapRef
