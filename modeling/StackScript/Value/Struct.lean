import StackScript.Value.Coercion

/-!
# Structs

Programs read and write what a struct knows of itself through four reserved names: its type, its
parent, and whether it is readonly or the model of its type. Other names are fields; a struct
with declared fields converts what is stored and takes no other field, unless it is a model.

Main statements: `get?_reserved` (the reserved names are never fields).
-/
namespace StackScript

/-- What the reserved names of a struct stand for. -/
inductive Reserved where
  | type
  | parent
  | readonly
  | isStatic
deriving Repr, DecidableEq

namespace Reserved

/-- The name under which programs reach it. -/
def name : Reserved → String
  | type => "__type"
  | parent => "__parent"
  | readonly => "__readonly"
  | isStatic => "__static"

/-- The reserved name of a text. -/
def ofName? : String → Option Reserved
  | "__type" => some type
  | "__parent" => some parent
  | "__readonly" => some readonly
  | "__static" => some isStatic
  | _ => none

theorem ofName?_name (r : Reserved) : ofName? r.name = some r := by cases r <;> rfl

end Reserved

namespace StructObject

/-- What a reserved name reads as. -/
def reserved? (o : StructObject) : Reserved → Option Value
  | .type => some (.string (o.typeName.getD "struct"))
  | .parent => o.parent.map .struct
  | .readonly => some (.bool o.readonly)
  | .isStatic => some (.bool o.isStatic)

/-- A field or a reserved name of this struct itself. -/
def get? (o : StructObject) (name : String) : Option Value :=
  match Reserved.ofName? name with
  | some r => o.reserved? r
  | none => Association.find? name o.fields

/-- This struct with the fields of another one stored over its own. -/
def merge (o other : StructObject) : StructObject :=
  { o with
    readonly := false
    fields := other.fields.foldl (fun fs f => Association.insert f.1 f.2 fs) o.fields }

/-- The empty struct that stands for a package. -/
def ofPackage (name : String) : StructObject := { package := some name, readonly := true }

theorem get?_reserved (o : StructObject) (r : Reserved) : o.get? r.name = o.reserved? r := by
  simp [get?, Reserved.ofName?_name]

end StructObject

namespace StructRef

/-- A field of the nearest of a chain of parents that has it, `bound` of them looked at. -/
def findAbove (s : Store) (name : String) : (bound : Nat) → Option StructRef → Option Value
  | 0, _ | _, none => none
  | bound + 1, some r =>
    match Association.find? name (s.struct r).fields with
    | some v => some v
    | none => findAbove s name bound (s.struct r).parent

/-- A field of a struct or else of its parents. -/
def getInherited? (s : Store) (o : StructObject) (name : String) : Option Value :=
  (o.get? name).or (findAbove s name (s.structs.size + 1) o.parent)

/-- Convert a value to the declared type of a field. -/
def conformField (o : StructObject) (name : String) (v : Value) : StoreM Value :=
  match o.fieldTypes with
  | none => pure v
  | some types =>
    match Association.find? name types with
    | some t => Value.coerce v t
    | none => if o.isStatic then pure v else throw (.about .invalidField name)

/-- Store under a reserved name that a readonly struct refuses, or under a field. -/
def setGuarded (o : StructObject) (name : String) (v : Value) : StoreM StructObject :=
  match Reserved.ofName? name with
  | some .type => do pure { o with typeName := some (v.display (← get)) }
  | some .parent =>
    match v with
    | .struct p => pure { o with parent := some p }
    | .nil => pure { o with parent := none }
    | _ => throw (.about .invalidType Reserved.parent.name)
  | _ => do
    let v ← conformField o name v
    pure { o with fields := Association.insert name v o.fields }

/-- A struct after storing a value under a name. -/
def stored (o : StructObject) (name : String) (v : Value) : StoreM StructObject :=
  match Reserved.ofName? name with
  | some .readonly => pure { o with readonly := v.isTruthy }
  | some .isStatic => pure { o with isStatic := v.isTruthy }
  | _ => if o.readonly then throw (.about .readOnly name) else setGuarded o name v

/-- Store a value under a name. -/
def set (r : StructRef) (name : String) (v : Value) : StoreM Unit := do
  let o ← stored ((← get).struct r) name v
  modify fun s => s.modifyStruct r fun _ => o

/-- Remove a field, whatever its name. -/
def delete (r : StructRef) (name : String) : StoreM Unit := do
  if ((← get).struct r).readonly then throw (.about .readOnly name)
  else modify fun s => s.modifyStruct r fun o => { o with fields := Association.erase name o.fields }

end StructRef

end StackScript
