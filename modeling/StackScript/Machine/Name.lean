import StackScript.Machine.Context

/-!
# Instructions on names

Loading and storing under names, and opening and leaving tables of names.

Main statements: `createName_blank` (the blank name is never declared).
-/
namespace StackScript.Exec

/-- Push the value of a name. -/
def loadName (operand : Operand) : Exec Unit := do
  let name ← nameOf operand
  let v? : Option Value ← fun c w s => (((.ok (c.scope.get? s name false), c), w), s)
  match v? with
  | some v => push v
  | none => throw (.about .unknownIdentifier name)

/-- Store the top of the stack under a name. -/
def storeName (operand : Operand) : Exec Unit := do
  let name ← nameOf operand
  let v ← popValue
  let r ← scope
  (r.set name v : StoreM Unit)

/-- Open a table for the names of a block. -/
def openScope : Exec Unit := fun c w s =>
  let (r, s) := s.newChild c.scope "block"
  (((.ok (), { c with scope := r }), w), s)

/-- Leave some tables, at least one. A table without a parent is the last one that is left. -/
def leaveScopes : (count : Nat) → Exec Unit
  | 0 => pure ()
  | count + 1 => do
    let r ← scope
    match (← ofStore (·.table r)).parent with
    | some parent =>
      modifyContext fun c => { c with scope := parent }
      leaveScopes count
    | none => throw (.about .stackUnderflow "scope")

/-- Leave tables of blocks. -/
def closeScopes (operand : Operand) : Exec Unit := leaveScopes (max (countOf operand 1) 1)

/-- The name that stands for no variable. -/
def blank : String := "_"

/-- Declare a name in the current table. -/
def createName (operand : Operand) : Exec Unit := do
  let name ← nameOf operand
  if name = blank then pure ()
  else
    let r ← scope
    (r.create name : StoreM Unit)

/-- Remove a name from the current table. -/
def deleteName (operand : Operand) : Exec Unit := do
  let name ← nameOf operand
  let r ← scope
  (r.delete name true : StoreM Unit)

/-- Declare a constant in the current table. -/
def declareConstant (operand : Operand) : Exec Unit := do
  let name ← nameOf operand
  let v ← popValue
  let r ← scope
  (r.setConstant name v : StoreM Unit)

/-- Bind the fields of a struct in the current table. -/
def explode : Exec Unit := do
  match ← popValue with
  | .struct r =>
    let o ← ofStore (·.struct r)
    let table ← scope
    modifyStore fun s => o.keys.foldl (fun s k =>
      match Association.find? k o.fields with
      | some v => table.setAlways k v s
      | none => s) s
  | v => wrongType v

theorem createName_blank : createName (.name blank) = pure () := rfl

end StackScript.Exec
