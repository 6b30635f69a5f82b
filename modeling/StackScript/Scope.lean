import StackScript.Value.Copy

/-!
# Scopes

Tables of names form a tree below a root. A lookup goes from a table through its parents; at a
boundary it skips to the root, unless the whole scope is asked for. A name is declared before its
first value is stored; one that starts with an underscore becomes constant with that value.

Main statements: `find?_of_binds` (a table's own names are found there) and
`setAlways_getLocal` (what was stored is read back).
-/
namespace StackScript

/-- Whether stores to a name are refused. -/
def Binding.locked (b : Binding) : Bool := b.bound && (b.readonly || b.constant)

/-- Whether a name becomes constant with its first value. -/
def isPrivate (name : String) : Bool := Text.startsWith name "_"

namespace Table

/-- Whether a table has a name of its own. -/
def binds (t : Table) (name : String) : Bool := Association.has name t.bindings

/-- The binding of a table's own name. -/
def binding? (t : Table) (name : String) : Option Binding := Association.find? name t.bindings

/-- The table that is looked at after this one. -/
def next (t : Table) (full : Bool) : Option TableRef :=
  if t.boundary && !full then t.root else t.parent

/-- The table's own names in ascending order. -/
def names (t : Table) : List String := sortNames (Association.keys t.bindings)

/-- Whether this is a root. -/
def isRoot (t : Table) : Bool := t.root.isNone

/-- Change or add a binding. -/
def bind (t : Table) (name : String) (b : Binding) : Table :=
  { t with bindings := Association.insert name b t.bindings }

end Table

namespace Store

/-- Add a root table. -/
def newRoot (s : Store) (name : String) : TableRef × Store := s.newTable { name := name }

/-- Add a table below another one. -/
def newBelow (s : Store) (parent : TableRef) (name : String) (boundary : Bool) :
    TableRef × Store :=
  s.newTable
    { name := name, parent := some parent
      root := some ((s.table parent).root.getD parent), boundary := boundary }

/-- Add a table whose lookups go on in its parent. -/
def newChild (s : Store) (parent : TableRef) (name : String) : TableRef × Store :=
  s.newBelow parent name false

/-- Add a table whose lookups skip to the root. -/
def newBoundary (s : Store) (parent : TableRef) (name : String) : TableRef × Store :=
  s.newBelow parent name true

end Store

namespace TableRef

/-- The tables that a lookup visits from here on. A table is added after its parent, so there
are no more of them than places up to this one. -/
def chainTo (s : Store) (full : Bool) : (bound : Nat) → TableRef → List TableRef
  | 0, _ => []
  | bound + 1, r =>
    match (s.table r).next full with
    | some next => r :: chainTo s full bound next
    | none => [r]

/-- The tables that a lookup visits. -/
def chain (r : TableRef) (s : Store) (full : Bool) : List TableRef :=
  chainTo s full (r.index + 1) r

/-- The nearest table of a bounded chain that has a name. -/
def findTo (s : Store) (full : Bool) (name : String) : (bound : Nat) → TableRef → Option TableRef
  | 0, _ => none
  | bound + 1, r =>
    let t := s.table r
    if t.binds name then some r
    else
      match t.next full with
      | some next => findTo s full name bound next
      | none => none

/-- The nearest table that has a name. -/
def find? (r : TableRef) (s : Store) (name : String) (full : Bool) : Option TableRef :=
  findTo s full name (r.index + 1) r

/-- The binding that a name resolves to. -/
def resolve? (r : TableRef) (s : Store) (name : String) (full : Bool) : Option Binding :=
  (r.find? s name full).bind fun t => (s.table t).binding? name

/-- The value of a name, seen from a table. -/
def get? (r : TableRef) (s : Store) (name : String) (full : Bool) : Option Value :=
  (r.resolve? s name full).map Binding.value

/-- The value of a table's own name. -/
def getLocal? (r : TableRef) (s : Store) (name : String) : Option Value :=
  ((s.table r).binding? name).map Binding.value

/-- Store under the binding that a name resolves to. -/
def set (r : TableRef) (name : String) (v : Value) : StoreM Unit := do
  match r.find? (← get) name false with
  | none => throw (.about .unknownIdentifier name)
  | some t =>
    match ((← get).table t).binding? name with
    | none => throw (.about .unknownIdentifier name)
    | some b =>
      if b.locked then throw (.about .readOnly name)
      else
        let v ← if isPrivate name then v.copy else pure v
        modify fun s => s.modifyTable t fun table =>
          table.bind name { b with value := v, bound := true }

/-- Store under a table's own name, whatever its attributes, declaring it if needed. -/
def setAlways (r : TableRef) (name : String) (v : Value) (s : Store) : Store :=
  s.modifyTable r fun t =>
    match t.binding? name with
    | some b => t.bind name { b with value := v, bound := true }
    | none => t.bind name { value := v }

/-- Declare a name of a table. -/
def create (r : TableRef) (name : String) : StoreM Unit := do
  if ((← get).table r).binds name then throw (.about .symbolExists name)
  else
    modify fun s => s.modifyTable r fun t =>
      t.bind name { value := .nil, constant := isPrivate name, bound := false }

/-- Bind a constant. -/
def setConstant (r : TableRef) (name : String) (v : Value) : StoreM Unit := do
  if (((← get).table r).binding? name).any Binding.bound then throw (.about .symbolExists name)
  else
    modify fun s => s.modifyTable r fun t =>
      t.bind name { value := v, readonly := true, constant := true }

/-- Make a table's own name readonly or not. -/
def setReadonly (r : TableRef) (name : String) (readonly : Bool) : StoreM Unit := do
  match ((← get).table r).binding? name with
  | none => throw (.about .unknownIdentifier name)
  | some b =>
    modify fun s => s.modifyTable r fun t => t.bind name { b with readonly := readonly }

/-- Remove a table's own name; a locked one only by force. -/
def delete (r : TableRef) (name : String) (force : Bool) : StoreM Unit := do
  match ((← get).table r).binding? name with
  | none => throw (.about .unknownIdentifier name)
  | some b =>
    if b.locked && !force then throw (.about .readOnly name)
    else
      modify fun s => s.modifyTable r fun t =>
        { t with bindings := Association.erase name t.bindings }

/-- Whether a name resolves to a constant. -/
def isConstant (r : TableRef) (s : Store) (name : String) : Bool :=
  (r.resolve? s name false).any Binding.constant

/-- Whether a name resolves to a readonly binding. -/
def isReadonly (r : TableRef) (s : Store) (name : String) : Bool :=
  (r.resolve? s name false).any Binding.readonly

/-- Every name that can be seen from a table, in ascending order. -/
def visibleNames (r : TableRef) (s : Store) (full : Bool) : List String :=
  sortNames ((r.chain s full).flatMap fun t => (s.table t).names).eraseDups

/-- How many tables lie on the way to the root, both ends counted. -/
def depth (r : TableRef) (s : Store) : Nat := (r.chain s true).length

theorem find?_of_binds {r : TableRef} {s : Store} {name : String}
    (h : (s.table r).binds name = true) (full : Bool) : r.find? s name full = some r := by
  simp [find?, findTo, h]

theorem setAlways_getLocal (r : TableRef) (name : String) (v : Value) (s : Store)
    (h : r.index < s.tables.size) :
    r.getLocal? (r.setAlways name v s) name = some v := by
  simp only [getLocal?, setAlways, Store.modifyTable, Store.table, Table.binding?]
  cases hb : Association.find? name (s.tables[r.index]).bindings <;>
    simp [Array.getD_eq_getD_getElem?, h, Array.getElem_modify, hb, Table.bind,
      Association.find?_insert_self]

end TableRef

end StackScript
