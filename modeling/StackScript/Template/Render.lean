import StackScript.Template
import StackScript.Value.Map
import StackScript.Value.Struct

/-!
# Rendering templates

A template is written out against a value. Nil is written as nothing; a path through nil is nil;
a field that is missing anywhere else is a fault.

Main statements: `renderNodes_literal` (text outside actions is written as it is).
-/
namespace StackScript.Template

/-- The fault of a field that is not there. -/
def missingField {α : Type} (name : String) : StoreM α := throw (.about .invalidField name)

/-- A field of a value: of a struct or its parents, an entry of a map, or an item of an array. -/
def field (name : String) (v : Value) : StoreM Value := do
  let s ← get
  match v with
  | .struct r =>
    match StructRef.getInherited? s (s.struct r) name with
    | some v => pure v
    | none => missingField name
  | .map r => r.find (.string name)
  | .array r =>
    match Decimal.readInteger 10 0 0xFFFFFFFFFFFFFFFF name.toList with
    | .ok n =>
      match (s.array r).items[n.toNat]? with
      | some v => pure v
      | none => missingField name
    | .error _ => missingField name
  | .nil => pure .nil
  | _ => missingField name

/-- Follow the names of a path. -/
def follow (v : Value) : List String → StoreM Value
  | [] => pure v
  | name :: rest => do follow (← field name v) rest

/-- The value of an expression. -/
def Expr.eval (data : Value) : Expr → StoreM Value
  | .here => pure data
  | .string text => pure (.string text)
  | .int n => pure (.int n)
  | .not inner => do pure (.bool !(← inner.eval data).isTruthy)
  | .path names => follow data names

/-- The value of a map under one of its keys. -/
def entry (r : MapRef) (k : Value) : StoreM Value := do
  try r.find k catch _ => pure .nil

/-- What a loop over a value walks: items, or the values of fields and entries in the order of
their names and keys. -/
def elements (v : Value) : StoreM (List Value) := do
  let s ← get
  match v with
  | .array r => pure (s.array r).items.toList
  | .map r => (s.map r).keys.mapM (entry r)
  | .struct r =>
    let o := s.struct r
    pure (o.keys.filterMap fun k => Association.find? k o.fields)
  | .nil => pure []
  | v => throw (.about .invalidTemplate ("cannot range over " ++ v.typeName s))

mutual
/-- The text of a part. -/
def renderNode (data : Value) : Node → StoreM String
  | .literal text => pure text
  | .output e => do
    let v ← e.eval data
    if v.isNil then pure "" else pure (v.display (← get))
  | .choice condition body otherwise => do
    if (← condition.eval data).isTruthy then renderNodes data body
    else renderOption data otherwise
  | .range e body => do
    let parts ← (← elements (← e.eval data)).mapM fun item => renderNodes item body
    pure (String.join parts)

/-- The text of parts one after the other. -/
def renderNodes (data : Value) : List Node → StoreM String
  | [] => pure ""
  | node :: rest => do
    let first ← renderNode data node
    pure (first ++ (← renderNodes data rest))

/-- The text of parts that may be missing. -/
def renderOption (data : Value) : Option (List Node) → StoreM String
  | none => pure ""
  | some nodes => renderNodes data nodes
end

/-- The text of a template for a value. -/
def render (t : Template) (data : Value) : StoreM String := renderNodes data t.nodes

theorem renderNodes_literal (data : Value) (text : String) :
    renderNodes data [.literal text] = pure text := by
  simp [renderNodes, renderNode]

end StackScript.Template
