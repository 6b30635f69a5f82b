import StackScript.Compiler.Expression

/-!
# Assignments

The targets on the left of an operator are read before the values they take. A target is a name,
or an element of a container: then the code that pushes the container and the code that pushes
the index are kept until the value is there. The elements are `=`, `:=`, the operators that
combine with the old value, and `++` and `--`.
-/
namespace StackScript.CompileM

/-- Where a value is stored. -/
inductive Target where
  | name (name : String)
  /-- An item of an array, an entry of a map or a field of a struct. -/
  | element (container index : Code)

/-- The last step of a chain of accesses, not taken yet. -/
inductive Access where
  | index (code : Code)
  | field (name : String)

/-- Code that is joined outside the draft. -/
def joined (code other : Code) : CompileM Code :=
  match code.append other with
  | .ok code => pure code
  | .error fault => throw fault

/-- Take a step of a chain. -/
def Access.take (container : Code) : Access → CompileM Code
  | .index code => do pure ((← joined container code).push ⟨.loadIndex, .none⟩)
  | .field name => pure (container.push ⟨.member, .name name⟩)

/-- The code that pushes the index of a step. -/
def Access.code : Access → Code
  | .index code => code
  | .field name => Code.push { name := "index" } ⟨.push, .value (.string name)⟩

/-- Read the next step of a chain. -/
def nextAccess (rules : Nested) : CompileM (Option Access) := do
  if ← accept "[" then
    let code ← capture rules.expression
    expect "]"
    pure (some (.index code))
  else if ← accept "." then pure (some (.field (← identifier)))
  else pure none

/-- Read a target. A star before a name that holds a pointer changes nothing. -/
def target (rules : Nested) : CompileM Target := do
  let _ ← accept "*"
  let name ← identifier
  if !(← isAnyNext ["[", "."]) then pure (.name name)
  else
    let start : Code := Code.push { name := "container" } ⟨.load, .name name⟩
    repeatTurns (start, (none : Option Access)) fun (container, pending) => do
      match ← nextAccess rules, pending with
      | some access, some last => pure (.again (← last.take container, some access))
      | some access, none => pure (.again (container, some access))
      | none, some last => pure (.done (.element container last.code))
      | none, none => fail .invalidAssignment

/-- Push the old value of a target. -/
def emitLoad : Target → CompileM Unit
  | .name name => emitName .load name
  | .element container index => do
    append container
    append index
    emitOp .loadIndex

/-- Store the top of the stack, consuming it. -/
def emitStore (create : Bool) : Target → CompileM Unit
  | .name name => do
    if name = "_" then emitOp .drop
    else
      if create then emitName .symbolCreate name
      emitName .store name
  | .element container index => do
    append container
    append index
    -- the value lies below the container and the index
    emitInt .readStack 2
    emitOp .storeIndex
    emitInt .drop 2

/-- Store values that lie on the stack, the one of the first target on top. -/
def emitStores : List (Target × Bool) → CompileM Unit
  | [] => pure ()
  | (t, create) :: rest => do
    emitStore create t
    emitStores rest

/-- The names that are targets; anything else cannot be declared. -/
def targetNames : List Target → CompileM (List String)
  | [] => pure []
  | .name name :: rest => do pure (name :: (← targetNames rest))
  | .element .. :: _ => fail .invalidAssignment

/-- Whether each name is new in this block. -/
def areNew : List String → CompileM (List Bool)
  | [] => pure []
  | name :: rest => do
    let isNew := name ≠ "_" && !(← isDeclaredHere name)
    pure (isNew :: (← areNew rest))

/-- Declare names; those of the top level are exported. -/
def declareAll : List String → CompileM Unit
  | [] => pure ()
  | name :: rest => do
    if name ≠ "_" then
      if ← declare name then
        if ← atTopLevel then exportName name
    declareAll rest

/-- Declare the targets of `:=`, of which at least one must be new; which ones are. -/
def declareTargets (targets : List Target) : CompileM (List Bool) := do
  let names ← targetNames targets
  let new ← areNew names
  if !new.any id then fail .duplicateDeclaration
  declareAll names
  pure new

/-- Assign to several targets, from as many expressions or from one call. -/
def assignSeveral (rules : Nested) (targets : List (Target × Bool)) : CompileM Unit := do
  emitMarker .values
  let count ← expressionList rules
  let fromCall ← if count = 1 then requestMultiple else pure false
  if fromCall then emitStores targets
  else
    if count ≠ targets.length then
      failAbout .invalidAssignment
        (Decimal.ofNat targets.length ++ " targets, " ++ Decimal.ofNat count ++ " values")
    emitStores targets.reverse
  emitDropTo .values

/-- Assign values to targets; `define` declares them first. -/
def assignValues (rules : Nested) (targets : List Target) (define : Bool) : CompileM Unit := do
  let new ← if define then declareTargets targets else pure (targets.map fun _ => false)
  match targets.zip new with
  | [(t, create)] =>
    rules.expression
    emitStore create t
  | all => assignSeveral rules all

/-- Combine the old value of the only target with another one. -/
def combine (targets : List Target) (value : CompileM Unit) (op : Opcode) : CompileM Unit := do
  match targets with
  | [t] =>
    emitLoad t
    value
    emitOp op
    emitStore false t
  | _ => fail .invalidAssignment

/-- The targets before an operator. -/
def targetList (rules : Nested) : CompileM (List Target) := do
  let first ← target rules
  repeatTurns [first] fun targets => do
    if ← accept "," then pure (.again (targets ++ [← target rules])) else pure (.done targets)

/-- An assignment. -/
def assignment (rules : Nested) : CompileM Unit := do
  let targets ← targetList rules
  let op ← next
  let isMark := op.tag == .punctuation
  match op.spelling with
  | "+=" => combine targets rules.expression .add
  | "-=" => combine targets rules.expression .sub
  | "*=" => combine targets rules.expression .mul
  | "/=" => combine targets rules.expression .div
  | ":=" => assignValues rules targets true
  | "=" => assignValues rules targets false
  | word =>
    if isMark && word == "++" then combine targets (emitValue (.int 1)) .add
    else if isMark && word == "--" then combine targets (emitValue (.int 1)) .sub
    else
      back 1
      fail .invalidAssignment

end StackScript.CompileM
