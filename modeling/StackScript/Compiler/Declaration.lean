import StackScript.Compiler.Expression

/-!
# Declarations

Variables with and without initial values, constants, sized arrays and types. A declared name is
new in its block. A struct type is also a value, its model: a zero instance that carries the
methods of the type.
-/
namespace StackScript.CompileM

/-- Specifications one after the other up to a closing parenthesis, or a single one; words of
`skipped` between them say nothing. -/
def group (skipped : List String) (spec : CompileM Unit) : CompileM Unit := do
  moveCursor Token.Cursor.skip
  if !(← accept "(") then spec
  else
    repeatWhile do
      if ← accept ")" then pure false
      else
        if ← atEnd then fail (.missing ")")
        if ← isAnyNext skipped then moveCursor Token.Cursor.skip else spec
        pure true

/-! ## Variables -/

/-- Bind values that lie on the stack, the one of the first name on top. -/
def bindAll (declared : Option Ty) : List String → CompileM Unit
  | [] => pure ()
  | name :: rest => do
    emitDeclared declared
    createAndStore name
    bindAll declared rest

/-- Bind each name to a zero value of its own. -/
def bindZeros (t : Ty) : List String → CompileM Unit
  | [] => pure ()
  | name :: rest => do
    emitZero t
    createAndStore name
    bindZeros t rest

/-- Bind names to the values after an equals sign: as many expressions, or one call. -/
def bindValues (rules : Nested) (names : List String) (declared : Option Ty) : CompileM Unit := do
  let count ← expressionList rules
  if count = 1 ∧ 1 < names.length then
    if !(← requestMultiple) then fail .invalidAssignment
    bindAll declared names
    emitDropTo .results
  else
    if count ≠ names.length then fail .invalidAssignment
    bindAll declared names.reverse

/-- Names with a type, a value, or both. -/
def variableSpec (rules : Nested) : CompileM Unit := do
  let names ← nameList
  let declared ← typeUnless "="
  if ← accept "=" then bindValues rules names declared
  else
    match declared with
    | some t => bindZeros t names
    | none => fail (.missing "=")

/-- A declaration of variables. -/
def variableStatement (rules : Nested) : CompileM Unit := group [";"] (variableSpec rules)

/-! ## Constants -/

/-- Whether an instruction may compute a constant: no call, no member, no name but that of an
earlier constant. -/
def computesConstant (constants : List String) (i : Instruction) : Bool :=
  match i.op with
  | .load => i.operand.asName?.any constants.contains
  | .call | .member | .classMember | .setThis => false
  | _ => true

/-- The value of a constant whose expression is a literal. -/
def literalValue? (code : Code) : Option Value :=
  match code.instructions.toList with
  | [⟨.push, .value v⟩] => some v
  | _ => none

/-- Record the value of a constant with the unit. -/
def recordConstant (name : String) (v : Value) : CompileM Unit :=
  modifyDraft fun d =>
    { d with code := { d.code with constants := Association.insert name v d.code.constants } }

/-- One constant. -/
def constantSpec (rules : Nested) : CompileM Unit := do
  let name ← identifier
  let declared ← typeUnless "="
  expect "="
  let code ← capture rules.expression
  if !code.instructions.all (computesConstant (← get).constants) then
    failAbout .invalidConstant name
  match literalValue? code with
  | some v => recordConstant name v
  | none => pure ()
  append code
  emitDeclared declared
  if !(← declare name) then failAbout .duplicateDeclaration name
  if ← atTopLevel then exportName name
  emitName .constant name
  modify fun c => { c with constants := name :: c.constants }

/-- A declaration of constants. -/
def constantStatement (rules : Nested) : CompileM Unit := group [";"] (constantSpec rules)

/-! ## Arrays and types -/

/-- An array of a given size, with a fill value or without. -/
def arrayStatement (rules : Nested) : CompileM Unit := do
  moveCursor Token.Cursor.skip
  let name ← identifier
  expect "["
  rules.expression
  expect "]"
  if ← accept "=" then
    rules.expression
    emitInt .makeArray 2
  else emitInt .makeArray 1
  createAndStore name

/-- Declare a type under a name. -/
def addType (name : String) (t : Ty) : CompileM Unit :=
  modify fun c => { c with types := Association.insert name t c.types }

/-- The fields of a type that extends another one; a repeated name moves to the end. -/
def extendFields (inherited own : List (String × Ty)) : List (String × Ty) :=
  own.foldl (fun fields f => fields.filter (fun g => g.1 != f.1) ++ [f]) inherited

/-- Store a reserved field of the model on top of the stack. -/
def storeReserved (field : String) (value : CompileM Unit) : CompileM Unit := do
  emitValue (.string field)
  value
  emitOp .storeIndex

/-- A struct type with its model. -/
def structDeclaration (name : String) : CompileM Unit := do
  let parent ← if ← accept "->" then pure (some (← identifier)) else pure none
  let types := (← get).types
  let inherited := (parent.bind fun p => Association.find? p types).bind Ty.fields?
  let t := (Ty.struct (extendFields (inherited.getD []) (← structFields parseType))).withName name
  addType name t
  modify fun c => { c with structTypes := name :: c.structTypes }
  emitName .load "new"
  emitValue (.type t)
  emitCall 1 {}
  storeReserved "__static" (emitValue (.bool true))
  match parent with
  | some p => storeReserved "__parent" (emitName .load p)
  | none => pure ()
  createAndStore name

/-- A declaration of a type. -/
def typeStatement : CompileM Unit := do
  moveCursor Token.Cursor.skip
  let name ← identifier
  let isStruct ← if ← accept "struct" then pure true else isAnyNext ["\x7b", "->"]
  if isStruct then structDeclaration name
  else
    let t := (← parseType).withName name
    addType name t
    emitValue (.type t)
    createAndStore name

end StackScript.CompileM
