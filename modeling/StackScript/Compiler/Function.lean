import StackScript.Compiler.TypeSyntax

/-!
# Functions

A body is compiled into a unit of its own, with a prologue that checks the number of arguments and
binds every parameter. The finished unit is pushed as a function value, which captures the scope
it is pushed in.
-/
namespace StackScript.CompileM

/-- How the body of a method finds its receiver. -/
structure Receiver where
  name : String
  /-- Whether the receiver is shared with the caller instead of copied. -/
  shared : Bool

/-- What stands between the name and the body of a function. -/
structure Signature where
  parameters : List Parameter
  variadic : Bool
  returns : List Ty
  namedResults : List String

/-- A parameter list being read: names with the types that follow them. -/
structure ParameterList where
  entries : List (String × Option Ty) := []
  variadic : Bool := false

/-- One parameter. -/
def parameterEntry (list : ParameterList) : CompileM ParameterList := do
  let name ← identifier
  if ← isAnyNext [",", ")"] then
    pure { list with entries := list.entries ++ [(name, none)] }
  else
    let variadic ← accept "..."
    let t ← parseType
    pure ⟨list.entries ++ [(name, some t)], list.variadic || variadic⟩

/-- The parameters between parentheses. -/
def parameterList : CompileM ParameterList := do
  expect "("
  repeatTurns ({} : ParameterList) fun list => do
    if ← accept ")" then pure (.done list)
    else
      if ← atEnd then fail (.missing ")")
      if !list.entries.isEmpty then expect ","
      if list.variadic then failAbout .unexpectedToken "variadic parameter must be last"
      pure (.again (← parameterEntry list))

/-- Names without a type have the type of the next name that has one, else the interface. -/
def groupParameters (entries : List (String × Option Ty)) : List Parameter :=
  (entries.foldr (fun (name, t) (following, done) =>
    let following := t.getD following
    (following, Parameter.mk name following :: done)) (Ty.interface, [])).2

/-- Whether a result starts with its name. -/
def startsNamedResult : CompileM Bool := do
  let after ← peek 2
  pure ((← current).isIdentifier && !after.is "," && !after.is ")" && !after.is ".")

/-- The results: none, one type, or a list of types that all or none have names. -/
def resultList : CompileM (List Ty × List String) := do
  if !(← sameLine) then pure ([], [])
  else if ← isNext "\x7b" then pure ([], [])
  else if !(← accept "(") then pure ([← parseType], [])
  else
    let (types, names) ← repeatTurns (([], []) : List Ty × List String) fun (types, names) => do
      if ← accept ")" then pure (.done (types, names))
      else
        if ← atEnd then fail (.missing ")")
        if !types.isEmpty then expect ","
        let names ← if ← startsNamedResult then pure (names ++ [← identifier]) else pure names
        let t ← parseType
        pure (.again (types ++ [t], names))
    if !names.isEmpty && names.length != types.length then
      failAbout .invalidReturn "mixed named results"
    pure (types, names)

/-- Parameters and results. -/
def signature : CompileM Signature := do
  let list ← parameterList
  let (returns, namedResults) ← resultList
  pure ⟨groupParameters list.entries, list.variadic, returns, namedResults⟩

/-- Bind a parameter from the argument at its place. -/
def bindParameter (index : Nat) (p : Parameter) : CompileM Unit := do
  emitName .load "_args"
  emitValue (.int (Int64.ofNat index))
  emitOp .loadIndex
  emitTypeCheck p.type
  createAndStore p.name

/-- Bind a variadic parameter from all arguments from its place on. -/
def bindRest (index : Nat) (p : Parameter) : CompileM Unit := do
  emitName .load "_args"
  emitValue (.int (Int64.ofNat index))
  emitName .load "len"
  emitName .load "_args"
  emitCall 1 {}
  emitOp .loadSlice
  if !p.type.isInterface then emitTypeCheck (.array p.type)
  createAndStore p.name

/-- Bind the parameters from a place on. -/
def bindParameters (variadic : Bool) : (index : Nat) → List Parameter → CompileM Unit
  | _, [] => pure ()
  | index, [p] => if variadic then bindRest index p else bindParameter index p
  | index, p :: rest => do
    bindParameter index p
    bindParameters variadic (index + 1) rest

/-- Bind named results to the zero values of their types. -/
def bindResults : List (String × Ty) → CompileM Unit
  | [] => pure ()
  | (name, t) :: rest => do
    emitZero t
    createAndStore name
    bindResults rest

/-- Bind the receiver. -/
def bindReceiver (receiver : Receiver) : CompileM Unit := do
  emitOp .loadThis
  if !receiver.shared then emitOp .copy
  createAndStore receiver.name

/-- Statements up to the closing brace. -/
def statementsUntilClose (rules : Nested) : CompileM Unit :=
  repeatWhile do
    if ← accept "\x7d" then pure false
    else
      if ← atEnd then fail (.missing "\x7d")
      rules.statement
      pure true

/-- The check of the number of arguments. -/
def emitArgCheck (name : String) (s : Signature) : CompileM Unit := do
  let count := s.parameters.length
  let least := if s.variadic then count - 1 else count
  let greatest : Int64 := if s.variadic then -1 else Int64.ofNat count
  emit .argCheck (.tuple [.int (Int64.ofNat least), .int greatest, .name name])

/-- Compile a signature and a body into the draft at hand. -/
def compileBody (rules : Nested) (name : String) (receiver : Option Receiver) :
    CompileM Declaration := do
  let s ← signature
  if !(← isNext "\x7b") then failAbout .missingFunctionBody name
  modifyDraft fun d => { d with returns := some s.returns, namedResults := s.namedResults }
  atLine
  emitArgCheck name s
  bindParameters s.variadic 0 s.parameters
  match receiver with
  | some r => bindReceiver r
  | none => pure ()
  bindResults (s.namedResults.zip s.returns)
  expect "\x7b"
  statementsUntilClose rules
  emitInt .leave 0
  pure
    { name := name, parameters := s.parameters, returns := s.returns, variadic := s.variadic
      receiver := receiver.map Receiver.name }

/-- Run a step in a new draft; the outer one is put back whether or not it succeeds. -/
def inDraft {α : Type} (name : String) (step : CompileM α) : CompileM (α × Draft) := fun c =>
  let inner : Draft := { code := { name := name }, lastLine := c.draft.lastLine }
  let (result, after) := step { c with draft := inner, noStructLiteral := false }
  let restored := { after with draft := c.draft, noStructLiteral := c.noStructLiteral }
  match result with
  | .ok a => (.ok (a, after.draft), restored)
  | .error f => (.error f, restored)

/-- Compile a signature and a body into a closed unit of its own. -/
def functionBody (rules : Nested) (name : String) (receiver : Option Receiver) :
    CompileM CodeRef := do
  let (declaration, inner) ← inDraft name (compileBody rules name receiver)
  let c ← get
  let code := { inner.code with
    declaration := some declaration
    package := some (c.package.getD c.moduleName) }
  addCode code.close

/-- A receiver after an arrow. -/
def receiverBinding : CompileM (Option Receiver) := do
  if ← accept "->" then pure (some ⟨← identifier, true⟩) else pure none

/-- A function without a name; the word `func` has been read. -/
def functionLiteral (rules : Nested) : CompileM Unit := do
  let receiver ← receiverBinding
  modify fun c => { c with tempCounter := c.tempCounter + 1 }
  let name := "func#" ++ Decimal.ofNat (← get).tempCounter
  emitValue (.function (← functionBody rules name receiver) none)

/-- Whether a declared receiver stands between the word `func` and the name. -/
def startsMethod : CompileM Bool := do
  let c := (← get).cursor
  let n := if (c.peek 4).is "*" then 5 else 4
  pure ((c.peek 2).is "(" && (c.peek 3).isIdentifier && (c.peek n).isIdentifier &&
    (c.peek (n + 1)).is ")" && (c.peek (n + 2)).isIdentifier && (c.peek (n + 3)).is "(")

/-- A method, stored in the model of its type. -/
def methodDeclaration (rules : Nested) : CompileM Unit := do
  moveCursor Token.Cursor.skip
  expect "("
  let receiver ← identifier
  let shared ← accept "*"
  let typeName ← identifier
  expect ")"
  if !(← get).structTypes.contains typeName then
    back 2
    fail .invalidTypeSpec
  let name ← identifier
  let code ← functionBody rules (typeName ++ "." ++ name) (some ⟨receiver, shared⟩)
  emitName .load typeName
  emitValue (.string name)
  emitValue (.function code none)
  emitOp .storeIndex
  emitOp .drop

/-- A function with a name. -/
def namedFunction (rules : Nested) : CompileM Unit := do
  moveCursor Token.Cursor.skip
  let name ← identifier
  let receiver ← receiverBinding
  let code ← functionBody rules name receiver
  emitValue (.function code none)
  let top ← atTopLevel
  if ← declare name then
    if top then exportName name
    emitName .symbolCreate name
  emitName .store name
  if top ∧ name = "main" then modify fun c => { c with hasMain := true }

end StackScript.CompileM
