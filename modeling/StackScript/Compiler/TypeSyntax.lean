import StackScript.Compiler.State
import StackScript.Value.Copy

/-!
# Type expressions

`[]T`, `*T`, `map[K]V`, `chan T`, `interface` with empty braces, `struct` with its fields,
function types, the names of builtin types and declared names. Types nest as deep as there are
tokens.
-/
namespace StackScript.CompileM

/-- Skip from an opening word to the closing one that matches it. -/
def skipBalanced (opening closing : String) : CompileM Unit := do
  expect opening
  repeatTurns 1 fun depth => do
    if depth = 0 then pure (.done ())
    else
      if ← atEnd then fail (.missing closing)
      let t ← next
      if t.is opening then pure (.again (depth + 1))
      else if t.is closing then pure (.again (depth - 1))
      else pure (.again depth)

/-- Skip the parameters and results of a function type. -/
def skipSignature (type : CompileM Ty) : CompileM Unit := do
  skipBalanced "(" ")"
  if !(← sameLine) then pure ()
  else if ← isAnyNext ["\x7b", ",", ")", "]", ";", "\x7d", "="] then pure ()
  else if ← isNext "(" then skipBalanced "(" ")"
  else
    let _ ← type

/-- Names with commas between them. -/
def nameList : CompileM (List String) := do
  let first ← identifier
  repeatTurns [first] fun names => do
    if ← accept "," then pure (.again (names ++ [← identifier])) else pure (.done names)

/-- Add names with one type to the fields of a struct; no name may be there already. -/
def addFields (t : Ty) : List String → List (String × Ty) → CompileM (List (String × Ty))
  | [], fields => pure fields
  | name :: rest, fields =>
    if Association.has name fields then failAbout .duplicateDeclaration name
    else addFields t rest (fields ++ [(name, t)])

/-- The fields of a struct type between braces. -/
def structFields (type : CompileM Ty) : CompileM (List (String × Ty)) := do
  expect "\x7b"
  repeatTurns [] fun fields => do
    if ← accept "\x7d" then pure (.done fields)
    else if ← accept ";" then pure (.again fields)
    else
      if ← atEnd then fail (.missing "\x7d")
      let names ← nameList
      let t ← type
      pure (.again (← addFields t names fields))

/-- The type of a name: one of the package `sync`, a builtin one, or a declared one. -/
def namedType (name : String) : CompileM Ty := do
  if name = "sync" ∧ (← isNext ".") then
    moveCursor Token.Cursor.skip
    match (← next).spelling with
    | "WaitGroup" => pure (.plain .waitGroup)
    | "Mutex" => pure (.plain .mutex)
    | _ =>
      back 1
      fail .invalidTypeSpec
  else
    match Ty.ofName? name with
    | some t => pure t
    | none =>
      match Association.find? name (← get).types with
      | some t => pure t
      | none =>
        back 1
        fail .invalidTypeSpec

/-- A type expression whose parts are read by `type`. -/
def typeWith (type : CompileM Ty) : CompileM Ty := do
  let t ← current
  if t.is "[" then
    moveCursor Token.Cursor.skip
    expect "]"
    pure (.array (← type))
  else if t.is "*" then
    moveCursor Token.Cursor.skip
    pure (.pointer (← type))
  else if t.is "map" then
    moveCursor Token.Cursor.skip
    expect "["
    let key ← type
    expect "]"
    pure (.map key (← type))
  else if t.is "chan" then
    moveCursor Token.Cursor.skip
    pure (.channel (← type))
  else if t.is "interface" then
    moveCursor Token.Cursor.skip
    expect "\x7b"
    expect "\x7d"
    pure .interface
  else if t.is "struct" then
    moveCursor Token.Cursor.skip
    pure (.struct (← structFields type))
  else if t.is "func" then
    moveCursor Token.Cursor.skip
    skipSignature type
    pure (.plain .function)
  else if !t.isIdentifier then fail .invalidTypeSpec
  else
    let name ← spell t
    moveCursor Token.Cursor.skip
    namedType name

/-- A type expression nested at most so deep. -/
def typeTo : (depth : Nat) → CompileM Ty
  | 0 => throw (.of .limitReached)
  | depth + 1 => typeWith (typeTo depth)

/-- Read a type expression. -/
def parseType : CompileM Ty := do typeTo (← turnBound)

/-- Read a type after an optional sign that there is none. -/
def typeUnless (absent : String) : CompileM (Option Ty) := do
  if ← isNext absent then pure none else pure (some (← parseType))

/-- The zero value of a type, when it needs no storage of its own. -/
def constantZero (t : Ty) : Option Value :=
  if t.kind.isScalar then some (Value.zeroScalar t.kind)
  else
    match t.kind with
    | .interface | .error | .function | .pointer | .channel => some .nil
    | _ => none

/-- Push the zero value of a type; one with storage is built anew each time. -/
def emitZero (t : Ty) : CompileM Unit := do
  match constantZero t with
  | some zero => emitValue zero
  | none =>
    emitName .load "new"
    match t.name?.filter (← get).structTypes.contains with
    | some name => emitName .load name
    | none => emitValue (.type t)
    emitCall 1 {}

/-- Check or copy the top of the stack as a declared parameter type asks. -/
def emitTypeCheck (t : Ty) : CompileM Unit := do
  if t.isInterface || t.kind == .function || t.kind == .pointer then pure ()
  else if t.kind == .struct then emitOp .copy
  else emitTyped (if (← get).strictness == .strict then .coerce else .requiredType) t

/-- Convert the top of the stack to a declared type. -/
def emitDeclared (declared : Option Ty) : CompileM Unit :=
  match declared with
  | some t => if t.isInterface then pure () else emitTyped .coerce t
  | none => pure ()

end StackScript.CompileM
