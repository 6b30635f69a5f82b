import StackScript.Compiler.TypeSyntax

/-!
# Literals

Arrays between brackets, typed arrays, anonymous structs, typed maps, and instances of declared
struct types. Inside brackets of any sort a brace after a type name opens a literal again.
-/
namespace StackScript.CompileM

/-- Parts with commas between them, up to a closing word; a comma may come last. The number of
parts is the result. -/
def listUntil (closing : String) (part : CompileM Unit) : CompileM Nat :=
  repeatTurns 0 fun count => do
    if ← accept closing then pure (.done count)
    else
      if ← atEnd then fail (.missing closing)
      if 0 < count then
        expect ","
        if ← accept closing then return .done count
      part
      pure (.again (count + 1))

/-- Expressions between two words. -/
def elementList (rules : Nested) (opening closing : String) : CompileM Nat := do
  expect opening
  withLiterals false (listUntil closing rules.expression)

/-- Entries between braces. -/
def pairs (entry : CompileM Unit) : CompileM Nat := do
  expect "\x7b"
  withLiterals false (listUntil "\x7d" entry)

/-- The key of an entry: a name before a colon stands for itself. -/
def literalKey (rules : Nested) : CompileM Unit := do
  let t ← current
  if t.isIdentifier && (← peek 2).is ":" then
    moveCursor Token.Cursor.skip
    emitValue (.string (← spell t))
  else rules.expression

/-- A struct without a type. -/
def structLiteral (rules : Nested) : CompileM Unit := do
  let count ← pairs do
    literalKey rules
    expect ":"
    rules.expression
  emitInt .struct count

/-- A map of a given type. -/
def mapLiteral (rules : Nested) (t : Ty) : CompileM Unit := do
  let count ← pairs do
    rules.expression
    expect ":"
    rules.expression
  emit .struct (.tuple [.int (Int64.ofNat count), .value (.type t)])

/-- The names of the fields of a declared struct type. -/
def fieldNames (name : String) : CompileM (List String) := do
  pure (((Association.find? name (← get).types).bind Ty.fields?).getD []).unzip.1

/-- Entries of an instance: under a name, or in the order of the fields. -/
def typedEntries (rules : Nested) (fields : List String) : CompileM Unit := do
  expect "\x7b"
  withLiterals false do
    repeatTurns 0 fun position => do
      if ← accept "\x7d" then return .done ()
      if ← atEnd then fail (.missing "\x7d")
      if 0 < position then
        expect ","
        if ← accept "\x7d" then return .done ()
      if (← current).isIdentifier && (← peek 2).is ":" then
        literalKey rules
        expect ":"
      else
        match fields[position]? with
        | some field => emitValue (.string field)
        | none => fail .invalidField
      rules.expression
      emitOp .storeIndex
      pure (.again (position + 1))

/-- An instance of a declared struct type, each listed field stored in turn. -/
def typedStructLiteral (rules : Nested) (name : String) : CompileM Unit := do
  emitName .load "new"
  emitName .load name
  emitCall 1 {}
  typedEntries rules (← fieldNames name)

/-- Whether an empty pair of brackets starts a type. -/
def startsArrayType : CompileM Bool := do
  let closing ← peek 2
  let after ← peek 3
  pure (closing.is "]" && after.line == closing.line &&
    (after.isIdentifier ||
      ["[", "*", "map", "chan", "interface", "struct", "func"].any after.is))

/-- An array, a typed array, or an array type as a value. -/
def arrayPrimary (rules : Nested) : CompileM Unit := do
  if ← startsArrayType then
    let t ← parseType
    if ← isNext "\x7b" then
      let count ← elementList rules "\x7b" "\x7d"
      emit .array (.tuple [.int (Int64.ofNat count), .value (.type t.elementType)])
    else emitValue (.type t)
  else
    let count ← elementList rules "[" "]"
    emitInt .array count

end StackScript.CompileM
