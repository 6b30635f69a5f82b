import StackScript.Compiler.Function
import StackScript.Compiler.Literal

/-!
# Expressions

Precedence from the lowest: the conditional, `||`, `&&`, comparisons, sums, products and shifts,
signs, then accesses and calls, and primaries. An operator continues an expression only when it
stands on the line of the token before it, so the end of a line ends an expression.
-/
namespace StackScript.CompileM

/-! ## Primaries -/

/-- A value that a reserved word starts. -/
def reservedPrimary (rules : Nested) (word : String) : CompileM Unit := do
  match word with
  | "nil" =>
    moveCursor Token.Cursor.skip
    emitValue .nil
  | "func" =>
    moveCursor Token.Cursor.skip
    functionLiteral rules
  | "map" =>
    let t ← parseType
    if ← isNext "\x7b" then mapLiteral rules t else emitValue (.type t)
  | "chan" | "interface" | "struct" => emitValue (.type (← parseType))
  | _ => fail .reservedWord

/-- A name: `panic`, an instance of a struct type, or a variable. -/
def identifierPrimary (rules : Nested) : CompileM Unit := do
  let name ← identifier
  if name = "panic" ∧ (← isNext "(") then
    expect "("
    rules.expression
    expect ")"
    emitOp .panic
  else
    let c ← get
    if c.structTypes.contains name && c.cursor.isNext "\x7b" && !c.noStructLiteral then
      typedStructLiteral rules name
    else emitName .load name

/-- A literal number, or a fault. -/
def numberPrimary (t : Token) (value : Option Value) : CompileM Unit := do
  moveCursor Token.Cursor.skip
  match value with
  | some v => emitValue v
  | none => failAbout .invalidNumber t.spelling

/-- An expression between parentheses. -/
def parenthesized (rules : Nested) : CompileM Unit := do
  moveCursor Token.Cursor.skip
  withLiterals false rules.expression
  expect ")"

/-- A literal, a name, or an expression in brackets. -/
def primary (rules : Nested) : CompileM Unit := do
  let t ← current
  match t.tag with
  | .integer => numberPrimary t ((Decimal.readInt64 t.spelling).map .int)
  | .float => numberPrimary t ((Decimal.readFloat t.spelling).map .float64)
  | .string =>
    moveCursor Token.Cursor.skip
    emitValue (.string t.spelling)
  | .boolean =>
    moveCursor Token.Cursor.skip
    emitValue (.bool (t.spelling == "true"))
  | .identifier => identifierPrimary rules
  | .reserved => reservedPrimary rules t.spelling
  | .punctuation =>
    if t.is "(" then parenthesized rules
    else if t.is "[" then arrayPrimary rules
    else if t.is "\x7b" then structLiteral rules
    else fail .unexpectedToken
  | .endOfInput => fail .unexpectedEnd

/-! ## Accesses and calls -/

/-- The upper bound of a slice; an open one is the length of the container. -/
def sliceEnd (rules : Nested) : CompileM Unit := do
  if ← isNext "]" then
    -- the container lies two places below the builtin
    emitName .load "len"
    emitInt .readStack 2
    emitCall 1 {}
  else rules.expression

/-- An index or a slice in brackets. -/
def indexOrSlice (rules : Nested) : CompileM Unit := do
  expect "["
  withLiterals false do
    if ← isNext ":" then emitValue (.int 0) else rules.expression
    if ← accept ":" then
      sliceEnd rules
      expect "]"
      emitOp .loadSlice
    else
      expect "]"
      emitOp .loadIndex

/-- The arguments of a call between parentheses: their number, and whether the last is spread. -/
def arguments (rules : Nested) : CompileM (Nat × Bool) := do
  expect "("
  withLiterals false do
    repeatTurns ((0, false) : Nat × Bool) fun (count, spread) => do
      if ← accept ")" then return .done (count, spread)
      if 0 < count then
        expect ","
        if ← accept ")" then return .done (count, spread)
      if spread then fail .unexpectedToken
      rules.expression
      let spread ← accept "..."
      if spread then emitOp .flatten
      if ← atEnd then fail (.missing ")")
      pure (.again (count + 1, spread))

/-- A member after a point or an arrow, called or read. -/
def memberAccess (rules : Nested) : CompileM Unit := do
  let op : Opcode := if (← next).is "->" then .classMember else .member
  let name ← identifier
  if (← sameLine) && (← isNext "(") then
    emitOp .dup
    emitOp .setThis
    emitName op name
    let (count, spread) ← arguments rules
    emitCall count { spread := spread, receiver := true }
  else emitName op name

/-- A primary with the accesses and calls that follow it. -/
def reference (rules : Nested) : CompileM Unit := do
  primary rules
  repeatWhile do
    let here ← sameLine
    if here && (← isNext "[") then
      indexOrSlice rules
      pure true
    else if here && (← isNext "(") then
      let (count, spread) ← arguments rules
      emitCall count { spread := spread }
      pure true
    else if ← isAnyNext [".", "->"] then
      memberAccess rules
      pure true
    else pure false

/-! ## Operators -/

/-- A sign with its operand, or a reference. The marks of addresses mean the value itself. -/
def unaryWith (rules : Nested) : CompileM Unit := do
  if ← isAnyNext ["-", "!"] then
    moveCursor Token.Cursor.skip
    rules.unary
    emitOp .negate
  else if ← accept "<-" then
    rules.unary
    emitOp .dup
    emitOp .setThis
    emitName .member "Receive"
    emitCall 0 { receiver := true }
  else if ← isAnyNext ["&", "*", "+"] then
    moveCursor Token.Cursor.skip
    rules.unary
  else reference rules

/-- A binary operator that continues the line. -/
def operator (operators : List String) : CompileM (Option String) := do
  if !(← sameLine) then pure none
  else
    let c := (← get).cursor
    match operators.find? c.isNext with
    | some op =>
      moveCursor Token.Cursor.skip
      pure (some op)
    | none => pure none

/-- Operands with operators of one precedence between them, from left to right. -/
def leftChain (operators : List String) (operand : CompileM Unit)
    (apply : String → CompileM Unit) : CompileM Unit := do
  operand
  repeatWhile do
    match ← operator operators with
    | some op =>
      apply op
      pure true
    | none => pure false

/-- A product, a bitwise or, a power or a shift; a right shift is a left shift by the negated
count. -/
def multiplicativeOp (op : String) : CompileM Unit :=
  match op with
  | "*" => emitOp .mul
  | "/" => emitOp .div
  | "%" => emitOp .modulo
  | "|" => emitOp .bitOr
  | "^" => emitOp .exp
  | "<<" => emitOp .bitShift
  | _ => do
    emitOp .negate
    emitOp .bitShift

/-- Products and shifts. -/
def multiplicative (rules : Nested) : CompileM Unit :=
  leftChain ["*", "/", "%", "|", "^", "<<", ">>"] (unaryWith rules) fun op => do
    unaryWith rules
    multiplicativeOp op

/-- The operation of a sum. -/
def additiveOp : String → Opcode
  | "+" => .add
  | "-" => .sub
  | _ => .bitAnd

/-- Sums. -/
def additive (rules : Nested) : CompileM Unit :=
  leftChain ["+", "-", "&"] (multiplicative rules) fun op => do
    multiplicative rules
    emitOp (additiveOp op)

/-- The operation of a comparison. -/
def relationOp : String → Opcode
  | "==" => .equal
  | "!=" => .notEqual
  | "<=" => .lessThanOrEqual
  | ">=" => .greaterThanOrEqual
  | "<" => .lessThan
  | _ => .greaterThan

/-- Comparisons. -/
def relation (rules : Nested) : CompileM Unit :=
  leftChain ["==", "!=", "<=", ">=", "<", ">"] (additive rules) fun op => do
    additive rules
    emitOp (relationOp op)

/-- The left operand is on the stack. When it decides the result, the right one is skipped and
that result pushed. -/
def shortCircuit (decides : Bool) (right : CompileM Unit) : CompileM Unit := do
  emitOp .dup
  let short ← emitFixup (if decides then .branchTrue else .branchFalse)
  right
  emitOp (if decides then .or else .and)
  let finish ← emitFixup .branch
  patchHere short
  emitOp .drop
  emitValue (.bool decides)
  patchHere finish

/-- Conjunctions. -/
def logicalAnd (rules : Nested) : CompileM Unit :=
  leftChain ["&&"] (relation rules) fun _ => shortCircuit false (relation rules)

/-- Disjunctions. -/
def logicalOr (rules : Nested) : CompileM Unit :=
  leftChain ["||"] (logicalAnd rules) fun _ => shortCircuit true (logicalAnd rules)

/-- An expression: a disjunction, or a choice between two expressions. -/
def expressionWith (rules : Nested) : CompileM Unit := do
  logicalOr rules
  if (← sameLine) && (← isNext "?") then
    moveCursor Token.Cursor.skip
    let otherwise ← emitFixup .branchFalse
    rules.expression
    expect ":"
    let finish ← emitFixup .branch
    patchHere otherwise
    rules.expression
    patchHere finish

/-- An expression in a statement's head. -/
def condition (rules : Nested) : CompileM Unit := inHead rules.expression

/-- Expressions with commas between them; the result is their number. -/
def expressionList (rules : Nested) : CompileM Nat := do
  repeatTurns 0 fun count => do
    rules.expression
    if ← accept "," then pure (.again (count + 1)) else pure (.done (count + 1))

end StackScript.CompileM
