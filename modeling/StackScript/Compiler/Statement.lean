import StackScript.Compiler.Expression
import StackScript.Compiler.Loop
import StackScript.Compiler.Declaration
import StackScript.Compiler.Import

/-!
# Statements

A statement is known by its first word, or else by the first operator outside all brackets on its
lines: an assignment, a message to a channel, or an expression. Statements on one line need a
semicolon between them. Directives are statements that start with an at sign: the strictness of
operators, templates, log messages, timers, names at the root, faults and plain output.
-/
namespace StackScript.CompileM

/-- Refuse the word read last. -/
def refuseWord {α : Type} : CompileM α := do
  back 1
  fail .invalidDirective

/-- Choose how operators treat operands of different kinds, from here on and when run. -/
def strictnessDirective : CompileM Unit := do
  let word := (← next).spelling
  match Strictness.ofName word with
  | .ok strictness =>
    modify fun c => { c with strictness := strictness }
    emit .staticTyping (.int strictness.level)
  | .error _ =>
    back 1
    failAbout .invalidDirective word

/-- Start a timer, or stop it and show what it measured. -/
def timerDirective : CompileM Unit := do
  match (← next).spelling with
  | "start" => emitInt .timer 0
  | "stop" =>
    emitInt .timer 1
    emitOp .say
  | _ => refuseWord

/-- An expression with an operation on its value. -/
def onValue (rules : Nested) (op : Opcode) : CompileM Unit := do
  rules.expression
  emitOp op

/-- A template under a name. -/
def templateDirective (rules : Nested) : CompileM Unit := do
  let name ← identifier
  rules.expression
  emitName .template name
  createAndStore name

/-- A log message under a class. -/
def logDirective (rules : Nested) : CompileM Unit := do
  let word ← identifier
  rules.expression
  emitName .log word

/-- A name at the root. -/
def globalDirective (rules : Nested) : CompileM Unit := do
  let name ← identifier
  emitName .load "$global"
  emitValue (.string name)
  rules.expression
  emitCall 2 {}
  emitOp .drop

/-- A directive. -/
def directive (rules : Nested) : CompileM Unit := do
  expect "@"
  let t ← current
  if !t.isIdentifier && t.tag != .reserved then fail .invalidDirective
  moveCursor Token.Cursor.skip
  match Text.toLower t.spelling with
  | "type" => strictnessDirective
  | "template" => templateDirective rules
  | "log" => logDirective rules
  | "timer" => timerDirective
  | "global" => globalDirective rules
  | "error" => onValue rules .panic
  | "say" => onValue rules .say
  | _ => refuseWord

/-! ## Simple statements -/

/-- What a statement without a keyword is. -/
inductive SimpleForm where
  | assignment
  | send
  | expression
deriving Repr, DecidableEq

/-- The operators of assignments. -/
def assignmentOperators : List String := [":=", "=", "+=", "-=", "*=", "/=", "++", "--"]

/-- Look ahead from a token on; `line` is that of the token before it. -/
def classifyFrom (c : Token.Cursor) : (bound n depth line : Nat) → SimpleForm
  | 0, _, _, _ => .expression
  | bound + 1, n, depth, line =>
    let t := c.peek n
    let opens := ["(", "[", "\x7b"].any t.is
    let closes := [")", "]", "\x7d"].any t.is
    let deeper := if opens then depth + 1 else if closes then depth - 1 else depth
    if t.isEnd then .expression
    else if 0 < depth then classifyFrom c bound (n + 1) deeper t.line
    else if 1 < n ∧ t.line ≠ line then .expression
    else if t.is ";" || t.is "\x7d" then .expression
    else if assignmentOperators.any t.is then .assignment
    else if t.is "<-" && 1 < n then .send
    else classifyFrom c bound (n + 1) deeper t.line

/-- What the statement here is. -/
def classify : CompileM SimpleForm := do
  let c := (← get).cursor
  pure (classifyFrom c (← turnBound) 1 0 c.current.line)

/-- An expression for its effect. What it leaves, a marker or several results, is removed down to
a marker; an interactive session shows it first. -/
def expressionStatement (rules : Nested) : CompileM Unit := do
  emitMarker .call
  rules.expression
  let _ ← requestMultiple
  if (← get).echo then emitOp .say
  emitDropTo .call

/-- A message to a channel. -/
def sendStatement (rules : Nested) : CompileM Unit := do
  rules.expression
  expect "<-"
  emitOp .dup
  emitOp .setThis
  emitName .member "Send"
  rules.expression
  emitCall 1 { receiver := true }
  emitOp .drop

/-- A statement without a keyword. -/
def simpleStatement (rules : Nested) : CompileM Unit := do
  match ← classify with
  | .assignment => assignment rules
  | .send => sendStatement rules
  | .expression => expressionStatement rules

/-! ## Statements with a keyword -/

/-- Output of values with blanks between them, and the end of the line. -/
def printStatement (rules : Nested) : CompileM Unit := do
  moveCursor Token.Cursor.skip
  if !(← atStatementEnd) then
    let count ← expressionList rules
    emitInt .print count
  emitOp .newline

/-- A condition that must hold, with an optional message. -/
def assertStatement (rules : Nested) : CompileM Unit := do
  moveCursor Token.Cursor.skip
  rules.expression
  let holds ← emitFixup .branchTrue
  if ← accept "," then rules.expression else emitValue (.string "assertion failed")
  emitOp .panic
  patchHere holds

/-- Code without its last instruction. -/
def withoutLast (code : Code) : CompileM Code :=
  match code.remove (code.size - 1) with
  | .ok code => pure code
  | .error fault => throw fault

/-- The launch of a call: a call of the launcher with the function before its arguments. -/
def goStatement (rules : Nested) : CompileM Unit := do
  moveCursor Token.Cursor.skip
  let code ← capture rules.unary
  match code.instructions.back? with
  | none => fail .invalidFunctionCall
  | some last =>
    if last.op != .call then failAbout .invalidFunctionCall "go"
    let (count, flags) := callParts last.operand
    emitName .load "$go"
    append (← withoutLast code)
    emit .call (callOperand (count + 1) (flags &&& ~~~2))
    emitOp .drop

/-! ## Results -/

/-- Results converted to their declared types, where those are scalar. -/
def emitResults : List (Code × Ty) → CompileM Unit
  | [] => pure ()
  | (value, t) :: rest => do
    append value
    if t.kind.isScalar then emitTyped .coerce t
    emitResults rest

/-- Names made up for the results of a call that is returned. -/
def resultNames : (count : Nat) → CompileM (List String)
  | 0 => pure []
  | count + 1 => do
    let name ← tempName "ret"
    pure (name :: (← resultNames count))

/-- Return every result of one call. -/
def returnCall (declared : List Ty) (value : Code) : CompileM Unit := do
  append value
  if !(← requestMultiple) then fail .invalidReturn
  pushScope
  let names ← resultNames declared.length
  names.forM createTemp
  emitDropTo .results
  emitResults ((names.zip declared).map fun (name, t) =>
    (Code.push { name := "result" } ⟨.load, .name name⟩, t))
  popScope
  emitInt .leave declared.length

/-- Return values, as many as are declared. -/
def returnValues (declared : List Ty) (values : List Code) : CompileM Unit := do
  match values with
  | [value] =>
    if 1 < declared.length then return ← returnCall declared value
  | _ => pure ()
  if values.length ≠ declared.length then
    failAbout .invalidReturn
      (Decimal.ofNat values.length ++ " values for " ++ Decimal.ofNat declared.length ++ " results")
  emitResults (values.zip declared)
  emitInt .leave values.length

/-- Expressions with commas between them, each as code of its own. -/
def valueList (rules : Nested) : CompileM (List Code) := do
  repeatTurns [] fun values => do
    let values := values ++ [← capture rules.expression]
    if ← accept "," then pure (.again values) else pure (.done values)

/-- The end of a function, or of the source. A bare `return` gives the named results. -/
def returnStatement (rules : Nested) : CompileM Unit := do
  moveCursor Token.Cursor.skip
  let d := (← get).draft
  if ← atStatementEnd then
    emitLoads d.namedResults
    emitInt .leave d.namedResults.length
  else
    let values ← valueList rules
    match d.returns with
    | some declared => returnValues declared values
    | none =>
      values.forM append
      emitInt .leave values.length

/-! ## Dispatch -/

/-- A method, a function with a name, or an expression that starts with a function. -/
def functionStatement (rules : Nested) : CompileM Unit := do
  if ← startsMethod then methodDeclaration rules
  else if (← peek 2).isIdentifier then namedFunction rules
  else expressionStatement rules

/-- A statement that a reserved word starts. -/
def keywordStatement (rules : Nested) (word : String) : CompileM Unit := do
  match word with
  | "var" => variableStatement rules
  | "const" => constantStatement rules
  | "array" => arrayStatement rules
  | "assert" => assertStatement rules
  | "break" | "continue" => loopControl
  | "call" =>
    moveCursor Token.Cursor.skip
    expressionStatement rules
  | "for" => forStatement rules (simpleStatement rules)
  | "if" => rules.ifStatement
  | "switch" => switchStatement rules
  | "try" => tryStatement rules
  | "func" => functionStatement rules
  | "go" => goStatement rules
  | "import" => importStatement rules
  | "package" => packageStatement
  | "print" => printStatement rules
  | "return" => returnStatement rules
  | "type" => typeStatement
  | "fallthrough" => fail .invalidLoopControl
  | "nil" | "map" | "chan" | "interface" | "struct" => simpleStatement rules
  | _ => fail .unexpectedToken

/-- A statement. -/
def statementWith (rules : Nested) : CompileM Unit := do
  if !(← accept ";") then
    atLine
    let t ← current
    if t.is "\x7b" then block rules
    else if t.is "@" then directive rules
    else if t.tag == .reserved then keywordStatement rules t.spelling
    else simpleStatement rules
    if !(← accept ";") then
      if !(← atStatementEnd) then fail .unexpectedToken

end StackScript.CompileM
