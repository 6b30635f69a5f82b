import StackScript.Code
import StackScript.Token.Cursor
import StackScript.Settings
import StackScript.Files

/-!
# The state of compilation

A compiler walks the tokens once and emits instructions as it recognises each construct; there is
no tree. A branch forward is emitted with a placeholder and patched when its target is known. What
a source declares stays known to the sources compiled after it. A computation that fails keeps
what it has done to the state so far.

Main statements: `capture_code` (code compiled on the side leaves the draft's code as it was).
-/
namespace StackScript

/-- What `break` leaves. -/
inductive Breakable where
  | loop
  | switch
deriving Repr, DecidableEq

/-- Branches to patch when an enclosing loop or switch ends. -/
structure OpenLoop where
  kind : Breakable
  breaks : List Nat := []
  continues : List Nat := []
  /-- Open scopes where the target stands. -/
  scopeDepth : Nat
  /-- Open protected blocks where the target stands. -/
  tryDepth : Nat
deriving Repr

/-- The unit being compiled: a source or the body of a function. -/
structure Draft where
  code : Code
  /-- Names declared in each open block, the innermost first. -/
  scopes : List (List String) := [[]]
  /-- Enclosing loops and switches, the innermost first. -/
  loops : List OpenLoop := []
  scopeDepth : Nat := 0
  tryDepth : Nat := 0
  lastLine : Nat := 0
  /-- Declared result types, inside a function. -/
  returns : Option (List Ty) := none
  namedResults : List String := []

/-- What a compiler knows. -/
structure Compiler where
  moduleName : String
  cursor : Token.Cursor := {}
  draft : Draft
  /-- Declared types. -/
  types : List (String × Ty) := []
  /-- The declared types that are structs with a model value. -/
  structTypes : List String := []
  /-- Names declared as constants. -/
  constants : List String := []
  strictness : Strictness := .relaxed
  /-- Whether names are lower-cased. -/
  normalize : Bool := false
  package : Option String := none
  /-- Whether a function `main` was declared at the top level. -/
  hasMain : Bool := false
  imported : List String := []
  /-- The directory that imports are looked for in first. -/
  baseDirectory : Option String := none
  importPath : List String := []
  /-- Names declared at the top level, in order. -/
  exports : List String := []
  /-- Whether the values of expression statements are shown. -/
  echo : Bool := false
  /-- Whether a brace after a type name opens a body instead of a literal. -/
  noStructLiteral : Bool := false
  /-- Names made up so far. -/
  tempCounter : Nat := 0
  /-- Finished units; functions refer to them by place. -/
  codes : Array Code := #[]
  /-- The files that imports are read from. -/
  files : Files := {}

/-- A compiler that has seen nothing yet. -/
def Compiler.new (moduleName : String) (settings : Settings) : Compiler :=
  { moduleName := moduleName
    draft := { code := { name := moduleName } }
    strictness := settings.strictness
    normalize := settings.normalize
    importPath := settings.importPath }

/-- Steps of compilation. -/
abbrev CompileM := ExceptT Fault (StateM Compiler)

/-- The constructs that contain others of their own sort, as far down as they are read. -/
structure Nested where
  expression : CompileM Unit
  unary : CompileM Unit
  statement : CompileM Unit
  ifStatement : CompileM Unit
  /-- Compile the package of a name from its source, found in a directory. -/
  package : (name source : String) → (directory : Option String) → CompileM CodeRef

namespace CompileM

/-! ## Tokens -/

/-- Change the cursor. -/
def moveCursor (f : Token.Cursor → Token.Cursor) : CompileM Unit :=
  modify fun c => { c with cursor := f c.cursor }

/-- The next token. -/
def current : CompileM Token := do pure (← get).cursor.current

/-- A token ahead. -/
def peek (n : Nat) : CompileM Token := do pure ((← get).cursor.peek n)

/-- Read a token. -/
def next : CompileM Token := do
  let t ← current
  moveCursor Token.Cursor.skip
  pure t

/-- Go back by one token. -/
def back (n : Nat) : CompileM Unit := moveCursor (·.advance (-(n : Int)))

/-- Whether all tokens were read. -/
def atEnd : CompileM Bool := do pure (← get).cursor.atEnd

/-- Whether the next token is this word. -/
def isNext (text : String) : CompileM Bool := do pure ((← get).cursor.isNext text)

/-- Whether the next token is one of these words. -/
def isAnyNext (texts : List String) : CompileM Bool := do pure ((← get).cursor.isAnyNext texts)

/-- Read the next token if it is this word. -/
def accept (text : String) : CompileM Bool := do
  if ← isNext text then
    moveCursor Token.Cursor.skip
    pure true
  else pure false

/-- A fault at the next token, or at the last one when there is none. -/
def faultHere (kind : FaultKind) : CompileM Fault := do
  let c ← get
  let t := c.cursor.current
  let place := if t.isEnd then c.cursor.previous else t
  let f := ((Fault.of kind).inModule c.moduleName).positioned place.line place.column
  pure (if t.spelling = "" then f else f.withContext t.spelling)

/-- Fail at the next token. -/
def fail {α : Type} (kind : FaultKind) : CompileM α := do throw (← faultHere kind)

/-- Fail at the next token with a context. -/
def failAbout {α : Type} (kind : FaultKind) (context : String) : CompileM α := do
  throw ((← faultHere kind).withContext context)

/-- Read this word or fail. -/
def expect (text : String) : CompileM Unit := do
  if !(← accept text) then fail (.missing text)

/-- The name that an identifier stands for. -/
def spell (t : Token) : CompileM String := do
  pure (if (← get).normalize then Text.toLower t.spelling else t.spelling)

/-- Read a name. -/
def identifier : CompileM String := do
  let t ← current
  match t.tag with
  | .identifier =>
    moveCursor Token.Cursor.skip
    spell t
  | .reserved => fail .reservedWord
  | .endOfInput => fail .unexpectedEnd
  | _ => fail .invalidSymbolName

/-- Whether the next token starts on the line of the one before it. -/
def sameLine : CompileM Bool := do
  let c := (← get).cursor
  pure (!c.atEnd && c.current.line == c.previous.line)

/-- Whether nothing more belongs to the statement. -/
def atStatementEnd : CompileM Bool := do
  if ← atEnd then pure true
  else if ← isAnyNext [";", "\x7d"] then pure true
  else pure !(← sameLine)

/-! ## Loops

Every turn of a loop below reads a token or fails, so as many turns as there are tokens left, and
one more, are enough. -/

/-- What a turn of a loop comes to. -/
inductive Turn (σ β : Type) where
  | again (state : σ)
  | done (result : β)

/-- Take turns, at most `bound` of them. -/
def turns {σ β : Type} (turn : σ → CompileM (Turn σ β)) : (bound : Nat) → σ → CompileM β
  | 0, _ => throw (.of .limitReached)
  | bound + 1, state => do
    match ← turn state with
    | .again state => turns turn bound state
    | .done result => pure result

/-- How many turns any loop can take from here. -/
def turnBound : CompileM Nat := do
  let c := (← get).cursor
  pure (c.tokens.size - c.pos + 2)

/-- Take turns until one is the last. -/
def repeatTurns {σ β : Type} (state : σ) (turn : σ → CompileM (Turn σ β)) : CompileM β := do
  turns turn (← turnBound) state

/-- Take turns while they ask for another. -/
def repeatWhile (turn : CompileM Bool) : CompileM Unit :=
  repeatTurns () fun _ => do
    if ← turn then pure (.again ()) else pure (.done ())

/-! ## Emission -/

/-- Change the draft. -/
def modifyDraft (f : Draft → Draft) : CompileM Unit :=
  modify fun c => { c with draft := f c.draft }

/-- Replace the draft's code by the result of an operation on it. -/
def editCode (f : Code → Except Fault Code) : CompileM Unit := do
  match f (← get).draft.code with
  | .ok code => modifyDraft fun d => { d with code := code }
  | .error fault => throw fault

/-- The address of the next instruction. -/
def mark : CompileM Nat := do pure (← get).draft.code.size

/-- Emit an instruction. -/
def emit (op : Opcode) (operand : Operand) : CompileM Unit := editCode (·.emit op operand)

/-- Emit an instruction without an operand. -/
def emitOp (op : Opcode) : CompileM Unit := emit op .none

/-- Emit an instruction on a name. -/
def emitName (op : Opcode) (name : String) : CompileM Unit := emit op (.name name)

/-- Emit a number with an instruction. -/
def emitInt (op : Opcode) (n : Nat) : CompileM Unit := emit op (.int (Int64.ofNat n))

/-- Emit the push of a value. -/
def emitValue (v : Value) : CompileM Unit := emit .push (.value v)

/-- Emit a check against a type. -/
def emitTyped (op : Opcode) (t : Ty) : CompileM Unit := emit op (.value (.type t))

/-- Emit a branch that is patched later, and say where it stands. -/
def emitFixup (op : Opcode) : CompileM Nat := do
  let here ← mark
  emit op (.address 0)
  pure here

/-- Patch a branch. -/
def patch (fixup target : Nat) : CompileM Unit := editCode (·.setAddress fixup target)

/-- Patch a branch to lead to the next instruction. -/
def patchHere (fixup : Nat) : CompileM Unit := do patch fixup (← mark)

/-- Patch branches to one target. -/
def patchAll (fixups : List Nat) (target : Nat) : CompileM Unit :=
  fixups.forM fun fixup => patch fixup target

/-- Emit a marker. -/
def emitMarker (m : Marker) : CompileM Unit := emitValue (.marker m)

/-- Emit the removal of everything down to a marker. -/
def emitDropTo (m : Marker) : CompileM Unit := emitName .dropToMarker m.label

/-- Emit a call. -/
def emitCall (count : Nat) (flags : CallFlags) : CompileM Unit :=
  emit .call (callOperand count flags.toInt)

/-- If the last instruction is a call, ask it for every result; whether it is one. -/
def requestMultiple : CompileM Bool := do
  let code := (← get).draft.code
  match code.instructions.back? with
  | some i =>
    if i.op == .call then
      let (count, flags) := callParts i.operand
      editCode (·.emitAt (code.size - 1) .call
        (.tuple [.int (Int64.ofNat count), .int (flags ||| 2)]))
      pure true
    else pure false
  | none => pure false

/-- Note the line of the statement that follows. -/
def atLine : CompileM Unit := do
  let line := (← current).line
  if 0 < line ∧ line ≠ (← get).draft.lastLine then
    emitInt .atLine line
    modifyDraft fun d => { d with lastLine := line }

/-- Replace the draft's code. -/
def setCode (code : Code) (c : Compiler) : Compiler := { c with draft := { c.draft with code := code } }

/-- Compile on the side and hand the code back; the draft's own code is left as it was. -/
def capture (step : CompileM Unit) : CompileM Code := fun c =>
  let own := c.draft.code
  match step (setCode { name := "scratch" } c) with
  | (.ok (), c) => (.ok c.draft.code, setCode own c)
  | (.error f, c) => (.error f, setCode own c)

/-- Add captured code. -/
def append (code : Code) : CompileM Unit := editCode (·.append code)

/-- Run a step with struct literals allowed or not, and restore what was allowed before only if
it succeeds. -/
def withLiterals {α : Type} (noStructLiteral : Bool) (step : CompileM α) : CompileM α := do
  let saved := (← get).noStructLiteral
  modify fun c => { c with noStructLiteral := noStructLiteral }
  let result ← step
  modify fun c => { c with noStructLiteral := saved }
  pure result

/-- Run a step inside a statement's head, where a brace opens the body. -/
def inHead (step : CompileM Unit) : CompileM Unit := fun c =>
  let (result, after) := step { c with noStructLiteral := true }
  (result, { after with noStructLiteral := c.noStructLiteral })

/-! ## Names -/

/-- A made-up name. -/
def tempName (stem : String) : CompileM String := do
  modify fun c => { c with tempCounter := c.tempCounter + 1 }
  pure ("$" ++ stem ++ "_" ++ Decimal.ofNat (← get).tempCounter)

/-- Whether a name is declared in the innermost block. -/
def isDeclaredHere (name : String) : CompileM Bool := do
  pure ((((← get).draft.scopes.head?).getD []).contains name)

/-- Declare a name in the innermost block; whether it is new there. -/
def declare (name : String) : CompileM Bool := do
  match (← get).draft.scopes with
  | scope :: outer =>
    if scope.contains name then pure false
    else
      modifyDraft fun d => { d with scopes := (name :: scope) :: outer }
      pure true
  | [] => pure true

/-- Whether names declared here belong to the module itself. -/
def atTopLevel : CompileM Bool := do
  let d := (← get).draft
  pure (d.returns.isNone && d.scopes.length == 1)

/-- Open a scope. -/
def pushScope : CompileM Unit := do
  emitOp .pushScope
  modifyDraft fun d => { d with scopes := [] :: d.scopes, scopeDepth := d.scopeDepth + 1 }

/-- Close a scope. -/
def popScope : CompileM Unit := do
  emitInt .popScope 1
  modifyDraft fun d => { d with scopes := d.scopes.drop 1, scopeDepth := d.scopeDepth - 1 }

/-- Add a name to the exports. -/
def exportName (name : String) : CompileM Unit :=
  modify fun c => { c with exports := c.exports ++ [name] }

/-- Bind the top of the stack to a name that is new in the innermost block. -/
def createAndStore (name : String) : CompileM Unit := do
  if name = "_" then emitOp .drop
  else
    if !(← declare name) then failAbout .duplicateDeclaration name
    if ← atTopLevel then exportName name
    emitName .symbolCreate name
    emitName .store name

/-- Bind the top of the stack to a made-up name. -/
def createTemp (name : String) : CompileM Unit := do
  emitName .symbolCreate name
  emitName .store name

/-- Add a finished unit. -/
def addCode (code : Code) : CompileM CodeRef := do
  let place := (← get).codes.size
  modify fun c => { c with codes := c.codes.push code }
  pure ⟨place⟩

theorem capture_code (step : CompileM Unit) (c : Compiler) :
    ((capture step) c).2.draft.code = c.draft.code := by
  simp only [capture]
  split <;> rfl

end CompileM

end StackScript
