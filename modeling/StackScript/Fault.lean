import StackScript.Decimal.Shortest

/-!
# Faults

Every failure of the language is a fault: a kind, as much of a position as the phase that raised
it knew, a short context, and the reports of what caused it. Wording lives here only.

Main statements: `Fault.locate_idem` (a located fault keeps its position) and
`Fault.locate_kind` (locating never changes what went wrong).
-/
namespace StackScript

/-- What went wrong. -/
inductive FaultKind where
  -- scanning
  | unterminatedString
  | invalidEscape
  | invalidNumber
  | unexpectedCharacter
  -- compiling
  | unexpectedToken
  | unexpectedEnd
  | missing (text : String)
  | invalidSymbolName
  | reservedWord
  | duplicateDeclaration
  | invalidConstant
  | missingCatch
  | missingFunctionBody
  | invalidReturn
  | invalidTypeSpec
  | invalidAssignment
  | invalidLoopControl
  | invalidDirective
  | packageNotFound
  | invalidImport
  -- running
  | stackUnderflow
  | invalidAddress
  | unimplementedInstruction
  | unknownIdentifier
  | symbolExists
  | readOnly
  | divisionByZero
  | invalidType
  | typeMismatch
  | invalidFunctionCall
  | argumentCount
  | argumentType
  | invalidIndex
  | invalidSlice
  | invalidField
  | invalidTryState
  | voidReturn
  | unusedErrorReturn
  | multipleResults
  | invalidConversion
  | invalidMarker
  | channelClosed
  | invalidTemplate
  | sealedCode
  | native (message : String)
  -- raised by programs
  | panic
  -- control
  | stop
  | debuggerSignal
  -- the host
  | io
  | json
  /-- The bound on nesting or on steps that the caller gave was reached. -/
  | limitReached
deriving Repr, DecidableEq

/-- The phase that a kind of fault belongs to, the first part of a diagnostic. -/
inductive FaultClass where
  | tokenizer
  | compile
  | runtime
  | panic
  | control
  | host
deriving Repr, DecidableEq

namespace FaultClass

/-- The name of the phase in diagnostics. -/
def name : FaultClass → String
  | tokenizer => "tokenizer error"
  | compile => "compile error"
  | runtime => "runtime error"
  | panic => "panic"
  | control => "control"
  | host => "host error"

end FaultClass

namespace FaultKind

/-- The short message of a kind. -/
def text : FaultKind → String
  | unterminatedString => "unterminated string"
  | invalidEscape => "invalid escape sequence"
  | invalidNumber => "invalid number"
  | unexpectedCharacter => "unexpected character"
  | unexpectedToken => "unexpected token"
  | unexpectedEnd => "unexpected end of input"
  | missing text => "missing '" ++ text ++ "'"
  | invalidSymbolName => "invalid symbol name"
  | reservedWord => "reserved word"
  | duplicateDeclaration => "duplicate declaration"
  | invalidConstant => "invalid constant expression"
  | missingCatch => "missing catch"
  | missingFunctionBody => "missing function body"
  | invalidReturn => "invalid return"
  | invalidTypeSpec => "invalid type specification"
  | invalidAssignment => "invalid assignment target"
  | invalidLoopControl => "break or continue outside loop"
  | invalidDirective => "invalid directive"
  | packageNotFound => "package not found"
  | invalidImport => "invalid import"
  | stackUnderflow => "stack underflow"
  | invalidAddress => "invalid bytecode address"
  | unimplementedInstruction => "unimplemented instruction"
  | unknownIdentifier => "unknown identifier"
  | symbolExists => "symbol already exists"
  | readOnly => "readonly symbol"
  | divisionByZero => "division by zero"
  | invalidType => "invalid type for operation"
  | typeMismatch => "type mismatch"
  | invalidFunctionCall => "invalid function call"
  | argumentCount => "incorrect function argument count"
  | argumentType => "incorrect function argument type"
  | invalidIndex => "invalid array index"
  | invalidSlice => "invalid slice"
  | invalidField => "invalid field name"
  | invalidTryState => "invalid try/catch state"
  | voidReturn => "function returned void"
  | unusedErrorReturn => "unused error return"
  | multipleResults => "multiple-value result in single-value context"
  | invalidConversion => "invalid conversion"
  | invalidMarker => "invalid stack marker"
  | channelClosed => "channel closed"
  | invalidTemplate => "invalid template"
  | sealedCode => "sealed bytecode"
  | native message => message
  | panic => "panic"
  | stop => "stop"
  | debuggerSignal => "debugger signal"
  | io => "i/o error"
  | json => "json error"
  | limitReached => "limit reached"

/-- The kinds without a text of their own. -/
def plain : List FaultKind :=
  [unterminatedString, invalidEscape, invalidNumber, unexpectedCharacter, unexpectedToken,
   unexpectedEnd, invalidSymbolName, reservedWord, duplicateDeclaration, invalidConstant,
   missingCatch, missingFunctionBody, invalidReturn, invalidTypeSpec, invalidAssignment,
   invalidLoopControl, invalidDirective, packageNotFound, invalidImport, stackUnderflow,
   invalidAddress, unimplementedInstruction, unknownIdentifier, symbolExists, readOnly,
   divisionByZero, invalidType, typeMismatch, invalidFunctionCall, argumentCount, argumentType,
   invalidIndex, invalidSlice, invalidField, invalidTryState, voidReturn, unusedErrorReturn,
   multipleResults, invalidConversion, invalidMarker, channelClosed, invalidTemplate, sealedCode,
   panic, stop, debuggerSignal, io, json, limitReached]

/-- Stops and debugger signals end a run; `try` never catches them. -/
def isControl : FaultKind → Bool
  | stop | debuggerSignal | limitReached => true
  | _ => false

/-- The phase a kind belongs to. -/
def phase : FaultKind → FaultClass
  | unterminatedString | invalidEscape | invalidNumber | unexpectedCharacter => .tokenizer
  | unexpectedToken | unexpectedEnd | missing _ | invalidSymbolName | reservedWord
  | duplicateDeclaration | invalidConstant | missingCatch | missingFunctionBody | invalidReturn
  | invalidTypeSpec | invalidAssignment | invalidLoopControl | invalidDirective
  | packageNotFound | invalidImport => .compile
  | panic => .panic
  | stop | debuggerSignal | limitReached => .control
  | io | json => .host
  | _ => .runtime

end FaultKind

/-- One failure without its causes. A line or column of zero is unknown. -/
structure Report where
  kind : FaultKind
  moduleName : Option String := none
  line : Nat := 0
  column : Nat := 0
  context : Option String := none
deriving Repr, DecidableEq

/-- A failure with what caused it, the nearest cause first. -/
structure Fault extends Report where
  causes : List Report := []
deriving Repr, DecidableEq

/-- The message of one report: the kind and its context. A panic shows its context alone. -/
def Report.message (r : Report) : String :=
  match r.kind, r.context with
  | .panic, some context => context
  | kind, some context => kind.text ++ ": " ++ context
  | kind, none => kind.text

namespace Fault

/-- A fault of a kind that nothing more is known of. -/
def of (kind : FaultKind) : Fault := { kind := kind }

/-- A fault with a context. -/
def about (kind : FaultKind) (context : String) : Fault := { kind := kind, context := some context }

/-- A fault raised by a builtin with a text of its own. -/
def native (message : String) : Fault := of (.native message)

/-- Attach a position; a line of zero leaves the fault as it is. -/
def positioned (f : Fault) (line column : Nat) : Fault :=
  if 0 < line then { f with line := line, column := column } else f

/-- Attach a module. -/
def inModule (f : Fault) (name : String) : Fault := { f with moduleName := some name }

/-- Attach a context. -/
def withContext (f : Fault) (context : String) : Fault := { f with context := some context }

/-- Attach a cause together with its own causes. -/
def causedBy (f : Fault) (cause : Fault) : Fault :=
  { f with causes := cause.toReport :: cause.causes }

/-- Fill in the module and the line where they are still unknown. -/
def locate (f : Fault) (moduleName : String) (line : Nat) : Fault :=
  { f with
    moduleName := some (f.moduleName.getD moduleName)
    line := if f.line = 0 then line else f.line }

/-- The message without positions, the causes after commas. -/
def message (f : Fault) : String :=
  f.causes.foldl (fun text cause => text ++ ", " ++ cause.message) f.toReport.message

/-- Whether a position is known. -/
def hasPosition (f : Fault) : Bool := 0 < f.line

/-- Where the fault was raised, as far as it is known. -/
def position (f : Fault) : String :=
  (match f.moduleName with | some name => ", in " ++ name | none => "") ++
  (if 0 < f.line then
    ", at line " ++ Decimal.ofNat f.line ++
      (if 0 < f.column then ", column " ++ Decimal.ofNat f.column else "")
  else "")

/-- The full diagnostic: phase, position, message. -/
def display (f : Fault) : String :=
  f.kind.phase.name ++ f.position ++ ", " ++ f.message

theorem locate_kind (f : Fault) (m : String) (n : Nat) : (f.locate m n).kind = f.kind := rfl

theorem locate_idem (f : Fault) (m m' : String) (n n' : Nat) (h : n ≠ 0) :
    (f.locate m n).locate m' n' = f.locate m n := by
  simp only [locate]
  by_cases hf : f.line = 0 <;> simp [hf, h]

end Fault

end StackScript
