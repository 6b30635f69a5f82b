import StackScript.Machine.Aggregate
import StackScript.Template

/-!
# Instructions on output and checks

Printing, templates, timers, receivers of methods, and the checks of arguments and types.

Main statements: `printed_output` (printing adds to what was printed).
-/
namespace StackScript.Exec

/-- Print a text. -/
def write (text : String) : Exec Unit := (World.write text : WorldM Unit)

/-- Print values with blanks between them. -/
def print (operand : Operand) : Exec Unit := do
  let vs ← popValues (countOf operand 1)
  let s ← getThe Store
  write (Text.join " " (vs.map (·.display s)))

/-- Print a value on a line of its own; a call without results prints nothing. -/
def say : Exec Unit := do
  let v ← pop
  if v.isMarker then pure () else write ((← ofStore v.display) ++ "\n")

/-- Note a value in the log, which no program can read. -/
def log : Exec Unit := do
  let _ ← popValue

/-- Replace a text by the template it stands for. -/
def makeTemplate (operand : Operand) : Exec Unit := do
  match ← popValue with
  | .string source =>
    match Template.ofSource (operand.asName?.getD "template") source with
    | .ok t => push (.template t)
    | .error f => throw f
  | v => throw (.about .invalidTemplate (← ofStore v.typeName))

/-- The text of a span of milliseconds. -/
def spanText (millis : Int) : String := Decimal.ofInt millis ++ "ms"

/-- Start a timer, or stop the one started last and push the time it took. -/
def timer (operand : Operand) : Exec Unit := do
  let now := (← getThe World).clock
  if (operand.asInt?.getD 0) = 0 then
    modifyContext fun c => { c with timers := now :: c.timers }
  else
    match ← ofContext Context.timers with
    | [] => throw (.about .stackUnderflow "timer")
    | start :: rest =>
      modifyContext fun c => { c with timers := rest }
      push (.string (spanText (now - start)))

/-- Take the top of the stack as the receiver of the next call. -/
def setReceiver : Exec Unit := do
  let v ← popValue
  modifyContext fun c => { c with receivers := c.receivers.push v }

/-- The name that a receiver is bound to. -/
def receiverName : String := "_this"

/-- The name that the arguments of a call are bound to. -/
def argumentsName : String := "_args"

/-- Push the receiver of the current call. -/
def loadReceiver : Exec Unit := do
  let r ← scope
  match ← ofStore fun s => r.get? s receiverName false with
  | some v => push v
  | none => throw (.about .invalidFunctionCall "missing receiver")

/-- The number of arguments of the current call. -/
def argumentCount : Exec Nat := do
  let r ← scope
  ofStore fun s => ((r.getLocal? s argumentsName).bind (·.length? s)).getD 0

/-- Check the number of arguments against a least and a greatest one; a negative greatest one is
no limit. -/
def checkArguments (operand : Operand) : Exec Unit := do
  let parts := (operand.asTuple?).getD []
  let least := ((parts[0]?).bind Operand.asInt?).getD 0
  let most := ((parts[1]?).bind Operand.asInt?).getD (-1)
  let name := ((parts[2]?).bind Operand.asName?).getD "function"
  let count : Int ← argumentCount
  if count < least.toInt || (0 ≤ most.toInt && most.toInt < count) then
    throw (.about .argumentCount name)

/-- The fault of a value that has not the type it must have. -/
def mismatch (s : Store) (v : Value) (t : Ty) : Fault :=
  .about .typeMismatch (v.typeName s ++ " is not " ++ t.display)

/-- Check or convert the top of the stack, as the strictness says. -/
def requireType (operand : Operand) : Exec Unit := do
  let t ← typeOf operand
  let v ← popValue
  match ← ofContext Context.strictness with
  | .strict =>
    let s ← getThe Store
    if !(v.typeOf s).compatible t && !v.isNil then throw (mismatch s v t) else push v
  | .dynamic => push v
  | .relaxed => push (← (v.coerce t : StoreM Value))

/-- Change the strictness. -/
def setStrictness (operand : Operand) : Exec Unit :=
  match operand.asInt? with
  | some level => modifyContext fun c => { c with strictness := .ofLevel level }
  | none => wrongOperand .invalidDirective operand

theorem printed_output (text : String) (c : Context) (w : World) (s : Store) :
    (write text c w s).1.2.output = w.output ++ text := rfl

end StackScript.Exec
