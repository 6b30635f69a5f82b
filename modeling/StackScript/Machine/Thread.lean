import StackScript.Machine.Step
import StackScript.Compiler.Program

/-!
# Threads

A thread is a context with those that wait for it: a builtin that calls back, as a sort by a
comparison or the evaluation of a source, goes on in a context of its own. A thread runs until it
ends, has to wait, or has used up its share.

Main statements: `poll_group_pos` (nobody gets past a wait group that counts more than none) and
`handle_stop` (a stop is not a failure).
-/
namespace StackScript

/-- What becomes of the end of an inner context. -/
inductive Resumption where
  /-- Its result is the value of the call. -/
  | value
  /-- Its result is a comparison. -/
  | comparison (s : Sorting)

/-- A context that waits for an inner one. -/
structure Caller where
  context : Context
  call : PendingCall
  resumption : Resumption

/-- Where a thread stands. -/
inductive Signal where
  | runs
  | blocked (call : PendingCall) (wait : Wait)
  | asks (call : PendingCall) (answer : Answer)
  | ended (result : Except Fault Unit)

/-- A line of execution. -/
structure Thread where
  context : Context
  /-- Contexts that wait for this one, the nearest first. -/
  callers : List Caller := []
  signal : Signal := .runs

/-! ## Contexts -/

namespace Context

/-- What becomes of a fault: it ends the context unless a protected block catches it. -/
def handle (c : Context) (f : Fault) (s : Store) : Signal × Context × Store :=
  match f.kind with
  | .stop => (.ended (.ok ()), { c with state := .stopped }, s)
  | .debuggerSignal =>
    (.ended (.error (f.locate c.moduleName c.line)), { c with state := .suspended }, s)
  | _ =>
    let f := f.locate c.moduleName c.line
    match if f.kind.isControl then none else c.catch? f s with
    | some (c, s) => (.runs, c, s)
    | none => (.ended (.error f), { c with state := .stopped }, s)

/-- Run a context for at most so many steps; how many are left when it stops running. -/
def run : (steps : Nat) → Context → World → Store → Signal × Nat × Context × World × Store
  | 0, c, w, s => (.runs, 0, c, w, s)
  | steps + 1, c, w, s =>
    match Exec.step c w s with
    | (((.ok .goesOn, c), w), s) => run steps c w s
    | (((.ok .finished, c), w), s) =>
      (.ended (.ok ()), steps, { c with state := .stopped }, w, s)
    | (((.ok (.asks call answer), c), w), s) => (.asks call answer, steps, c, w, s)
    | (((.error f, c), w), s) =>
      match c.handle f s with
      | (.runs, c, s) => run steps c w s
      | (signal, c, s) => (signal, steps, c, w, s)

theorem handle_stop (c : Context) (s : Store) :
    c.handle (.of .stop) s = (.ended (.ok ()), { c with state := .stopped }, s) := rfl

/-- A context that has been started. -/
def started (c : Context) : Context := { c with state := .running }

end Context

/-! ## Calls from outside code -/

namespace Value

/-- A unit that calls a value with arguments and perhaps a receiver. -/
def invocation (f : Value) (args : List Value) (receiver : Option Value) (s : Store) : Code :=
  let pushes := (f :: args).map fun v => Instruction.mk .push (.value v)
  let receiving : List Instruction := match receiver with
    | some v => [⟨.push, .value v⟩, ⟨.setThis, .none⟩]
    | none => []
  let flags : CallFlags := { multi := true, receiver := receiver.isSome }
  let count := Int64.ofNat args.length
  let ending : List Instruction :=
    [⟨.call, .tuple [.int count, .int flags.toInt]⟩, ⟨.stop, .none⟩]
  let instructions := (pushes ++ receiving ++ ending).toArray
  { name := "invoke " ++ f.typeName s
    instructions := instructions
    capacity := instructions.size
    isSealed := true
    package := match f with
      | .function code _ => (s.code code).package
      | _ => none }

/-- A context that calls a value, its names looked up from a table. -/
def invoke (f : Value) (args : List Value) (receiver : Option Value) (table : TableRef) (w : World)
    (s : Store) : Context × Store :=
  let (code, s) := s.newCode (f.invocation args receiver s)
  ((Context.new s w.settings.strictness code table).started, s)

end Value

/-- Compile with a compiler; units of the store and of the compiler are the same. -/
def CompileM.into {α : Type} (m : CompileM α) (c : Compiler) (s : Store) :
    Except Fault α × Compiler × Store :=
  match m.run.run { c with codes := s.codes } with
  | (r, c) => (r, { c with codes := #[] }, { s with codes := c.codes })

/-- The name of the unit that an evaluated source becomes. -/
def evaluationName : String := "eval"

/-- A context that evaluates an expression. -/
def evaluation (source : String) (table : TableRef) (w : World) (s : Store) :
    Except Fault Context × Store :=
  match (CompileM.compileExpression source).into (.new evaluationName w.settings) s with
  | (.ok code, _, s) =>
    let (code, s) := s.newCode code
    (.ok (Context.new s w.settings.strictness code table).started, s)
  | (.error f, _, s) => (.error f, s)

/-! ## Waiting -/

namespace Wait

/-- What a receiver gets: a value, and whether it was a message. -/
def received (v : Value) (isMessage multiple : Bool) (s : Store) : Value × Store :=
  if multiple then
    let (r, s) := s.newTuple [v, .bool isMessage]
    (.tuple r, s)
  else (v, s)

/-- The value of a call that waited, if what it waits for has come. -/
def poll (wait : Wait) (w : World) (s : Store) : Option (Value × Store) :=
  match wait with
  | .clock time => if time ≤ w.clock then some (.nil, s) else none
  | .group r => if 0 < s.waitGroup r then none else some (.nil, s)
  | .lock r => if s.mutex r then none else some (.nil, s.setMutex r true)
  | .send r message =>
    let c := s.channel r
    if c.buffer.length < c.capacity then
      some (.nil, s.modifyChannel r fun c =>
        { c with buffer := c.buffer ++ [message], handles := c.handles - 1 })
    else none
  | .receive r multiple =>
    let c := s.channel r
    match c.buffer with
    | v :: rest => some (received v true multiple (s.modifyChannel r ({ · with buffer := rest })))
    | [] =>
      if c.closed ∧ c.handles = 0 then
        match Value.zero c.element s with
        | (.ok v, s) => some (received v false multiple s)
        | (.error _, s) => some (received .nil false multiple s)
      else none
  | .never => none

/-- When the clock will have come, for what waits for the clock. -/
def time? : Wait → Option Int
  | .clock time => some time
  | _ => none

theorem poll_group_pos {r : WaitGroupRef} {s : Store} (h : 0 < s.waitGroup r) (w : World) :
    (Wait.group r).poll w s = none := by
  simp [poll, h]

end Wait

/-! ## Running -/

namespace Thread

/-- Hand the result of a builtin to the context that called it. -/
def deliver (t : Thread) (call : PendingCall) (result : Except Fault Value) (w : World)
    (s : Store) : Thread × World × Store :=
  match Exec.complete call result t.context w s with
  | (((.ok (), c), w), s) => ({ t with context := c, signal := .runs }, w, s)
  | (((.error f, c), w), s) =>
    let (signal, c, s) := c.handle f s
    ({ t with context := c, signal := signal }, w, s)

/-- Go on in an inner context. -/
def enter (t : Thread) (call : PendingCall) (resumption : Resumption) (inner : Context) : Thread :=
  { context := inner, callers := ⟨t.context, call, resumption⟩ :: t.callers }

/-- Make the next comparison of a sort, or deliver what was sorted. -/
def sort (t : Thread) (call : PendingCall) (o : Sorting) (w : World) (s : Store) :
    Thread × World × Store :=
  match o.comparison? with
  | none =>
    let (r, s) := s.newArray { element := o.element, items := o.items }
    t.deliver call (.ok (.array r)) w s
  | some (a, b) =>
    if o.less.isCallable then
      let (inner, s) := o.less.invoke [a, b] none o.scope w s
      (t.enter call (.comparison o) inner, w, s)
    else t.deliver call (.error (.about .invalidFunctionCall (o.less.typeName s))) w s

/-- Wait for what a builtin waits for, if it has not come yet. -/
def await (t : Thread) (call : PendingCall) (wait : Wait) (w : World) (s : Store) :
    Thread × World × Store :=
  match wait.poll w s with
  | some (v, s) => t.deliver call (.ok v) w s
  | none => ({ t with signal := .blocked call wait }, w, s)

/-- Do what a builtin asks for. -/
def serve (t : Thread) (call : PendingCall) (answer : Answer) (w : World) (s : Store) :
    Thread × World × Store :=
  match answer with
  | .value v => t.deliver call (.ok v) w s
  | .wait wait => t.await call wait w s
  | .sort o => t.sort call o w s
  | .evaluate source =>
    match evaluation source t.context.scope w s with
    | (.ok inner, s) => (t.enter call .value inner, w, s)
    | (.error f, s) => t.deliver call (.error f) w s

/-- Go back to the context that waits for the one that has ended. -/
def leave (t : Thread) (caller : Caller) (callers : List Caller) (result : Except Fault Unit)
    (w : World) (s : Store) : Thread × World × Store :=
  let inner := t.context
  let t : Thread := { context := caller.context, callers := callers }
  match result with
  | .error f => t.deliver caller.call (.error f) w s
  | .ok () =>
    match caller.resumption with
    | .value => t.deliver caller.call (.ok inner.result) w s
    | .comparison o =>
      match inner.results s with
      | (.ok v, s) => t.sort caller.call (o.compared v.isTruthy) w s
      | (.error f, s) => t.deliver caller.call (.error f) w s

/-- How a thread has ended, once it has. -/
def outcome? (t : Thread) : Option (Except Fault Unit) :=
  match t.signal, t.callers with
  | .ended result, [] => some result
  | _, _ => none

/-- Run a thread from where it stands for at most so many turns and steps. -/
def advance : (turns steps : Nat) → Thread → World → Store → Thread × World × Store
  | 0, _, t, w, s => (t, w, s)
  | turns + 1, steps, t, w, s =>
    match t.signal with
    | .blocked .. => (t, w, s)
    | .runs =>
      if steps = 0 then (t, w, s)
      else
        let (signal, left, c, w, s) := t.context.run steps w s
        advance turns left { t with context := c, signal := signal } w s
    | .asks call answer =>
      let (t, w, s) := t.serve call answer w s
      advance turns steps t w s
    | .ended result =>
      match t.callers with
      | [] => (t, w, s)
      | caller :: callers =>
        let (t, w, s) := t.leave caller callers result w s
        advance turns steps t w s

/-- The share of a thread: so many steps, and as many turns. -/
def share : Nat := 10000

/-- Give a thread its share; whether it could make any use of it. -/
def slice (t : Thread) (w : World) (s : Store) : Bool × Thread × World × Store :=
  match t.signal with
  | .blocked call wait =>
    match wait.poll w s with
    | none => (false, t, w, s)
    | some (v, s) =>
      let (t, w, s) := t.deliver call (.ok v) w s
      (true, advance share share t w s)
  | _ => (true, advance share share t w s)

end Thread

end StackScript
