import StackScript.Machine.Thread

/-!
# The machine

The world, the store, and the goroutines that share them. A program's own thread and the
goroutines take turns; the clock goes on by a millisecond with every round, and when all of them
wait, it goes on to the next time that one of them waits for.

Main statements: `launch_none` (nothing is started unless it was launched).
-/
namespace StackScript

/-- What a program runs on. -/
structure Machine where
  world : World
  store : Store
  goroutines : List Thread := []

/-- How many rounds a run may take. No program that ends comes near it. -/
def roundLimit : Nat := 1000000000000000

namespace Machine

/-- A machine on which nothing has been run. -/
def new (settings : Settings) : Machine :=
  let (w, s) := World.new settings
  { world := w, store := s }

/-- The table of builtins. -/
def root (m : Machine) : TableRef := m.world.root

/-- Change the store. -/
def modifyStore (m : Machine) (f : Store → Store) : Machine := { m with store := f m.store }

/-! ## Goroutines -/

/-- Start the functions that were launched; their names are looked up from the root. -/
def startLaunched : List Launch → List Thread → World → Store → List Thread × Store
  | [], ts, _, s => (ts, s)
  | l :: rest, ts, w, s =>
    let (c, s) := l.callee.invoke l.args l.receiver w.root w s
    startLaunched rest (ts ++ [{ context := c }]) w s

/-- Add what was launched to the threads. -/
def launch (ts : List Thread) (w : World) (s : Store) : List Thread × World × Store :=
  let (ts, s) := startLaunched w.launched ts w s
  (ts, { w with launched := [] }, s)

theorem launch_none (ts : List Thread) {w : World} (h : w.launched = []) (s : Store) :
    launch ts w s = (ts, w, s) := by
  cases w
  subst h
  rfl

/-- Give every thread its share, and keep those that have not ended; the others count no more. -/
def sliceAll : List Thread → World → Store → Bool × List Thread × World × Store
  | [], w, s => (false, [], w, s)
  | t :: rest, w, s =>
    let (moved, t, w, s) := t.slice w s
    if t.outcome?.isSome then
      let (movedRest, rest, w, s) := sliceAll rest w.done s
      (moved || movedRest, rest, w, s)
    else
      let (movedRest, rest, w, s) := sliceAll rest w s
      (moved || movedRest, t :: rest, w, s)

/-- The times that threads wait for. -/
def alarms (ts : List Thread) : List Int :=
  ts.filterMap fun t => match t.signal with
    | .blocked _ wait => wait.time?
    | _ => none

/-- Move the clock on after a round: by a millisecond, or if no thread could move, to the next
time that one waits for. There is none when the threads wait for each other. -/
def tick (moved : Bool) (ts : List Thread) (w : World) : Option World :=
  if moved then some { w with clock := w.clock + 1 }
  else (alarms ts).min?.map fun time => { w with clock := max time w.clock }

/-- Run a thread to its end, with the others beside it. -/
def runBeside : (rounds : Nat) → Thread → List Thread → World → Store →
    Except Fault Unit × Context × List Thread × World × Store
  | 0, t, ts, w, s => (.error (.of .limitReached), t.context, ts, w, s)
  | rounds + 1, t, ts, w, s =>
    let (moved, t, w, s) := t.slice w s
    let (ts, w, s) := launch ts w s
    match t.outcome? with
    | some result => (result, t.context, ts, w, s)
    | none =>
      let (movedOthers, ts, w, s) := sliceAll ts w s
      let (ts, w, s) := launch ts w s
      match tick (moved || movedOthers) (t :: ts) w with
      | some w => runBeside rounds t ts w s
      | none => (.error (.of .limitReached), t.context, ts, w, s)

/-- Run threads until none counts any more or none can go on. -/
def runAll : (rounds : Nat) → List Thread → World → Store → World × Store
  | 0, _, w, s => (w, s)
  | rounds + 1, ts, w, s =>
    if 0 < w.active then
      let (moved, ts, w, s) := sliceAll ts w s
      let (ts, w, s) := launch ts w s
      match tick moved ts w with
      | some w => runAll rounds ts w s
      | none => (w, s)
    else (w, s)

/-! ## Running -/

/-- Run a context until it stops. -/
def runContext (m : Machine) (c : Context) : Except Fault Unit × Context × Machine :=
  let (result, c, ts, w, s) :=
    runBeside roundLimit { context := c.started } m.goroutines m.world m.store
  (result, c, { world := w, store := s, goroutines := ts })

/-- Run a context from an address of its unit. -/
def runFrom (m : Machine) (c : Context) (address : Nat) : Except Fault Unit × Context × Machine :=
  if (m.store.code c.code).size < address then (.error (Code.badAddress address), c, m)
  else m.runContext { c with pc := address }

/-- Go on with a context that was paused, or run one that was not started. -/
def resume (m : Machine) (c : Context) : Except Fault Unit × Context × Machine :=
  match c.state with
  | .created => m.runFrom c 0
  | .suspended => m.runContext c
  | .running | .stopped => (.ok (), c, m)

/-- Run all goroutines to their ends. -/
def join (m : Machine) : Machine :=
  let (ts, w, s) := launch m.goroutines m.world m.store
  let (w, s) := runAll roundLimit ts w s
  { world := w, store := s }

/-- A context that is about to run a unit under a table. -/
def context (m : Machine) (code : Code) (table : TableRef) : Context × Machine :=
  let (r, s) := m.store.newCode code
  (Context.new s m.world.settings.strictness r table, { m with store := s })

/-- Run a unit under a table. -/
def execute (m : Machine) (code : Code) (table : TableRef) : Except Fault Unit × Machine :=
  let (c, m) := m.context code table
  let (result, _, m) := m.runContext c
  (result, m)

/-- Call a value with arguments and perhaps a receiver. Several results make a tuple. -/
def call (m : Machine) (f : Value) (args : List Value) (receiver : Option Value)
    (table : TableRef) : Except Fault Value × Machine :=
  if f.isCallable then
    let (c, s) := f.invoke args receiver table m.world m.store
    match { m with store := s }.runContext c with
    | (.error f, _, m) => (.error f, m)
    | (.ok (), c, m) =>
      let (result, s) := c.results m.store
      (result, { m with store := s })
  else (.error (.about .invalidFunctionCall (f.typeName m.store)), m)

/-- Evaluate an expression under a table. -/
def evaluate (m : Machine) (source : String) (table : TableRef) : Except Fault Value × Machine :=
  match evaluation source table m.world m.store with
  | (.error f, s) => (.error f, { m with store := s })
  | (.ok c, s) =>
    match { m with store := s }.runContext c with
    | (.error f, _, m) => (.error f, m)
    | (.ok (), c, m) => (.ok c.result, m)

/-! ## Builtins -/

/-- Wait for something while the goroutines go on. -/
def awaitTo : (rounds : Nat) → Wait → Machine → Except Fault Value × Machine
  | 0, _, m => (.error (.of .limitReached), m)
  | rounds + 1, wait, m =>
    match wait.poll m.world m.store with
    | some (v, s) => (.ok v, { m with store := s })
    | none =>
      let (moved, ts, w, s) := sliceAll m.goroutines m.world m.store
      let (ts, w, s) := launch ts w s
      match if moved then tick true ts w else ((alarms ts ++ wait.time?.toList).min?).map fun time =>
          { w with clock := max time w.clock } with
      | some w => awaitTo rounds wait { world := w, store := s, goroutines := ts }
      | none => (.error (.of .limitReached), { world := w, store := s, goroutines := ts })

/-- Sort by calls of a comparison, at most so many. -/
def sortTo : (comparisons : Nat) → Sorting → Machine → Except Fault Value × Machine
  | 0, _, m => (.error (.of .limitReached), m)
  | comparisons + 1, o, m =>
    match o.comparison? with
    | none =>
      let (r, s) := m.store.newArray { element := o.element, items := o.items }
      (.ok (.array r), { m with store := s })
    | some (a, b) =>
      match m.call o.less [a, b] none o.scope with
      | (.ok v, m) => sortTo comparisons (o.compared v.isTruthy) m
      | (.error f, m) => (.error f, m)

/-- Call a builtin from outside code. The number of arguments is checked first. -/
def callBuiltin (m : Machine) (f : Native) (c : NativeCall) : Except Fault Value × Machine :=
  match f.checkArity c.args.length with
  | .error fault => (.error fault, m)
  | .ok () =>
    let ((answer, w), s) := f.run c m.world m.store
    let m := { m with world := w, store := s }
    match answer with
    | .error fault => (.error fault, m)
    | .ok (.value v) => (.ok v, m)
    | .ok (.wait wait) => awaitTo roundLimit wait m
    | .ok (.sort o) => sortTo (o.items.size * o.items.size + 1) o m
    | .ok (.evaluate source) => m.evaluate source c.caller

/-! ## Programs -/

/-- Compile with a compiler, whose units are added to the store. -/
def compileWith (m : Machine) (c : Compiler) (source : String) :
    Except Fault Code × Compiler × Machine :=
  let (result, c, s) := (CompileM.compile source).into { c with files := m.world.files } m.store
  (result, c, { m with store := s })

/-- The name of a program's table and of the function that is called when it has run. -/
def mainName : String := "main"

/-- A new table for a program's names. -/
def newMainTable (m : Machine) : TableRef × Machine :=
  let (r, s) := m.store.newChild m.root mainName
  (r, { m with store := s })

/-- Call the main function of a program unless it has exited. -/
def callMain (m : Machine) (table : TableRef) : Except Fault Unit × Machine :=
  if m.world.hasExited then (.ok (), m)
  else
    match table.get? m.store mainName false with
    | none => (.ok (), m)
    | some f =>
      let (result, m) := m.call f [] none table
      (result.map fun _ => (), m)

/-- Return from a program when all of its goroutines have ended. While one of them counts, it does
not return, so a run in which they cannot come to their ends is given up. -/
def finish (m : Machine) (result : Except Fault Unit) : Except Fault Unit × Machine :=
  let m := m.join
  (if 0 < m.world.active then .error (.of .limitReached) else result, m)

/-- Run a program in a table of its own: its statements, its main function if it is to be called,
and then its goroutines to their ends. -/
def runProgram (m : Machine) (code : Code) (callsMain : Bool) : Except Fault Unit × Machine :=
  let (table, m) := m.newMainTable
  match m.execute code table with
  | (.error f, m) => m.finish (.error f)
  | (.ok (), m) =>
    let (result, m) := if callsMain then m.callMain table else (.ok (), m)
    m.finish result

/-- Whether a compiled program has a main function that is called. -/
def callsMain (c : Compiler) : Bool := c.package == some mainName && c.hasMain

end Machine

end StackScript
