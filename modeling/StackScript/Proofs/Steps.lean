import StackScript.Proofs.Calls.Return

/-!
# Sequences of steps

Steps of a context that go on, counted, and where a step fails after them. Both say what a run of
the context comes to, however many steps it may still take.

Main statements: `Steps.run`, `Fails.run` (steps are taken off the number that a run may take),
`Steps.ends`, `Fails.ends` (how a run ends) and `step_ok` (a step performs the instruction that is
next).
-/
namespace StackScript

/-! ## Placed instructions -/

/-- A unit holds instructions from an address on. -/
def Placed (code : Code) (start : Nat) (is : List Instruction) : Prop :=
  ∀ (j : Nat) (i : Instruction), is[j]? = some i → code.instructions[start + j]? = some i

namespace Placed

variable {code : Code} {start : Nat} {is js : List Instruction} {i : Instruction}

theorem left (h : Placed code start (is ++ js)) : Placed code start is := by
  intro j i hj
  exact h j i (by rw [List.getElem?_append_left (List.getElem?_eq_some_iff.1 hj).1, hj])

theorem right (h : Placed code start (is ++ js)) : Placed code (start + is.length) js := by
  intro j i hj
  rw [Nat.add_assoc]
  exact h _ i (by rw [List.getElem?_append_right (Nat.le_add_right _ _), Nat.add_sub_cancel_left, hj])

theorem head (h : Placed code start (i :: is)) : code.instructions[start]? = some i := h 0 i rfl

theorem tail (h : Placed code start (i :: is)) : Placed code (start + 1) is :=
  @Placed.right code start [i] is h

theorem whole (code : Code) : Placed code 0 code.instructions.toList := by
  intro j i hj
  simpa using hj

end Placed

/-! ## Steps -/

/-- A context with the world and the store that it works on. -/
structure Snapshot where
  context : Context
  world : World
  store : Store

/-- One step leads from a snapshot to another and goes on. -/
def Snapshot.Goes (a b : Snapshot) : Prop :=
  Exec.step a.context a.world a.store = (((.ok .goesOn, b.context), b.world), b.store)

/-- So many steps lead from a snapshot to another, and all of them go on. -/
inductive Steps : (count : Nat) → Snapshot → Snapshot → Prop
  | refl {a : Snapshot} : Steps 0 a a
  | next {a b c : Snapshot} {n : Nat} (first : a.Goes b) (rest : Steps n b c) : Steps (n + 1) a c

/-- After some steps one fails, and leaves a snapshot behind. -/
def Fails (count : Nat) (a : Snapshot) (f : Fault) (b : Snapshot) : Prop :=
  ∃ c, Steps count a c ∧
    Exec.step c.context c.world c.store = (((.error f, b.context), b.world), b.store)

namespace Steps

variable {a b c : Snapshot} {m n : Nat}

theorem one (h : a.Goes b) : Steps 1 a b := .next h .refl

theorem trans (h : Steps m a b) (k : Steps n b c) : Steps (m + n) a c := by
  induction h with
  | refl => rwa [Nat.zero_add]
  | next first _ ih =>
    rw [Nat.add_right_comm]
    exact .next first (ih k)

/-- Steps that go on are taken off the number that a run may take. -/
theorem run (h : Steps n a b) (left : Nat) :
    a.context.run (n + left) a.world a.store = b.context.run left b.world b.store := by
  induction h with
  | refl => rw [Nat.zero_add]
  | next first _ ih =>
    rw [Nat.add_right_comm, ← ih, Context.run, first]

end Steps

namespace Fails

variable {a b c : Snapshot} {m n : Nat} {f : Fault}

theorem trans (h : Steps m a b) (k : Fails n b f c) : Fails (m + n) a f c := by
  obtain ⟨d, steps, failed⟩ := k
  exact ⟨d, h.trans steps, failed⟩

/-- A run that comes to a fault which nothing catches ends with it. -/
theorem run (h : Fails n a f b) (left : Nat) {signal : Signal} {c : Context} {s : Store}
    (handled : b.context.handle f b.store = (signal, c, s)) (ends : signal ≠ .runs) :
    a.context.run (n + (left + 1)) a.world a.store = (signal, left, c, b.world, s) := by
  obtain ⟨d, steps, failed⟩ := h
  rw [steps.run, Context.run, failed]
  cases signal with
  | runs => exact absurd rfl ends
  | _ => simp only [handled]

end Fails

/-! ## Runs that end -/

/-- A run comes to an end, however many steps it might still have taken. -/
def Context.Ends (c : Context) (w : World) (s : Store) (result : Except Fault Unit) (c' : Context)
    (w' : World) (s' : Store) : Prop :=
  ∃ n, ∀ left, c.run (n + left) w s = (.ended result, left, c', w', s')

/-- A run comes to one end. -/
theorem Context.Ends.unique {c a b : Context} {w w' w'' : World} {s s' s'' : Store}
    {r r' : Except Fault Unit} (h : c.Ends w s r a w' s') (k : c.Ends w s r' b w'' s'') :
    r = r' ∧ a = b ∧ w' = w'' ∧ s' = s'' := by
  obtain ⟨m, first⟩ := h
  obtain ⟨n, second⟩ := k
  have one := first n
  rw [Nat.add_comm, second m] at one
  cases one
  exact ⟨rfl, rfl, rfl, rfl⟩

/-- A run ends where the code does. -/
theorem Steps.ends {n : Nat} {a b : Snapshot} (h : Steps n a b)
    (behind : (b.store.code b.context.code).instructions[b.context.pc]? = none)
    (depth : b.context.depth = 0) :
    a.context.Ends a.world a.store (.ok ()) { b.context with state := .stopped } b.world b.store := by
  refine ⟨n + 1, fun left => ?_⟩
  rw [Nat.add_assoc, Nat.add_comm 1, h.run, Context.run,
    Exec.step_end b.context b.world b.store behind depth]

/-- Outside protected blocks a fault ends the context, unless it controls the run. -/
theorem Context.handle_free {c : Context} {f : Fault} (noControl : f.kind.isControl = false)
    (free : c.tries = []) (s : Store) : c.handle f s =
      (.ended (.error (f.locate c.moduleName c.line)), { c with state := .stopped }, s) := by
  unfold handle
  split
  · rename_i stop
    rw [stop] at noControl
    cases noControl
  · rename_i signal
    rw [signal] at noControl
    cases noControl
  · have kind : (f.locate c.moduleName c.line).kind.isControl = false := noControl
    simp only [kind, Bool.false_eq_true, if_false, Context.catch_none free]

/-- A run ends with a fault that no protected block catches. -/
theorem Fails.ends {n : Nat} {a b : Snapshot} {f : Fault} (h : Fails n a f b)
    (noControl : f.kind.isControl = false) (free : b.context.tries = []) :
    a.context.Ends a.world a.store (.error (f.locate b.context.moduleName b.context.line))
      { b.context with state := .stopped } b.world b.store := by
  refine ⟨n + 1, fun left => ?_⟩
  rw [Nat.add_assoc, Nat.add_comm 1]
  exact h.run left (Context.handle_free noControl free _) nofun

/-! ## Single instructions -/

namespace Exec

variable {c c' : Context} {w w' : World} {s s' : Store} {i : Instruction}

/-- A step performs the instruction that is next, if that is no call. -/
theorem step_ok (found : (s.code c.code).instructions[c.pc]? = some i) (noCall : i.op ≠ .call)
    (done : perform i { c with pc := c.pc + 1 } w s = (((.ok (), c'), w'), s')) :
    step c w s = (((.ok .goesOn, c'), w'), s') := by
  rw [step_eq, found]
  dsimp only
  rw [if_neg (fun e => noCall (eq_of_beq e))]
  exact bind_of_ok done

/-- A step makes the call that is next, if it need not wait for an answer. -/
theorem step_call (found : (s.code c.code).instructions[c.pc]? = some i) (isCall : i.op = .call)
    (done : call i.operand { c with pc := c.pc + 1 } w s = (((.ok none, c'), w'), s')) :
    step c w s = (((.ok .goesOn, c'), w'), s') := by
  rw [step_eq, found]
  dsimp only
  rw [if_pos (beq_iff_eq.2 isCall)]
  exact bind_of_ok done

theorem step_error {f : Fault} (found : (s.code c.code).instructions[c.pc]? = some i)
    (noCall : i.op ≠ .call)
    (failed : perform i { c with pc := c.pc + 1 } w s = (((.error f, c'), w'), s')) :
    step c w s = (((.error f, c'), w'), s') := by
  rw [step_eq, found]
  dsimp only
  rw [if_neg (fun e => noCall (eq_of_beq e))]
  exact bind_of_error failed

/-- Noting a line changes nothing else when the debugger is off. -/
theorem atLine_ok (line : Operand) (off : c.debugger = {}) (w : World) (s : Store) :
    atLine line c w s = (((.ok (), { c with line := countOf line 0 }), w), s) := by
  let noted : Context := { c with line := countOf line 0 }
  have runs : noted.debugger.stopsAt (countOf line 0) = false := by
    change c.debugger.stopsAt _ = false
    rw [off]
    rfl
  have debugger : ofContext Context.debugger noted w s = (((.ok noted.debugger, noted), w), s) :=
    rfl
  have notes : modifyContext (fun c => { c with line := countOf line 0 }) c w s =
      (((.ok (), noted), w), s) := rfl
  refine (bind_of_ok notes).trans ((bind_of_ok debugger).trans ?_)
  rw [runs]
  rfl

end Exec

end StackScript
