import StackScript.Machine.Thread
import StackScript.Proofs.Debugging.Instructions
import StackScript.Proofs.Steps

/-!
# Steps without a debugger

A step at which the debugger does not stop is the same without a debugger, puts no signal anywhere,
and links structs only if it is to store one as the parent of another. A step at which it stops has
noted the line and gone on to the next instruction, as it would have without the debugger, when the
signal ends the run.

Main statements: `Exec.step_twin` and `Exec.step_stops` (single steps), `Context.move_twin` and
`Context.move_stops` (steps and what becomes of their faults).
-/
namespace StackScript

/-- A context without a debugger. -/
def Context.bare (c : Context) : Context := { c with debugger := {} }

/-! ## Steps -/

/-- All that a step asks with is ordinary. -/
def Progress.Ordinary (n : Nat) : Progress → Prop
  | .asks call answer => call.callee.Answers n answer
  | _ => True

/-- The debugger stops at the instruction that is next. -/
def Context.Stops (c : Context) (s : Store) : Prop :=
  ∃ i, (s.code c.code).instructions[c.pc]? = some i ∧ i.op = .atLine ∧
    c.debugger.stopsAt (Exec.countOf i.operand 0) = true

theorem Context.not_stops {c : Context} (off : c.debugger = {}) (s : Store) : ¬c.Stops s := by
  rintro ⟨i, -, -, stops⟩
  rw [off] at stops
  cases stops

/-- What the instruction that is next links, if it stores under an index. -/
def Context.Relinks (c : Context) (s : Store) : Links := fun r parent =>
  ∃ i, (s.code c.code).instructions[c.pc]? = some i ∧ i.op = .storeIndex ∧ Exec.Relinks c s r parent

namespace Exec

variable {L : Links} {n : Nat} {α : Type} {P : Nat → α → Prop} {m m' : Exec α} {c c₁ : Context}
variable {w : World} {s : Store}

/-- From a context a computation comes to a clear one in the same guise, with no signal, and without
the debugger it comes to the same; it links structs where it may. -/
structure TwinAt (L : Links) (P : Nat → α → Prop) (m : Exec α) (c : Context) (w : World)
    (s : Store) : Prop where
  context : (m c w s).1.1.2.Clear (m c w s).2.structs.size
  world : (m c w s).1.2.Clear (m c w s).2.structs.size
  store : (m c w s).2.Clear (m c w s).2.structs.size
  kin : s.Kin L (m c w s).2
  result : ∀ a, (m c w s).1.1.1 = .ok a → P (m c w s).2.structs.size a
  ordinary : Except.Ordinary (m c w s).1.1.1
  debugger : (m c w s).1.1.2.debugger = c.debugger
  state : (m c w s).1.1.2.state = c.state
  bare : m c.bare w s =
    ((((m c w s).1.1.1, (m c w s).1.1.2.bare), (m c w s).1.2), (m c w s).2)

theorem twin_of_calm (h : CalmAt L P m (c, w, s)) : TwinAt L P m c w s := by
  obtain ⟨clear, kin, result, ordinary, blind⟩ := h
  -- a context in its own guise is the context itself
  have kept : (m c w s).1.1.2 = (m c w s).1.1.2.dressed ⟨c.debugger, c.state⟩ :=
    congrArg (fun r => r.2.1) (blind ⟨c.debugger, c.state⟩)
  have debugger : (m c w s).1.1.2.debugger = c.debugger := (congrArg Context.debugger kept).trans rfl
  have state : (m c w s).1.1.2.state = c.state := (congrArg Context.state kept).trans rfl
  refine ⟨clear.1, clear.2.1, clear.2.2, kin, result, ordinary, debugger, state, ?_⟩
  have bare := blind ⟨{}, c.state⟩
  have here : (m c w s).1.1.2.dressed ⟨{}, c.state⟩ = (m c w s).1.1.2.bare := by
    rw [← state]
    rfl
  change ((m c.bare w s).1.1.1, (m c.bare w s).1.1.2, (m c.bare w s).1.2, (m c.bare w s).2) =
    ((m c w s).1.1.1, (m c w s).1.1.2.dressed ⟨{}, c.state⟩, (m c w s).1.2, (m c w s).2) at bare
  rw [here] at bare
  exact Prod.ext (Prod.ext (Prod.ext (congrArg (·.1) bare) (congrArg (·.2.1) bare))
    (congrArg (·.2.2.1) bare)) (congrArg (·.2.2.2) bare)

/-- The same computation from a context in the same guise. -/
theorem TwinAt.of_eq (h : TwinAt L P m' c₁ w s) (debugger : c₁.debugger = c.debugger)
    (state : c₁.state = c.state) (same : m c w s = m' c₁ w s)
    (bare : m c.bare w s = m' c₁.bare w s) : TwinAt L P m c w s := by
  constructor <;> rw [same]
  · exact h.context
  · exact h.world
  · exact h.store
  · exact h.kin
  · exact h.result
  · exact h.ordinary
  · exact h.debugger.trans debugger
  · exact h.state.trans state
  · rw [bare]
    exact h.bare

theorem atLine_goes {operand : Operand} (goes : c.debugger.stopsAt (countOf operand 0) = false) :
    atLine operand c w s = (((.ok (), { c with line := countOf operand 0 }), w), s) := by
  refine (bind_of_ok rfl).trans ((bind_of_ok rfl).trans ?_)
  change (if c.debugger.stopsAt (countOf operand 0) = true then _ else _ : Exec Unit) _ w s = _
  rw [if_neg (by rw [goes]; exact Bool.false_ne_true)]
  rfl

theorem atLine_stops {operand : Operand} (stops : c.debugger.stopsAt (countOf operand 0) = true) :
    atLine operand c w s = (((.error (.about .debuggerSignal (Decimal.ofNat (countOf operand 0))),
      { c with line := countOf operand 0 }), w), s) := by
  refine (bind_of_ok rfl).trans ((bind_of_ok rfl).trans ?_)
  change (if c.debugger.stopsAt (countOf operand 0) = true then _ else _ : Exec Unit) _ w s = _
  rw [if_pos stops]
  rfl

/-- What a step does once it has an instruction. -/
def obey (i : Instruction) : Exec Progress :=
  if i.op == .call then do
    match ← call i.operand with
    | some (call, answer) => pure (.asks call answer)
    | none => pure .goesOn
  else do
    perform i
    pure .goesOn

theorem step_obeys {i : Instruction} (found : (s.code c.code).instructions[c.pc]? = some i) :
    step c w s = obey i { c with pc := c.pc + 1 } w s := by
  have steps := step_eq c w s
  rw [found] at steps
  exact steps

/-- A step at which the debugger does not stop. -/
theorem step_twin (hc : c.Clear n) (hw : w.Clear n) (hs : s.Clear n) (goes : ¬c.Stops s) :
    TwinAt (c.Relinks s) Progress.Ordinary step c w s := by
  cases found : (s.code c.code).instructions[c.pc]? with
  | none =>
    have ends : Calm (c.Relinks s) n Progress.Ordinary (if 0 < c.depth then do
        leave 0
        pure .goesOn
        else pure .finished : Exec Progress) :=
      .ite ((leave_calm 0).bind fun _ _ _ _ => .pure trivial) (.pure trivial)
    refine (twin_of_calm (ends _ ⟨hc, hw, hs⟩ hs.size)).of_eq rfl rfl ?_ ?_
    · rw [step_eq, found]
    · rw [step_eq, show (s.code c.bare.code).instructions[c.bare.pc]? = none from found]
      rfl
  | some i =>
    have operand : i.operand.Ordinary n := hs.code _ i (Array.mem_of_getElem? found)
    have next : Context.Clear n { c with pc := c.pc + 1 } := { hc with }
    by_cases line : i.op = .atLine
    · have runsOn : c.debugger.stopsAt (countOf i.operand 0) = false :=
        Bool.eq_false_iff.2 fun stops => goes ⟨i, found, line, stops⟩
      have goes (c' : Context) (found : (s.code c'.code).instructions[c'.pc]? = some i)
          (off : c'.debugger.stopsAt (countOf i.operand 0) = false) : step c' w s =
            (((.ok .goesOn, { c' with pc := c'.pc + 1, line := countOf i.operand 0 }), w), s) := by
        refine step_ok found (by rw [line]; rintro ⟨⟩) ?_
        rw [perform, line]
        exact atLine_goes off
      have here := goes c found runsOn
      have size : s.structs.size = n := hs.size
      constructor <;> rw [here]
      · exact size.symm ▸ { hc with }
      · exact size.symm ▸ hw
      · exact size.symm ▸ hs
      · exact .refl s
      · rintro _ ⟨⟩
        trivial
      · exact .ok _
      · exact goes c.bare found rfl
    · have calm : CalmAt (c.Relinks s) Progress.Ordinary (obey i) ({ c with pc := c.pc + 1 }, w, s) := by
        by_cases links : i.op = .storeIndex
        · obtain ⟨op, operand⟩ := i
          cases links
          refine CalmAt.before ((storeIndex_calm next hw hs).weaken fun r parent given => ?_)
            fun _ _ _ _ => .pure trivial
          exact ⟨_, found, rfl, given⟩
        · refine Calm.ite ((call_calm i.operand).bind fun _ _ request clear => ?_)
            ((perform_calm line links operand).bind fun _ _ _ _ => .pure trivial) _ ⟨next, hw, hs⟩
              hs.size
          cases request with
          | none => exact .pure trivial
          | some r => exact .pure (clear r rfl)
      exact (twin_of_calm calm).of_eq rfl rfl (step_obeys found) (step_obeys (c := c.bare) found)

/-- A step at which the debugger stops: the line is noted, as it is without the debugger, and a
signal raised. -/
theorem step_stops (stops : c.Stops s) : ∃ (line : Nat) (f : Fault), f.kind = .debuggerSignal ∧
    step c w s = (((.error f, { c with pc := c.pc + 1, line := line }), w), s) ∧
    step c.bare w s = (((.ok .goesOn, { c.bare with pc := c.pc + 1, line := line }), w), s) := by
  obtain ⟨i, found, line, stops⟩ := stops
  have noCall : i.op ≠ .call := by rw [line]; nofun
  refine ⟨countOf i.operand 0, .about .debuggerSignal (Decimal.ofNat (countOf i.operand 0)), rfl,
    step_error found noCall ?_, step_ok found noCall ?_⟩
  · rw [perform, line]
    exact atLine_stops stops
  · rw [perform, line]
    exact atLine_goes rfl

end Exec

/-! ## Contexts -/

/-- All that a thread waits with or asks with is ordinary, and it has ended with no signal. -/
def Signal.Ordinary (n : Nat) : Signal → Prop
  | .runs => True
  | .blocked call wait => call.callee.Answers n (.wait wait)
  | .asks call answer => call.callee.Answers n answer
  | .ended result => Except.Ordinary result

theorem Signal.Ordinary.mono {n n' : Nat} {signal : Signal} (h : signal.Ordinary n) (le : n ≤ n') :
    signal.Ordinary n' := by
  cases signal with
  | runs => trivial
  | blocked call wait | asks call answer => exact Native.Answers.mono h le
  | ended result => exact h

/-- The state of a context that stands so. -/
def Signal.state : Signal → ContextState
  | .ended _ => .stopped
  | _ => .running

namespace Context

variable {L : Links} {n : Nat} {c : Context} {w : World} {s : Store}

/-- A context has come to a signal from a store, in the same guise, with none of the debugger's
signals in the store and structs linked where they may be; and the context without a debugger to the
same one. -/
structure Twin (L : Links) (s : Store) (d : Debugger) (full bare : Signal × Context × World × Store) :
    Prop where
  context : full.2.1.Clear full.2.2.2.structs.size
  world : full.2.2.1.Clear full.2.2.2.structs.size
  store : full.2.2.2.Clear full.2.2.2.structs.size
  kin : s.Kin L full.2.2.2
  signal : full.1.Ordinary full.2.2.2.structs.size
  debugger : full.2.1.debugger = d
  state : full.2.1.state = full.1.state
  bare : bare = (full.1, full.2.1.bare, full.2.2)

theorem catch?_bare (c : Context) (f : Fault) (s : Store) :
    c.bare.catch? f s = (c.catch? f s).map (Prod.map bare id) := by
  unfold catch?
  rw [show c.bare.tries = c.tries from rfl]
  cases c.tries.dropWhile (·.handler.isNone) with
  | nil => rfl
  | cons record rest => cases h : record.handler <;> simp [h, Context.bare]

theorem catch?_clear {c' : Context} {s' : Store} {f : Fault} (hf : f.Ordinary) (hc : c.Clear n)
    (hs : s.Clear n) (caught : c.catch? f s = some (c', s')) :
    c'.Clear n ∧ s'.Clear n ∧ s'.structs = s.structs ∧ c'.debugger = c.debugger ∧
      c'.state = c.state := by
  unfold catch? at caught
  split at caught
  · cases caught
  · split at caught <;> cases caught
    exact ⟨⟨Array.forall_shrink hc.stack _, Array.forall_shrink hc.receivers _⟩,
      hs.setAlways (show (Value.error f).Ordinary n from hf) _ _, rfl, rfl, rfl⟩

/-- A fault that is no signal goes the same way without the debugger. -/
theorem handle_twin {f : Fault} (hf : f.Ordinary) (hc : c.Clear n) (hw : w.Clear n) (hs : s.Clear n)
    (running : c.state = .running) :
    Twin L s c.debugger ((c.handle f s).1, (c.handle f s).2.1, w, (c.handle f s).2.2)
      ((c.bare.handle f s).1, (c.bare.handle f s).2.1, w, (c.bare.handle f s).2.2) := by
  have located : (f.locate c.moduleName c.line).Ordinary := hf.of_same rfl rfl
  have caught := c.catch?_bare (f.locate c.moduleName c.line) s
  obtain rfl := hs.size
  unfold handle
  split
  · exact ⟨{ hc with }, hw, hs, .refl s, .ok _, rfl, rfl, rfl⟩
  · next signal => exact absurd signal hf.kind_ne
  · change Twin _ _ _ _ (_, _, w, _)
    dsimp only
    rw [show c.bare.moduleName = c.moduleName from rfl, show c.bare.line = c.line from rfl, caught]
    split
    · next found =>
      split at found
      · cases found
      · next noControl =>
        obtain ⟨clear, store, same, debugger, state⟩ := catch?_clear located hc hs found
        rw [if_neg noControl, found]
        have size := store.size
        exact ⟨by exact size.symm ▸ clear, by exact size.symm ▸ hw, by exact size.symm ▸ store,
          .of_same same, trivial, debugger, state.trans running, rfl⟩
    · next lost =>
      split at lost
      · next control =>
        rw [if_pos control]
        exact ⟨{ hc with }, hw, hs, .refl s, .error located, rfl, rfl, rfl⟩
      · next noControl =>
        rw [if_neg noControl, lost]
        exact ⟨{ hc with }, hw, hs, .refl s, .error located, rfl, rfl, rfl⟩

/-- What becomes of the outcome of a step. -/
def settled (c : Context) (w : World) (s : Store) :
    Except Fault Progress → Signal × Context × World × Store
  | .ok .goesOn => (.runs, c, w, s)
  | .ok .finished => (.ended (.ok ()), { c with state := .stopped }, w, s)
  | .ok (.asks call answer) => (.asks call answer, c, w, s)
  | .error f => ((c.handle f s).1, (c.handle f s).2.1, w, (c.handle f s).2.2)

/-- A run of one step. -/
def move (c : Context) (w : World) (s : Store) : Signal × Context × World × Store :=
  ((c.run 1 w s).1, (c.run 1 w s).2.2)

theorem move_eq {r : Except Fault Progress} {c' : Context} {w' : World} {s' : Store}
    (ran : Exec.step c w s = (((r, c'), w'), s')) : c.move w s = c'.settled w' s' r := by
  unfold move
  rw [run, ran]
  cases r with
  | ok progress => cases progress <;> rfl
  | error f =>
    simp only [settled]
    rcases c'.handle f s' with ⟨signal, c, s⟩
    cases signal <;> rfl

/-- A computation that puts no signal anywhere settles the same way without the debugger. -/
theorem settled_twin {r : Except Fault Progress} (hc : c.Clear n) (hw : w.Clear n) (hs : s.Clear n)
    (result : ∀ progress, r = .ok progress → progress.Ordinary n) (ordinary : Except.Ordinary r)
    (running : c.state = .running) :
    Twin L s c.debugger (c.settled w s r) (c.bare.settled w s r) := by
  cases r with
  | ok progress =>
    obtain rfl := hs.size
    cases progress with
    | goesOn => exact ⟨hc, hw, hs, .refl s, trivial, rfl, running, rfl⟩
    | finished => exact ⟨{ hc with }, hw, hs, .refl s, .ok _, rfl, rfl, rfl⟩
    | asks call answer => exact ⟨hc, hw, hs, .refl s, result _ rfl, rfl, running, rfl⟩
  | error f => exact handle_twin (ordinary f rfl) hc hw hs running

/-- What comes before is part of the way. -/
theorem Twin.after {s' : Store} {d : Debugger} {full bare : Signal × Context × World × Store}
    (h : Twin L s' d full bare) (kin : s.Kin L s') : Twin L s d full bare :=
  { h with kin := kin.trans h.kin }

/-- A move at which the debugger does not stop. -/
theorem move_twin (hc : c.Clear n) (hw : w.Clear n) (hs : s.Clear n) (running : c.state = .running)
    (goes : ¬c.Stops s) : Twin (c.Relinks s) s c.debugger (c.move w s) (c.bare.move w s) := by
  obtain ⟨context, world, store, kin, result, ordinary, debugger, state, bare⟩ :=
    Exec.step_twin hc hw hs goes
  rcases ran : Exec.step c w s with ⟨⟨⟨r, c'⟩, w'⟩, s'⟩
  rw [ran] at context world store kin result ordinary debugger state bare
  dsimp only at context world store kin result ordinary debugger state bare
  rw [move_eq ran, move_eq bare, ← debugger]
  exact (settled_twin context world store result ordinary (state.trans running)).after kin

/-- A run of some steps is a move and what comes behind it. -/
theorem run_succ (steps : Nat) (c : Context) (w : World) (s : Store) :
    c.run (steps + 1) w s = match c.move w s with
      | (.runs, c, w, s) => c.run steps w s
      | (signal, c, w, s) => (signal, steps, c, w, s) := by
  rcases ran : Exec.step c w s with ⟨⟨⟨r, c'⟩, w'⟩, s'⟩
  rw [run, ran, move_eq ran]
  cases r with
  | ok progress => cases progress <;> rfl
  | error f =>
    simp only [settled]
    rcases c'.handle f s' with ⟨signal, c, s⟩
    cases signal <;> rfl

/-- A move at which the debugger stops. -/
theorem move_stops (stops : c.Stops s) : ∃ (line : Nat) (f : Fault), f.kind = .debuggerSignal ∧
    c.move w s = (.ended (.error f),
      { c with pc := c.pc + 1, line := line, state := .suspended }, w, s) ∧
    c.bare.move w s = (.runs, { c.bare with pc := c.pc + 1, line := line }, w, s) := by
  obtain ⟨line, f, kind, failed, goesOn⟩ := Exec.step_stops (w := w) stops
  refine ⟨line, f.locate c.moduleName line, kind, ?_, ?_⟩
  · rw [move_eq failed]
    simp only [settled, handle, kind]
  · exact move_eq goesOn

end Context

end StackScript
