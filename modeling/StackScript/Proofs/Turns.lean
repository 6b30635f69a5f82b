import Mathlib.Logic.Relation
import StackScript.Machine

/-!
# What comes about on a machine

Contexts, threads and goroutines share a world and a store. All that becomes of these comes about
turn by turn: a context makes a step, a fault is handled, a builtin's call is completed, a unit or
a table is added, the clock goes on. What every turn keeps, every run keeps, at its end and in
between, whichever threads take part; and what every turn of a thread keeps, the thread keeps.

Main statements: `Machine.Carried.slice`, `Machine.runContext_comes`, `Machine.call_comes` and
`Machine.runProgram_comes`.
-/
namespace StackScript

/-- What can become of the world and the store at once. -/
inductive Machine.Turn : World × Store → World × Store → Prop
  | step (c : Context) (w : World) (s : Store) :
    Turn (w, s) ((Exec.step c w s).1.2, (Exec.step c w s).2)
  /-- A fault is caught, or ends its context. -/
  | handle (c : Context) (f : Fault) (w : World) (s : Store) : Turn (w, s) (w, (c.handle f s).2.2)
  /-- The result of a builtin is handed to its caller. -/
  | complete (call : PendingCall) (result : Except Fault Value) (c : Context) (w : World)
    (s : Store) : Turn (w, s) ((Exec.complete call result c w s).1.2,
      (Exec.complete call result c w s).2)
  /-- What a builtin waits for has come. -/
  | poll {wait : Wait} {v : Value} {w : World} {s s' : Store}
    (come : wait.poll w s = some (v, s')) : Turn (w, s) (w, s')
  | invoke (f : Value) (args : List Value) (receiver : Option Value) (table : TableRef) (w : World)
    (s : Store) : Turn (w, s) (w, (f.invoke args receiver table w s).2)
  | evaluate (source : String) (table : TableRef) (w : World) (s : Store) :
    Turn (w, s) (w, (evaluation source table w s).2)
  /-- The results of an inner context are taken. -/
  | results (c : Context) (w : World) (s : Store) : Turn (w, s) (w, (c.results s).2)
  /-- What was sorted becomes an array. -/
  | sorted (o : ArrayObject) (w : World) (s : Store) : Turn (w, s) (w, (s.newArray o).2)
  /-- What was launched has been started. -/
  | launched (w : World) (s : Store) : Turn (w, s) ({ w with launched := [] }, s)
  /-- What was launched has ended. -/
  | done (w : World) (s : Store) : Turn (w, s) (w.done, s)
  | clock (time : Int) (w : World) (s : Store) : Turn (w, s) ({ w with clock := time }, s)
  | unit (code : Code) (w : World) (s : Store) : Turn (w, s) (w, (s.newCode code).2)
  | table (parent : TableRef) (name : String) (w : World) (s : Store) :
    Turn (w, s) (w, (s.newChild parent name).2)

/-- What can become of the world and the store in any number of turns. -/
abbrev Machine.Comes : World × Store → World × Store → Prop := Relation.ReflTransGen Machine.Turn

/-- A relation that everything a thread can do at once is within. -/
structure Machine.Carried (R : World × Store → World × Store → Prop) : Prop where
  refl (a : World × Store) : R a a
  trans {a b c : World × Store} : R a b → R b c → R a c
  step (c : Context) (w : World) (s : Store) :
    R (w, s) ((Exec.step c w s).1.2, (Exec.step c w s).2)
  handle (c : Context) (f : Fault) (w : World) (s : Store) : R (w, s) (w, (c.handle f s).2.2)
  complete (call : PendingCall) (result : Except Fault Value) (c : Context) (w : World)
    (s : Store) : R (w, s) ((Exec.complete call result c w s).1.2,
      (Exec.complete call result c w s).2)
  poll {wait : Wait} {v : Value} {w : World} {s s' : Store}
    (come : wait.poll w s = some (v, s')) : R (w, s) (w, s')
  invoke (f : Value) (args : List Value) (receiver : Option Value) (table : TableRef) (w : World)
    (s : Store) : R (w, s) (w, (f.invoke args receiver table w s).2)
  evaluate (source : String) (table : TableRef) (w : World) (s : Store) :
    R (w, s) (w, (evaluation source table w s).2)
  results (c : Context) (w : World) (s : Store) : R (w, s) (w, (c.results s).2)
  sorted (o : ArrayObject) (w : World) (s : Store) : R (w, s) (w, (s.newArray o).2)

open Machine (Turn Comes)

variable (w : World) (s : Store)

/-! ## Contexts and threads -/

namespace Machine.Carried

variable {R : World × Store → World × Store → Prop} (h : Carried R) (t : Thread)
  (call : PendingCall)

include h

theorem run (steps : Nat) (c : Context) : R (w, s) (c.run steps w s).2.2.2 := by
  induction steps generalizing c w s with
  | zero => exact h.refl _
  | succ steps ih =>
    have stepped := h.step c w s
    unfold Context.run
    rcases here : Exec.step c w s with ⟨⟨⟨result, c'⟩, w'⟩, s'⟩
    rw [here] at stepped
    cases result with
    | ok progress =>
      cases progress with
      | goesOn => exact h.trans stepped (ih w' s' c')
      | finished | asks => exact stepped
    | error f =>
      have handled := h.trans stepped (h.handle c' f w' s')
      dsimp only
      rcases done : c'.handle f s' with ⟨signal, c'', s''⟩
      rw [done] at handled
      cases signal with
      | runs => exact h.trans handled (ih w' s'' c'')
      | blocked | asks | ended => exact handled

theorem deliver (result : Except Fault Value) : R (w, s) (t.deliver call result w s).2 := by
  have completed := h.complete call result t.context w s
  unfold Thread.deliver
  rcases here : Exec.complete call result t.context w s with ⟨⟨⟨result, c⟩, w'⟩, s'⟩
  rw [here] at completed
  cases result with
  | ok => exact completed
  | error f => exact h.trans completed (h.handle c f w' s')

theorem sort (o : Sorting) : R (w, s) (t.sort call o w s).2 := by
  unfold Thread.sort
  split
  · exact h.trans (h.sorted _ w s) (h.deliver w _ t call _)
  · split
    · exact h.invoke _ _ none _ w s
    · exact h.deliver w s t call _

theorem await (wait : Wait) : R (w, s) (t.await call wait w s).2 := by
  unfold Thread.await
  split
  · rename_i come
    exact h.trans (h.poll come) (h.deliver w _ t call _)
  · exact h.refl _

theorem serve (answer : Answer) : R (w, s) (t.serve call answer w s).2 := by
  cases answer with
  | value v => exact h.deliver w s t call _
  | wait wait => exact h.await w s t call wait
  | sort o => exact h.sort w s t call o
  | evaluate source =>
    have evaluated := h.evaluate source t.context.scope w s
    simp only [Thread.serve]
    rcases here : evaluation source t.context.scope w s with ⟨result, s'⟩
    rw [here] at evaluated
    cases result with
    | ok => exact evaluated
    | error f => exact h.trans evaluated (h.deliver w s' t call _)

theorem leave (caller : Caller) (callers : List Caller) (result : Except Fault Unit) :
    R (w, s) (t.leave caller callers result w s).2 := by
  unfold Thread.leave
  dsimp only
  split
  · exact h.deliver w s _ _ _
  · split
    · exact h.deliver w s _ _ _
    · have taken := h.results t.context w s
      rcases here : t.context.results s with ⟨result, s'⟩
      rw [here] at taken
      cases result with
      | ok v => exact h.trans taken (h.sort w s' _ _ _)
      | error f => exact h.trans taken (h.deliver w s' _ _ _)

theorem advance (turns steps : Nat) : R (w, s) (Thread.advance turns steps t w s).2 := by
  induction turns generalizing steps t w s with
  | zero => exact h.refl _
  | succ turns ih =>
    unfold Thread.advance
    split
    · exact h.refl _
    · split
      · exact h.refl _
      · exact h.trans (h.run w s steps t.context) (ih _ _ _ _)
    · exact h.trans (h.serve w s t _ _) (ih _ _ _ _)
    · split
      · exact h.refl _
      · exact h.trans (h.leave w s t _ _ _) (ih _ _ _ _)

theorem slice : R (w, s) (t.slice w s).2.2 := by
  unfold Thread.slice
  split
  · split
    · exact h.refl _
    · rename_i come
      exact h.trans (h.poll come) (h.trans (h.deliver w _ t _ _) (h.advance _ _ _ _ _))
  · exact h.advance w s t _ _

end Machine.Carried

/-- All that a thread does comes about in turns. -/
theorem Machine.comes_carried : Carried Comes where
  refl _ := .refl
  trans := .trans
  step c w s := .single (.step c w s)
  handle c f w s := .single (.handle c f w s)
  complete call result c w s := .single (.complete call result c w s)
  poll come := .single (.poll come)
  invoke f args receiver table w s := .single (.invoke f args receiver table w s)
  evaluate source table w s := .single (.evaluate source table w s)
  results c w s := .single (.results c w s)
  sorted o w s := .single (.sorted o w s)

theorem Context.run_comes (steps : Nat) (c : Context) : Comes (w, s) (c.run steps w s).2.2.2 :=
  Machine.comes_carried.run w s steps c

theorem Thread.slice_comes (t : Thread) : Comes (w, s) (t.slice w s).2.2 :=
  Machine.comes_carried.slice w s t

/-! ## The machine -/

namespace Machine

theorem startLaunched_comes (ls : List Launch) (ts : List Thread) :
    Comes (w, s) (w, (startLaunched ls ts w s).2) := by
  induction ls generalizing ts s with
  | nil => exact .refl
  | cons l rest ih => exact .head (.invoke l.callee l.args l.receiver w.root w s) (ih _ _)

theorem launch_comes (ts : List Thread) : Comes (w, s) (launch ts w s).2 :=
  (startLaunched_comes w s w.launched ts).tail (.launched w _)

theorem sliceAll_comes (ts : List Thread) : Comes (w, s) (sliceAll ts w s).2.2 := by
  induction ts generalizing w s with
  | nil => exact .refl
  | cons t rest ih =>
    have sliced := t.slice_comes w s
    unfold sliceAll
    rcases here : t.slice w s with ⟨moved, t', w', s'⟩
    rw [here] at sliced
    dsimp only
    split
    · exact (sliced.tail (.done w' s')).trans (ih _ _)
    · exact sliced.trans (ih _ _)

theorem tick_comes {moved : Bool} {ts : List Thread} {w w' : World} (s : Store)
    (ticked : tick moved ts w = some w') : Comes (w, s) (w', s) := by
  unfold tick at ticked
  split at ticked
  · cases ticked
    exact .single (.clock _ w s)
  · obtain ⟨time, -, rfl⟩ := Option.map_eq_some_iff.1 ticked
    exact .single (.clock _ w s)

theorem runBeside_comes (rounds : Nat) (t : Thread) (ts : List Thread) :
    Comes (w, s) (runBeside rounds t ts w s).2.2.2 := by
  induction rounds generalizing t ts w s with
  | zero => exact .refl
  | succ rounds ih =>
    unfold runBeside
    have sliced := t.slice_comes w s
    rcases h₁ : t.slice w s with ⟨moved, t₁, w₁, s₁⟩
    rw [h₁] at sliced
    have launched := sliced.trans (launch_comes w₁ s₁ ts)
    rcases h₂ : launch ts w₁ s₁ with ⟨ts₂, w₂, s₂⟩
    rw [h₂] at launched
    simp only [h₂]
    split
    · exact launched
    · have others := launched.trans (sliceAll_comes w₂ s₂ ts₂)
      rcases h₃ : sliceAll ts₂ w₂ s₂ with ⟨movedOthers, ts₃, w₃, s₃⟩
      rw [h₃] at others
      have relaunched := others.trans (launch_comes w₃ s₃ ts₃)
      rcases h₄ : launch ts₃ w₃ s₃ with ⟨ts₄, w₄, s₄⟩
      rw [h₄] at relaunched
      dsimp only
      split
      · rename_i ticked
        exact (relaunched.trans (tick_comes s₄ ticked)).trans (ih _ _ _ _)
      · exact relaunched

theorem runAll_comes (rounds : Nat) (ts : List Thread) :
    Comes (w, s) (runAll rounds ts w s) := by
  induction rounds generalizing ts w s with
  | zero => exact .refl
  | succ rounds ih =>
    unfold runAll
    split
    · have sliced := sliceAll_comes w s ts
      rcases h₁ : sliceAll ts w s with ⟨moved, ts₁, w₁, s₁⟩
      rw [h₁] at sliced
      have launched := sliced.trans (launch_comes w₁ s₁ ts₁)
      rcases h₂ : launch ts₁ w₁ s₁ with ⟨ts₂, w₂, s₂⟩
      rw [h₂] at launched
      simp only [h₂]
      split
      · rename_i ticked
        exact (launched.trans (tick_comes s₂ ticked)).trans (ih _ _ _)
      · exact launched
    · exact .refl

/-- The world and the store of a machine. -/
def state (m : Machine) : World × Store := (m.world, m.store)

variable (m : Machine)

theorem runContext_comes (c : Context) : Comes m.state (m.runContext c).2.2.state := by
  unfold runContext
  have ran := runBeside_comes m.world m.store roundLimit { context := c.started } m.goroutines
  rcases here : runBeside roundLimit { context := c.started } m.goroutines m.world m.store
    with ⟨result, c', ts, w, s⟩
  rw [here] at ran
  exact ran

theorem execute_comes (code : Code) (table : TableRef) :
    Comes m.state (m.execute code table).2.state := by
  unfold execute
  have added : Comes m.state (m.context code table).2.state := .single (.unit code m.world m.store)
  rcases here : m.context code table with ⟨c, m₁⟩
  rw [here] at added
  exact added.trans (runContext_comes m₁ c)

theorem call_comes (f : Value) (args : List Value) (receiver : Option Value) (table : TableRef) :
    Comes m.state (m.call f args receiver table).2.state := by
  unfold call
  split
  · have invoked : Comes m.state _ := .single (.invoke f args receiver table m.world m.store)
    rcases here : f.invoke args receiver table m.world m.store with ⟨c, s⟩
    rw [here] at invoked
    have ran := invoked.trans (runContext_comes { m with store := s } c)
    dsimp only
    split
    all_goals
      rename_i ended
      rw [ended] at ran
    · exact ran
    · exact ran.tail (.results _ _ _)
  · exact .refl

theorem join_comes : Comes m.state m.join.state := by
  unfold join
  have launched := launch_comes m.world m.store m.goroutines
  rcases here : launch m.goroutines m.world m.store with ⟨ts, w, s⟩
  rw [here] at launched
  exact launched.trans (runAll_comes w s roundLimit ts)

theorem callMain_comes (table : TableRef) : Comes m.state (m.callMain table).2.state := by
  unfold callMain
  split
  · exact .refl
  · split
    · exact .refl
    · exact call_comes m _ _ _ _

/-- All that a program does comes about in turns. -/
theorem runProgram_comes (code : Code) (callsMain : Bool) :
    Comes m.state (m.runProgram code callsMain).2.state := by
  unfold runProgram
  have named : Comes m.state m.newMainTable.2.state :=
    .single (.table m.root mainName m.world m.store)
  rcases here : m.newMainTable with ⟨table, m₁⟩
  rw [here] at named
  have executed := named.trans (execute_comes m₁ code table)
  dsimp only
  split
  all_goals
    rename_i ended
    rw [ended] at executed
  · exact executed.trans (join_comes _)
  · split
    · exact (executed.trans (callMain_comes _ table)).trans (join_comes _)
    · exact executed.trans (join_comes _)

end Machine

end StackScript
