import StackScript.Proofs.Balance.Standing
import StackScript.Proofs.Lineages.Runs

/-!
# Runs of balanced units

In a store of balanced units, a context that was started with a unit stands in a call of it at every
moment, however the other threads go on in between, and whatever inner contexts its builtins call:
while these run, it waits for the results of a builtin.

Main statements: `Thread.Stands.turn` (what one turn keeps) and `Process.Runs.move` (what one move of
a process keeps).
-/
namespace StackScript

/-! ## Units -/

/-- Every unit is balanced. -/
def Store.Balanced (s : Store) : Prop := ∀ code ∈ s.codes, code.Balanced

/-- A source whose evaluation adds no units but balanced ones. -/
def BalancedSource (source : String) : Prop :=
  ∀ (table : TableRef) (w : World) (s : Store), s.Balanced → (evaluation source table w s).2.Balanced

namespace Store.Balanced

variable {s s' : Store}

theorem code (h : s.Balanced) (r : CodeRef) : (s.code r).Balanced := by
  by_cases there : r.index < s.codes.size
  · have same : s.code r = s.codes[r.index] := by simp [Store.code, there]
    rw [same]
    exact h _ (Array.getElem_mem there)
  · intro a p i _ found
    simp [Store.code, there] at found

theorem of_codes (h : s.Balanced) (same : s'.codes = s.codes) : s'.Balanced := by
  rwa [Balanced, same]

theorem newCode (h : s.Balanced) {unit : Code} (balanced : unit.Balanced) :
    (s.newCode unit).2.Balanced :=
  Array.forall_push h balanced

end Store.Balanced

/-- A unit that calls a value asks for nothing that is not there. -/
theorem Value.invocation_balanced (f : Value) (args : List Value) (receiver : Option Value) (s : Store) :
    (f.invocation args receiver s).Balanced := by
  intro a p i _ found
  have safe (op : Opcode) (among : op = .push ∨ op = .setThis ∨ op = .call ∨ op = .stop)
      (operand : Operand) : Instruction.Safe ⟨op, operand⟩ p := by
    rcases among with rfl | rfl | rfl | rfl <;> trivial
  have mem := Array.mem_of_getElem? found
  simp only [invocation, List.mem_toArray, List.mem_append] at mem
  rcases mem with (push | receiving) | ending
  · obtain ⟨v, -, rfl⟩ := List.mem_map.1 push
    exact safe _ (.inl rfl) _
  · cases receiver with
    | none => cases receiving
    | some v =>
      simp only [List.mem_cons, List.not_mem_nil, or_false] at receiving
      rcases receiving with rfl | rfl
      · exact safe _ (.inl rfl) _
      · exact safe _ (.inr (.inl rfl)) _
  · simp only [List.mem_cons, List.not_mem_nil, or_false] at ending
    rcases ending with rfl | rfl
    · exact safe _ (.inr (.inr (.inl rfl))) _
    · exact safe _ (.inr (.inr (.inr rfl))) _

/-! ### What adds units -/

theorem Exec.perform_codes (i : Instruction) (c : Context) (w : World) (s : Store) :
    (perform i c w s).2.codes = s.codes := by
  cases plain : i.op.isBranch with
  | false => exact (@perform_blind .still i plain (c, w, s)).2
  | true =>
    -- a branch reads its target, and perhaps a value
    have reads {k : Nat → Exec Unit} (hk : ∀ a, (k a c w s).2.codes = s.codes) (operand : Operand) :
        ((addressOf operand >>= k) c w s).2.codes = s.codes := by
      obtain ⟨r, read⟩ := addressOf_reads operand c w s
      cases r with
      | error f => rw [bind_of_error read]
      | ok a => rw [bind_of_ok read, hk]
    have tests (taken : Bool) (a : Nat) : ((do
        if (← popValue).isTruthy == taken then jump a : Exec Unit) c w s).2.codes = s.codes := by
      rcases popped : popValue c w s with ⟨⟨⟨r, c'⟩, w'⟩, s'⟩
      obtain ⟨rfl, rfl⟩ := popValue_keeps popped
      cases r with
      | error f => rw [bind_of_error popped]
      | ok v =>
        rw [bind_of_ok popped]
        split <;> rfl
    obtain ⟨op, operand⟩ := i
    cases op <;> cases plain
    · exact reads (fun _ => rfl) operand
    · exact reads (fun _ => rfl) operand
    · exact reads (tests true) operand
    · exact reads (tests false) operand

theorem Context.move_codes (c : Context) (w : World) (s : Store) :
    (c.move w s).2.2.2.codes = s.codes := by
  rcases ran : Exec.step c w s with ⟨⟨⟨r, c'⟩, w'⟩, s'⟩
  have codes : s'.codes = s.codes := by
    rcases step_parts ran with ⟨operand, r', -, called, -⟩ | ⟨i, r', -, -, performed, -⟩ |
      ⟨r', left, -⟩ | ⟨-, -, -, rfl, -⟩
    · have codes := (@Exec.call_blind .still operand ({ c with pc := c.pc + 1 }, w, s)).2
      simp only [Stateful.run, Stateful.store, called] at codes
      exact codes
    · have codes := Exec.perform_codes i { c with pc := c.pc + 1 } w s
      rw [performed] at codes
      exact codes
    · have codes := (@Exec.leave_blind .still 0 (c, w, s)).2
      simp only [Stateful.run, Stateful.store, left] at codes
      exact codes
    · rfl
  rw [move_eq ran]
  cases r with
  | ok progress => cases progress <;> exact codes
  | error f => exact (c'.handle_codes f s').trans codes

/-! ## What is received -/

theorem Wait.received_tame {n : Nat} {v : Value} (hv : v.Ordinary n) (isMessage multiple : Bool)
    (s : Store) (r : TupleRef) (group : (received v isMessage multiple s).1 = .tuple r) :
    ∀ u ∈ (received v isMessage multiple s).2.tuple r, u.Tame := by
  cases multiple with
  | true =>
    cases group
    have items : (received v isMessage true s).2.tuple ⟨s.tuples.size⟩ = [v, .bool isMessage] := by
      simp [received, Store.newTuple, Store.tuple]
    rw [items]
    simpa using And.intro hv.tame (Value.Ordinary.tame (n := 0) trivial : (Value.bool isMessage).Tame)
  | false =>
    obtain rfl : v = .tuple r := group
    exact hv.elim

/-- No marker is among what has come. -/
theorem Wait.poll_tame {n : Nat} {wait : Wait} {w : World} {s s' : Store} (hs : s.Clear n)
    {r : TupleRef} (come : wait.poll w s = some (.tuple r, s')) : ∀ u ∈ s'.tuple r, u.Tame := by
  have taken {n : Nat} {v : Value} (hv : v.Ordinary n) {isMessage multiple : Bool} {s : Store}
      (come : some (received v isMessage multiple s) = some (.tuple r, s')) :
      ∀ u ∈ s'.tuple r, u.Tame := by
    have tame := received_tame hv isMessage multiple s r
    rw [Option.some.inj come] at tame
    exact tame rfl
  cases wait with
  | never => cases come
  | clock | group | lock | send =>
    simp only [poll] at come
    split at come <;> cases come
  | receive ch multiple =>
    simp only [poll] at come
    split at come
    · next v rest buffer =>
      exact taken (hs.channel ch v (buffer ▸ List.mem_cons_self)) come
    · split at come
      · obtain ⟨-, -, result, -, -⟩ := Value.zero_calm (L := .any) (s.channel ch).element s hs hs.size
        split at come
        · next made =>
          simp only [Stateful.run, Stateful.store, made] at result
          exact taken (result _ rfl) come
        · exact taken (n := 0) (v := .nil) trivial come
      · cases come

/-! ## Threads -/

theorem Machine.ages_carried : Machine.Carried fun a b => a.2.Ages b.2 where
  refl a := .refl a.2
  trans := .trans
  step c w s := .of_turn (.step c w s)
  handle c f w s := .of_turn (.handle c f w s)
  complete call result c w s := .of_turn (.complete call result c w s)
  poll come := .of_turn (.poll come)
  invoke f args receiver table w s := .of_turn (.invoke f args receiver table w s)
  evaluate source table w s := .of_turn (.evaluate source table w s)
  results c w s := .of_turn (.results c w s)
  sorted o w s := .of_turn (.sorted o w s)

namespace Thread

variable {n : Nat} {d : Debugger} {t : Thread} {w : World} {s s' : Store} {unit : CodeRef}
  {table : TableRef} {call : PendingCall} {result : Except Fault Value}

/-! ### Units of a turn -/

theorem deliver_codes (t : Thread) (call : PendingCall) (result : Except Fault Value) (w : World)
    (s : Store) : (t.deliver call result w s).2.2.codes = s.codes := by
  have codes := (@Exec.complete_blind .still call result (t.context, w, s)).2
  rcases ran : Exec.complete call result t.context w s with ⟨⟨⟨r, c'⟩, w'⟩, s'⟩
  simp only [Stateful.run, Stateful.store, ran] at codes
  rw [deliver, ran]
  cases r with
  | ok u => exact codes
  | error f => exact (c'.handle_codes f s').trans codes

theorem await_codes (t : Thread) (call : PendingCall) (wait : Wait) (w : World) (s : Store) :
    (t.await call wait w s).2.2.codes = s.codes := by
  unfold await
  split
  · next come => exact (deliver_codes ..).trans (Wait.poll_codes come)
  · rfl

theorem sort_balanced (h : s.Balanced) (t : Thread) (call : PendingCall) (o : Sorting) (w : World) :
    (t.sort call o w s).2.2.Balanced := by
  unfold sort
  split
  · exact h.of_codes (deliver_codes ..)
  · split
    · exact h.newCode (Value.invocation_balanced _ _ _ _)
    · exact h.of_codes (deliver_codes ..)

theorem leave_balanced (h : s.Balanced) (t : Thread) (caller : Caller) (callers : List Caller)
    (result : Except Fault Unit) (w : World) :
    (t.leave caller callers result w s).2.2.Balanced := by
  unfold leave
  dsimp only
  split
  · exact h.of_codes (deliver_codes ..)
  · split
    · exact h.of_codes (deliver_codes ..)
    · have codes := t.context.results_codes s
      rcases ran : t.context.results s with ⟨r, s'⟩
      rw [ran] at codes
      cases r with
      | ok v => exact sort_balanced (h.of_codes codes) _ _ _ _
      | error f => exact h.of_codes ((deliver_codes ..).trans codes)

/-- A turn adds balanced units only, if what it is to evaluate does. -/
theorem turn_balanced (h : s.Balanced)
    (sources : ∀ call source, t.signal = .asks call (.evaluate source) → BalancedSource source) :
    (t.turn w s).2.2.Balanced := by
  cases signal : t.signal with
  | runs =>
    rw [turn_runs signal]
    exact h.of_codes (t.context.move_codes w s)
  | blocked call wait =>
    rw [turn_blocked signal]
    exact h.of_codes (await_codes ..)
  | asks call answer =>
    rw [turn_asks signal]
    cases answer with
    | value v => exact h.of_codes (deliver_codes ..)
    | wait wait => exact h.of_codes (await_codes ..)
    | sort o => exact sort_balanced h _ _ _ _
    | evaluate source =>
      have added := sources call source signal t.context.scope w s h
      simp only [serve]
      rcases ran : evaluation source t.context.scope w s with ⟨f | inner, s'⟩ <;> rw [ran] at added
      · exact added.of_codes (deliver_codes ..)
      · exact added
  | ended result =>
    cases behind : t.callers with
    | nil =>
      rw [turn_over signal behind]
      exact h
    | cons caller callers =>
      rw [turn_ended signal behind]
      exact leave_balanced h _ _ _ _ _

/-! ### The outermost context -/

/-- Of the contexts of a thread that called out of each other the outermost one waits for the results
of its builtin; where there is none, something else holds. -/
def Outermost (callers : List Caller) (otherwise : Prop) (s : Store) (unit : CodeRef)
    (table : TableRef) : Prop :=
  match callers.getLast? with
  | some k => k.context.Awaits k.call.multi s unit table
  | none => otherwise

/-- The outermost context of a thread stands in a call, or waits for the results of a builtin. -/
def Stands (t : Thread) (s : Store) (unit : CodeRef) (table : TableRef) : Prop :=
  Outermost t.callers (t.context.Stands t.signal s unit table) s unit table

/-- The outermost context of a thread waits for the results of a builtin while a call is completed. -/
def Awaits (t : Thread) (call : PendingCall) (s : Store) (unit : CodeRef) (table : TableRef) : Prop :=
  Outermost t.callers (t.context.Awaits call.multi s unit table) s unit table

theorem Outermost.imp {callers : List Caller} {p q : Prop} (h : Outermost callers p s unit table)
    (ages : s.Ages s') (alone : callers = [] → p → q) : Outermost callers q s' unit table := by
  unfold Outermost at h ⊢
  cases last : callers.getLast? with
  | some k =>
    rw [last] at h
    exact h.ages ages
  | none =>
    rw [last] at h
    exact alone (List.getLast?_eq_none_iff.1 last) h

theorem stands_ages {c : Context} {signal : Signal}
    (h : c.Stands signal s unit table) (ages : s.Ages s') : c.Stands signal s' unit table := by
  cases signal with
  | runs => exact Context.Standing.ages h ages
  | blocked call wait | asks call answer => exact Context.Awaits.ages h ages
  | ended result => trivial

theorem Stands.ages (h : t.Stands s unit table) (ages : s.Ages s') : t.Stands s' unit table :=
  h.imp ages fun _ here => stands_ages here ages

theorem Awaits.ages (h : t.Awaits call s unit table) (ages : s.Ages s') :
    t.Awaits call s' unit table :=
  h.imp ages fun _ here => here.ages ages

/-- An inner context has nothing of the outermost one. -/
theorem Awaits.enter (h : t.Awaits call s unit table) (resumption : Resumption) (inner : Context) :
    (t.enter call resumption inner).Stands s unit table := by
  unfold Awaits Outermost at h
  unfold Stands Outermost Thread.enter
  cases last : t.callers.getLast? with
  | none =>
    rw [last] at h
    rw [List.getLast?_eq_none_iff.1 last]
    exact h
  | some k =>
    rw [last] at h
    rw [List.getLast?_cons, last]
    exact h

/-- Behind an inner context the outermost one still waits. -/
theorem Stands.behind {caller : Caller} {callers : List Caller} (h : t.Stands s unit table)
    (behind : t.callers = caller :: callers) :
    ({ context := caller.context, callers := callers } : Thread).Awaits caller.call s unit table := by
  unfold Stands Outermost at h
  unfold Awaits Outermost
  rw [behind, List.getLast?_cons] at h
  cases last : callers.getLast? with
  | none =>
    rw [last] at h
    exact h
  | some k =>
    rw [last] at h
    exact h

/-- The result of a builtin has come. -/
theorem Awaits.deliver (clear : t.Clear n d) (hw : w.Clear n) (hs : s.Clear n)
    (h : t.Awaits call s unit table) (given : Exec.Given n call result)
    (tame : ∀ r, result = .ok (.tuple r) → ∀ v ∈ s.tuple r, v.Tame) :
    (t.deliver call result w s).1.Stands (t.deliver call result w s).2.2 unit table := by
  have callers : (t.deliver call result w s).1.callers = t.callers := by
    unfold Thread.deliver
    split <;> rfl
  unfold Stands
  rw [callers]
  refine h.imp (Machine.ages_carried.deliver w s t call result) fun _ here => ?_
  -- a group of results is spread, which depends on the store
  obtain ⟨m, yields, contained, same⟩ : ∃ m, (∀ l, Exec.Yields n l call.multi m) ∧
      Exec.Contained m ∧ m t.context w s = Exec.complete call result t.context w s := by
    by_cases group : ∃ r, result = .ok (.tuple r)
    · obtain ⟨r, rfl⟩ := group
      exact ⟨_, fun _ => Exec.pushResults_yields (hs.tuple r) (tame r rfl) call.multi,
        Exec.contained_rules.pushResults _ _,
        (Exec.complete_tuple (given.single r rfl) r t.context w s).symm⟩
    · refine ⟨_, fun _ => Exec.complete_yields call _ (fun v ok => ?_) given.fault,
        Exec.contained_rules.complete _ _, rfl⟩
      exact (given.value v ok).resolve_right fun ⟨r, same⟩ => group ⟨r, same ▸ ok⟩
  rcases ran : Exec.complete call result t.context w s with ⟨⟨⟨r, c'⟩, w'⟩, s'⟩
  have ages : s.Ages s' := by
    have ages := Store.Ages.of_turn (.complete call result t.context w s)
    rwa [ran] at ages
  obtain ⟨guarded, stands⟩ :=
    here.resumes ⟨clear.context, hw, hs⟩ yields contained (same.trans ran) ages
  rw [Thread.deliver, ran]
  cases r with
  | ok u => exact stands rfl
  | error f => exact guarded.handle f

section

variable (clear : t.Clear n d) (hw : w.Clear n) (hs : s.Clear n) (h : t.Awaits call s unit table)
include clear hw hs h

theorem Awaits.await {wait : Wait} (answers : call.callee.Answers n (.wait wait)) :
    (t.await call wait w s).1.Stands (t.await call wait w s).2.2 unit table := by
  unfold Thread.await
  split
  · next v s' come =>
    obtain ⟨hv, store, kin⟩ := Wait.poll_clear (L := .any) answers.ordinary hs _ come
    have le := hs.size ▸ kin.size_le
    refine (h.ages (.of_turn (.poll (w := w) come))).deliver (clear.mono le) (hw.mono le) store
      (.returned hv (answers.prompt wait rfl)) fun r same => ?_
    cases same
    exact Wait.poll_tame hs come
  · exact h

theorem Awaits.sort {o : Sorting} (ho : o.Clear n) :
    (t.sort call o w s).1.Stands (t.sort call o w s).2.2 unit table := by
  unfold Thread.sort
  split
  · exact (h.ages (.of_turn (.sorted { element := o.element, items := o.items } w s))).deliver clear hw
      (hs.newArray (a := { element := o.element, items := o.items }) ho.items)
      (.ok (v := .array _) trivial) nofun
  · next a b compared =>
    split
    · exact (h.ages (.of_turn (.invoke o.less [a, b] none o.scope w s))).enter _ _
    · exact h.deliver clear hw hs (.error (.of_kind rfl nofun)) nofun

theorem Awaits.serve {answer : Answer} (answers : call.callee.Answers n answer) :
    (t.serve call answer w s).1.Stands (t.serve call answer w s).2.2 unit table := by
  cases answer with
  | value v =>
    refine h.deliver clear hw hs (.ok answers.ordinary) fun r same => ?_
    cases same
    exact answers.ordinary.elim
  | wait wait => exact h.await clear hw hs answers
  | sort o => exact h.sort clear hw hs answers.ordinary
  | evaluate source =>
    obtain ⟨-, ordinary, store, -⟩ := evaluation_clear source t.context.scope w hs
    have ages := Store.Ages.of_turn (.evaluate source t.context.scope w s)
    simp only [Thread.serve]
    rcases ran : evaluation source t.context.scope w s with ⟨f | inner, s'⟩ <;>
      rw [ran] at ordinary store ages
    · exact (h.ages ages).deliver clear hw store (.error (ordinary f rfl)) fun _ same => by cases same
    · exact (h.ages ages).enter _ _

end

theorem Stands.leave (clear : t.Clear n d) (hw : w.Clear n) (hs : s.Clear n)
    (h : t.Stands s unit table) {caller : Caller} {callers : List Caller}
    (behind : t.callers = caller :: callers) {result : Except Fault Unit}
    (hr : Except.Ordinary result) :
    (t.leave caller callers result w s).1.Stands (t.leave caller callers result w s).2.2 unit
      table := by
  have awaits := h.behind behind
  have inner := clear.callers
  have debuggers := clear.debuggers
  rw [behind] at inner
  obtain ⟨first, rest⟩ := List.forall_mem_cons.1 inner
  rw [Thread.debuggers, behind] at debuggers
  have outer : ({ context := caller.context, callers := callers } : Thread).Clear n d :=
    ⟨first.context, rest, trivial, first.state, (List.cons.inj debuggers).2⟩
  unfold Thread.leave
  dsimp only
  cases result with
  | error f => exact awaits.deliver outer hw hs (.error (hr f rfl)) fun _ same => by cases same
  | ok u =>
    cases resumption : caller.resumption with
    | value =>
      have ordinary := Thread.result_ordinary clear.context
      refine awaits.deliver outer hw hs (.ok ordinary) fun r same => ?_
      rw [Except.ok.inj same] at ordinary
      exact ordinary.elim
    | comparison o =>
      have ho : o.Clear n := by
        have clear := first.resumption
        rwa [resumption] at clear
      obtain ⟨store, kin, -, ordinary, -⟩ := Thread.results_calm (L := .any) clear.context s hs hs.size
      have ages := Store.Ages.of_turn (.results t.context w s)
      change (t.context.results s).2.Clear _ at store
      simp only [Stateful.run, Stateful.store] at store kin ordinary
      dsimp only
      rcases ran : t.context.results s with ⟨f | v, s'⟩ <;> rw [ran] at store kin ordinary ages
      · have le := hs.size ▸ kin.size_le
        exact (awaits.ages ages).deliver (outer.mono le) (hw.mono le) store (.error (ordinary f rfl))
          fun _ same => by cases same
      · have le := hs.size ▸ kin.size_le
        exact (awaits.ages ages).sort (outer.mono le) (hw.mono le) store ((ho.mono le).compared _)

/-- What one turn keeps. -/
theorem Stands.turn (sound : Thread.Sound (t, w, s)) (balanced : s.Balanced)
    (h : t.Stands s unit table) : (t.turn w s).1.Stands (t.turn w s).2.2 unit table := by
  obtain ⟨clear, hw, hs⟩ := sound
  have ordinary := clear.signal
  cases signal : t.signal with
  | runs =>
    have ages : s.Ages (t.turn w s).2.2 := by
      have ages := Machine.ages_carried.advance w s t 1 1
      rwa [Thread.turn, signal]
    rw [turn_runs signal] at ages ⊢
    refine Outermost.imp h ages fun _ here => ?_
    rw [signal] at here
    exact Context.Standing.move ⟨clear.context, hw, hs⟩ balanced.code here
  | blocked call wait =>
    rw [turn_blocked signal]
    rw [signal] at ordinary
    have awaits : t.Awaits call s unit table := Outermost.imp h (.refl s) fun _ here => by
      rwa [signal] at here
    exact awaits.await clear hw hs ordinary
  | asks call answer =>
    rw [turn_asks signal]
    rw [signal] at ordinary
    have awaits : t.Awaits call s unit table := Outermost.imp h (.refl s) fun _ here => by
      rwa [signal] at here
    exact awaits.serve clear hw hs ordinary
  | ended result =>
    rw [signal] at ordinary
    cases behind : t.callers with
    | nil =>
      rw [turn_over signal behind]
      exact h
    | cons caller callers =>
      rw [turn_ended signal behind]
      exact h.leave clear hw hs behind ordinary

open Relation (ReflTransGen)

variable {x y : Thread × World × Store}

/-- A thread that, however far it goes by itself, evaluates no source but those that add balanced
units only. -/
def Sources (x : Thread × World × Store) : Prop :=
  ∀ y, ReflTransGen Turned x y → ∀ call source, y.1.signal = .asks call (.evaluate source) →
    BalancedSource source

/-- Turns add balanced units only. -/
theorem Sources.balances (sources : Sources x) (balanced : x.2.2.Balanced)
    (made : ReflTransGen Turned x y) : y.2.2.Balanced := by
  induction made with
  | refl => exact balanced
  | @tail y z before turned ih =>
    obtain ⟨t, w, s⟩ := y
    cases turned
    exact turn_balanced ih (sources _ before)

theorem turned_ages (turned : Turned x y) : x.2.2.Ages y.2.2 := by
  obtain ⟨t, w, s⟩ := x
  cases turned
  unfold turn
  split
  · exact Machine.ages_carried.await w s t _ _
  · exact Machine.ages_carried.advance w s t 1 1

theorem turns_ages (made : ReflTransGen Turned x y) : x.2.2.Ages y.2.2 := by
  induction made with
  | refl => exact .refl _
  | tail _ turned ih => exact ih.trans (turned_ages turned)

/-- What turns keep. -/
theorem Stands.turns (h : x.1.Stands x.2.2 unit table) (sound : Sound x) (balanced : x.2.2.Balanced)
    (sources : Sources x) (made : ReflTransGen Turned x y) : y.1.Stands y.2.2 unit table := by
  induction made with
  | refl => exact h
  | @tail y z before turned ih =>
    obtain ⟨t, w, s⟩ := y
    cases turned
    exact ih.turn (sound.turns before).1 (sources.balances balanced before)

end Thread

/-! ## Processes -/

/-- What follows the statements of a program does not run statements. -/
theorem Phase.after_not_statements {callsMain : Bool} {table : TableRef} {inMain : Bool} {c : Context}
    {result : Except Fault Unit} {w : World} {s s' : Store} {phase : Phase}
    (follows : Phase.after callsMain table inMain c result w s = (phase, s')) (t : Thread) :
    phase ≠ .runs false t := by
  rintro rfl
  unfold after at follows
  repeat' split at follows
  all_goals cases follows

theorem Phase.after_balanced {s : Store} (h : s.Balanced) (callsMain : Bool) (table : TableRef)
    (inMain : Bool) (c : Context) (result : Except Fault Unit) (w : World) :
    (Phase.after callsMain table inMain c result w s).2.Balanced := by
  unfold after
  cases result with
  | error f => exact h
  | ok u =>
    cases inMain with
    | true => exact h.of_codes (c.results_codes s)
    | false =>
      simp only [Bool.false_eq_true, if_false]
      split
      · exact h
      · split
        · exact h
        · split
          · exact h.newCode (Value.invocation_balanced _ _ _ _)
          · exact h

theorem Phase.after_ages (callsMain : Bool) (table : TableRef) (inMain : Bool) (c : Context)
    (result : Except Fault Unit) (w : World) (s : Store) :
    s.Ages (Phase.after callsMain table inMain c result w s).2 := by
  unfold after
  cases result with
  | error f => exact .refl s
  | ok u =>
    cases inMain with
    | true => exact .of_turn (.results c w s)
    | false =>
      simp only [Bool.false_eq_true, if_false]
      split
      · exact .refl s
      · split
        · exact .refl s
        · split
          · exact .of_turn (.invoke _ _ _ _ w s)
          · exact .refl s

namespace Process

variable {callsMain : Bool} {main table : TableRef} {unit : CodeRef} {p q : Process}

/-- No thread of the process, however far it goes by itself, evaluates a source that adds a unit that
is not balanced. -/
def Sources (p : Process) : Prop := ∀ t ∈ p.threads, Thread.Sources (t, p.world, p.store)

theorem Move.ages (m : Move callsMain main p q) : p.store.Ages q.store := by
  cases m with
  | own here moves => exact Thread.turns_ages moves.turns
  | @next inMain t result phase s here ended follows =>
    have ages := Phase.after_ages callsMain main inMain t.context result p.world p.store
    rwa [follows] at ages
  | @start l c s before after here invoked =>
    cases invoked
    exact .of_turn (.invoke l.callee l.args l.receiver p.world.root p.world p.store)
  | beside before after here moves => exact Thread.turns_ages moves.turns
  | join here none => exact .refl _
  | finish before after here ended => exact .refl _
  | clock time => exact .refl _

/-- A move adds balanced units only. -/
theorem Move.balances (m : Move callsMain main p q) (sources : p.Sources)
    (balanced : p.store.Balanced) : q.store.Balanced := by
  cases m with
  | own here moves => exact (sources _ (own_mem here)).balances balanced moves.turns
  | @next inMain t result phase s here ended follows =>
    have units := Phase.after_balanced balanced callsMain main inMain t.context result p.world
    rwa [follows] at units
  | start before after here invoked =>
    cases invoked
    exact balanced.newCode (Value.invocation_balanced _ _ _ _)
  | beside before after here moves =>
    have mem := beside_mem (here ▸ List.mem_append_right _ List.mem_cons_self)
    exact (sources _ mem).balances balanced moves.turns
  | join here none => exact balanced
  | finish before after here ended => exact balanced
  | clock time => exact balanced

/-- The units of the process are balanced, and its own thread stands in a call of a unit as long as it
runs the statements. -/
structure Runs (p : Process) (unit : CodeRef) (table : TableRef) : Prop where
  sound : p.Sound
  units : p.store.Balanced
  own : ∀ t, p.phase = .runs false t → t.Stands p.store unit table

theorem Runs.move (h : p.Runs unit table) (sources : p.Sources) (m : Move callsMain main p q) :
    q.Runs unit table := by
  refine ⟨h.sound.move m, m.balances sources h.units, ?_⟩
  have ages := m.ages
  cases m with
  | @own inMain t t' w s here moves =>
    intro t' same
    cases same
    have mem := own_mem here
    exact (h.own t here).turns (h.sound.thread mem) h.units (sources t mem) moves.turns
  | next here ended follows => exact fun t same => absurd same (Phase.after_not_statements follows t)
  | join here none => exact fun t same => Phase.noConfusion same
  | start before after here invoked => exact fun t same => (h.own t same).ages ages
  | beside before after here moves => exact fun t same => (h.own t same).ages ages
  | finish before after here ended => exact h.own
  | clock time => exact h.own

end Process

end StackScript
