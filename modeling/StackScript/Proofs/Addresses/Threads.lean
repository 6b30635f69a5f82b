import StackScript.Proofs.Addresses.Steps
import StackScript.Proofs.Settling.Units
import StackScript.Machine

/-!
# Threads and sources see no addresses

What a thread does between the steps of its contexts commutes with a relocation: it starts inner
contexts, waits, sorts, and hands results on.

Main statements: `Thread.deliver_turned`, `Thread.sort_turned` and `Thread.leave_turned`.
-/
namespace StackScript

open Value (moved)

variable [Relocation]

/-! ## Threads that move -/

/-- What becomes of the end of an inner context, with the items of a sort moved. -/
def Resumption.moved : Resumption → Resumption
  | .value => .value
  | .comparison o => .comparison o.moved

/-- A caller whose context has moved. -/
@[simps] def Caller.moved (c : Caller) : Caller :=
  { c with context := c.context.moved, resumption := c.resumption.moved }

/-- A thread whose contexts have moved. -/
@[simps] def Thread.moved (t : Thread) : Thread :=
  { context := t.context.moved, callers := t.callers.map Caller.moved, signal := t.signal.moved }

/-! ## New contexts -/

theorem Value.invocation_moved (f : Value) (args : List Value) (receiver : Option Value)
    (s : Store) : f.moved.invocation (args.map moved) (receiver.map moved) s.moved =
      (f.invocation args receiver s).moved := by
  cases receiver <;>
    simp only [invocation, Code.moved, typeName_moved, Option.map_none, Option.map_some,
      Store.code_moved_package] <;> congr 1
  case none.e_package | some.e_package => cases f <;> rfl
  all_goals simp [Function.comp_def, Instruction.moved, Operand.moved]

theorem Context.new_moved (s : Store) (level : Strictness) (code : CodeRef) (scope : TableRef) :
    Context.new s.moved level code scope = (Context.new s level code scope).moved := by
  simp [Context.new, Context.moved, Context.moduleOf, Relocation.start]

theorem Value.invoke_moved {s : Store} (beyond : Relocation.bound ≤ s.codes.size) (f : Value)
    (args : List Value) (receiver : Option Value) (table : TableRef) (w : World) :
    f.moved.invoke (args.map moved) (receiver.map moved) table w.moved s.moved =
      ((f.invoke args receiver table w s).1.moved, (f.invoke args receiver table w s).2.moved) := by
  simp only [invoke, invocation_moved, s.newCode_moved beyond, Context.new_moved]
  rfl

/-! ## Waiting -/

namespace Wait

theorem received_moved (v : Value) (isMessage multiple : Bool) (s : Store) :
    received v.moved isMessage multiple s.moved =
      ((received v isMessage multiple s).1.moved, (received v isMessage multiple s).2.moved) := by
  cases multiple with
  | false => rfl
  | true => exact congrArg (fun p => (Value.tuple p.1, p.2)) (s.newTuple_moved [v, .bool isMessage])

theorem poll_moved (wait : Wait) (w : World) (s : Store) :
    wait.moved.poll w.moved s.moved = (wait.poll w s).map (Prod.map Value.moved Store.moved) := by
  cases wait with
  | never => rfl
  | clock time => by_cases h : time ≤ w.clock <;> simp [moved, poll, h, Value.moved]
  | group r => by_cases h : 0 < s.waitGroup r <;> simp [moved, poll, h, Value.moved]
  | lock r =>
    cases h : s.mutex r <;> simp [moved, poll, h, Value.moved]
    rfl
  | send r message =>
    have sends := s.modifyChannel_moved (f := fun c =>
      { c with buffer := c.buffer ++ [message], handles := c.handles - 1 })
      (g := fun c => { c with buffer := c.buffer ++ [message.moved], handles := c.handles - 1 })
      (fun c => by simp [ChannelObject.moved]) r
    by_cases h : (s.channel r).buffer.length < (s.channel r).capacity <;>
      simp [moved, poll, h, Value.moved]
    exact sends
  | receive r multiple =>
    cases buffer : (s.channel r).buffer with
    | cons v rest =>
      have takes := s.modifyChannel_moved (f := fun c => { c with buffer := rest })
        (g := fun c => { c with buffer := rest.map Value.moved }) (fun _ => rfl) r
      simp [moved, poll, buffer, takes, received_moved]
      rfl
    | nil =>
      obtain ⟨zero, -⟩ := Value.zero_blind (s.channel r).element s
      simp only [moved, poll, buffer, Store.channel_moved, ChannelObject.moved_buffer,
        ChannelObject.moved_closed, ChannelObject.moved_handles, ChannelObject.moved_element,
        List.map_nil]
      split
      · change Value.zero (s.channel r).element s.moved =
          ((Value.zero (s.channel r).element s).1.map Value.moved,
            (Value.zero (s.channel r).element s).2.moved) at zero
        rw [zero]
        rcases Value.zero (s.channel r).element s with ⟨result, s'⟩
        cases result with
        | ok v => exact congrArg some (received_moved v false multiple s')
        | error f => exact congrArg some (received_moved .nil false multiple s')
      · rfl

omit [Relocation] in
theorem poll_codes {wait : Wait} {v : Value} {w : World} {s s' : Store}
    (come : wait.poll w s = some (v, s')) : s'.codes = s.codes := by
  have still {v v' : Value} {isMessage multiple : Bool} {s : Store}
      (come : some (received v isMessage multiple s) = some (v', s')) : s'.codes = s.codes := by
    obtain rfl : (received v isMessage multiple s).2 = s' := congrArg Prod.snd (Option.some.inj come)
    cases multiple <;> rfl
  cases wait with
  | never => cases come
  | clock | group | lock | send =>
    simp only [poll] at come
    split at come <;> cases come
    rfl
  | receive r multiple =>
    simp only [poll] at come
    split at come
    · exact (still come).trans rfl
    · split at come
      · have zero := (@Value.zero_blind .still (s.channel r).element s).2
        change (Value.zero (s.channel r).element s).2.codes = s.codes at zero
        rcases ran : Value.zero (s.channel r).element s with ⟨_ | _, s''⟩ <;>
          rw [ran] at come zero <;> exact (still come).trans zero
      · cases come

end Wait

/-! ## What the end of a context leaves -/

namespace Context

theorem result_moved (c : Context) : c.moved.result = c.result.moved := by
  simp only [result, moved_stack, Array.back?_map]
  cases c.stack.back? with
  | none => rfl
  | some v => cases v <;> rfl

theorem results_moved (c : Context) (s : Store) :
    c.moved.results s.moved = ((c.results s).1.map Value.moved, (c.results s).2.moved) := by
  have marker : (fun v : Value => !isResultsMarker v) ∘ Value.moved = fun v => !isResultsMarker v := by
    funext v
    cases v <;> rfl
  have above : c.moved.stack.toList.reverse.takeWhile (fun v => !isResultsMarker v) =
      (c.stack.toList.reverse.takeWhile fun v => !isResultsMarker v).map Value.moved := by
    rw [moved_stack, Array.toList_map, ← List.map_reverse, List.takeWhile_map, marker]
  have read : Blind Value.moved c.results c.moved.results := by
    unfold results
    dsimp only
    rw [above, List.length_map, moved_stack, Array.size_map, result_moved]
    exact .ite (StoreM.tuple_blind _) (.pure _ _)
  exact (read s).1

omit [Relocation] in
theorem results_codes (c : Context) (s : Store) : (c.results s).2.codes = s.codes := by
  unfold results
  split <;> rfl

end Context

namespace Sorting

theorem comparison?_moved (o : Sorting) :
    o.moved.comparison? = o.comparison?.map (Prod.map Value.moved Value.moved) := by
  simp only [comparison?, moved_items, moved_next, moved_place, Array.size_map]
  split
  · simp only [Option.map_some, Prod.map, @Store.getD_map _ Value.moved .nil rfl]
  · rfl

omit [Relocation] in
theorem swapIfInBounds_map {α β : Type} (f : α → β) (items : Array α) (i j : Nat) :
    (items.map f).swapIfInBounds i j = (items.swapIfInBounds i j).map f := by
  refine Array.ext (by simp) fun k h h' => ?_
  simp only [Array.getElem_swapIfInBounds, Array.getElem_map, Array.size_map]
  split <;> (try split) <;> rfl

theorem compared_moved (o : Sorting) (isLess : Bool) :
    o.moved.compared isLess = (o.compared isLess).moved := by
  cases isLess with
  | false => rfl
  | true =>
    simp only [compared, moved_place, moved_items, swapIfInBounds_map, if_true]
    split <;> rfl

end Sorting

/-! ## Turns of a thread -/

/-- What becomes of a thread, and what becomes of it where everything has moved. -/
structure Turned (s : Store) (r r' : Thread × World × Store) : Prop where
  moved : r' = (r.1.moved, r.2.1.moved, r.2.2.moved)
  grows : s.Grows r.2.2

theorem Turned.after {s s' : Store} {r r' : Thread × World × Store} (h : Turned s' r r')
    (before : s.Grows s') : Turned s r r' := ⟨h.moved, before.trans h.grows⟩

namespace Thread

theorem deliver_turned (t : Thread) (call : PendingCall) (result : Except Fault Value) (w : World)
    (s : Store) : Turned s (t.deliver call result w s)
      (t.moved.deliver call (result.map Value.moved) w.moved s.moved) := by
  obtain ⟨completed, codes⟩ := Exec.complete_blind call result (t.context, w, s)
  simp only [Stateful.run, Relocatable.moved, Stateful.store, Prod.mk.injEq] at completed codes
  rcases h : Exec.complete call result t.context w s with ⟨⟨⟨r, c'⟩, w'⟩, s'⟩
  rcases h' : Exec.complete call (result.map Value.moved) t.context.moved w.moved s.moved with
    ⟨⟨⟨r', c''⟩, w''⟩, s''⟩
  rw [h] at codes
  rw [h, h'] at completed
  obtain ⟨rfl, rfl, rfl, rfl⟩ := completed
  simp only [deliver, moved_context, h, h']
  cases r with
  | ok u => exact ⟨rfl, .of_codes codes⟩
  | error f =>
    simp only [Except.map, Context.handle_moved]
    exact ⟨rfl, .of_codes ((Context.handle_codes c' f s').trans codes)⟩

theorem await_turned (t : Thread) (call : PendingCall) (wait : Wait) (w : World) (s : Store) :
    Turned s (t.await call wait w s) (t.moved.await call wait.moved w.moved s.moved) := by
  simp only [await, Wait.poll_moved]
  cases come : wait.poll w s with
  | none => exact ⟨rfl, .of_codes rfl⟩
  | some found =>
    exact (deliver_turned t call (.ok found.1) w found.2).after (.of_codes (Wait.poll_codes come))

variable {s : Store}

theorem sort_turned (beyond : Relocation.bound ≤ s.codes.size) (t : Thread) (call : PendingCall)
    (o : Sorting) (w : World) :
    Turned s (t.sort call o w s) (t.moved.sort call o.moved w.moved s.moved) := by
  simp only [sort, Sorting.comparison?_moved]
  cases o.comparison? with
  | none =>
    have made := s.newArray_moved { element := o.element, items := o.items }
    simp only [Option.map_none, Sorting.moved_element, Sorting.moved_items]
    rw [ArrayObject.moved] at made
    rw [made]
    exact (deliver_turned t call (.ok (.array (s.newArray _).1)) w (s.newArray _).2).after (.of_codes rfl)
  | some compared =>
    have invoked := o.less.invoke_moved beyond [compared.1, compared.2] none o.scope w
    simp only [Option.map_some, Prod.map, Sorting.moved_less, Value.isCallable_moved,
      Sorting.moved_scope, Value.typeName_moved]
    simp only [List.map_cons, List.map_nil, Option.map_none] at invoked
    split
    · rw [invoked]
      exact ⟨rfl, .newCode _⟩
    · exact deliver_turned t call (.error _) w s

theorem leave_turned (beyond : Relocation.bound ≤ s.codes.size) (t : Thread) (caller : Caller)
    (callers : List Caller) (result : Except Fault Unit) (w : World) :
    Turned s (t.leave caller callers result w s)
      (t.moved.leave caller.moved (callers.map Caller.moved) result w.moved s.moved) := by
  let outer : Thread := { context := caller.context, callers := callers }
  cases result with
  | error f => exact deliver_turned outer caller.call (.error f) w s
  | ok u =>
    cases resumption : caller.resumption with
    | value =>
      simp only [leave, Caller.moved_resumption, resumption, Resumption.moved, moved_context,
        Context.result_moved]
      exact deliver_turned outer caller.call (.ok t.context.result) w s
    | comparison o =>
      simp only [leave, Caller.moved_resumption, resumption, Resumption.moved, moved_context,
        Context.results_moved]
      have codes := t.context.results_codes s
      rcases ran : t.context.results s with ⟨r, s'⟩
      rw [ran] at codes
      cases r with
      | error f => exact (deliver_turned outer caller.call (.error f) w s').after (.of_codes codes)
      | ok v =>
        simp only [Except.map, Value.isTruthy_moved, Sorting.compared_moved]
        have grown : Relocation.bound ≤ s'.codes.size := by rw [codes]; exact beyond
        exact (sort_turned grown outer caller.call (o.compared v.isTruthy) w).after (.of_codes codes)

end Thread

/-!
## Sources and launches

What a source is compiled to does not depend on the units that are there, and no frame is in it, so
its evaluation commutes with a relocation, as does the start of functions that were launched.

Main statements: `evaluation_moved`, `Thread.serve_turned` and `Machine.launch_moved`.
-/

open CompileM

/-! ## Compiling -/

/-- Only frames move. -/
theorem Code.Inert.moved {code : Code} (h : code.Inert) : code.moved = code := by
  have same : code.instructions.map Instruction.moved = code.instructions := by
    refine Array.ext (Array.size_map ..) fun a _ there => ?_
    have none := (h _ (Array.getElem_mem there)).frameless
    rw [Array.getElem_map]
    rcases found : code.instructions[a] with ⟨op, operand⟩
    rw [found] at none
    cases operand with
    | value v =>
      have stays : v.moved = v := Value.moved_of_ne fun f is => none f (is ▸ rfl)
      simp [Instruction.moved, Operand.moved, stays]
    | _ => rfl
  rw [Code.moved, same]

/-- Units that are added are not rewritten, and inert ones do not move. -/
theorem Store.append_moved {s : Store} (beyond : Relocation.bound ≤ s.codes.size) {more : Array Code}
    (inert : ∀ code ∈ more, code.Inert) :
    ({ s with codes := s.codes ++ more } : Store).moved =
      { s.moved with codes := s.moved.codes ++ more } := by
  have same : more.mapIdx (fun i c => (Relocation.rewrite ⟨i + s.codes.size⟩ c).moved) = more := by
    refine Array.ext (Array.size_mapIdx ..) fun a _ there => ?_
    rw [Array.getElem_mapIdx, Relocation.beyond _ _ (Nat.le_add_left_of_le beyond)]
    exact (inert _ (Array.getElem_mem there)).moved
  simp only [Store.moved, Array.mapIdx_append, same]

/-- A step of a compiler without open loops works the same way over units that have moved. -/
theorem CompileM.into_moved {s : Store} (beyond : Relocation.bound ≤ s.codes.size) (source : String)
    {c : Compiler} (loops : c.draft.loops = []) :
    (compileExpression source).into c s.moved =
        (((compileExpression source).into c s).1, ((compileExpression source).into c s).2.1,
          ((compileExpression source).into c s).2.2.moved) ∧
      s.Grows ((compileExpression source).into c s).2.2 ∧
      ∀ code, ((compileExpression source).into c s).1 = .ok code → code.Inert := by
  have idle : Compiler.Idle s.codes.size 0 (c.over s.codes) :=
    Compiler.Unfailed.idle_of_loops (c := c.over s.codes) loops
  obtain ⟨⟨⟨more, inert, same⟩, -⟩, leads⟩ := compileExpression_leads source _ idle
  have size : s.moved.codes.size = s.codes.size := Array.size_mapIdx ..
  have here : compileExpression source (c.over s.codes) = _ := same s.codes rfl
  have there : compileExpression source (c.over s.moved.codes) = _ := same s.moved.codes size
  have into (s : Store) : (compileExpression source).into c s =
      ((compileExpression source (c.over s.codes)).1,
        (compileExpression source (c.over s.codes)).2.over #[],
        { s with codes := (compileExpression source (c.over s.codes)).2.codes }) := rfl
  have codes : (compileExpression source (c.over s.codes)).2.codes = s.codes ++ more :=
    congrArg (fun r => r.2.codes) here
  rw [into, into, there]
  refine ⟨?_, ⟨more, codes⟩, fun code done => ?_⟩
  · dsimp only
    rw [codes, Store.append_moved beyond inert]
    rfl
  · exact (leads code _ (Prod.ext done rfl)).1.ready.inert

section

variable {source : String} {w : World} {s s' : Store} {c : Compiler}

omit [Relocation]

theorem evaluation_error {f : Fault} (table : TableRef)
    (ran : (compileExpression source).into (.new evaluationName w.settings) s = (.error f, c, s')) :
    evaluation source table w s = (.error f, s') := by
  rw [evaluation, ran]

theorem evaluation_ok {code : Code} (table : TableRef)
    (ran : (compileExpression source).into (.new evaluationName w.settings) s = (.ok code, c, s')) :
    evaluation source table w s = (.ok (Context.new (s'.newCode code).2 w.settings.strictness
      (s'.newCode code).1 table).started, (s'.newCode code).2) := by
  rw [evaluation, ran]

end

/-- The evaluation of a source. -/
theorem evaluation_moved {s : Store} (beyond : Relocation.bound ≤ s.codes.size) (source : String)
    (table : TableRef) (w : World) :
    evaluation source table w.moved s.moved =
        ((evaluation source table w s).1.map Context.moved, (evaluation source table w s).2.moved) ∧
      s.Grows (evaluation source table w s).2 := by
  obtain ⟨there, grows, inert⟩ :=
    CompileM.into_moved beyond source (c := .new evaluationName w.settings) rfl
  change evaluation source table w s.moved = _ ∧ _
  rcases ran : (compileExpression source).into (.new evaluationName w.settings) s with
    ⟨_ | code, c, s'⟩ <;> rw [ran] at there grows inert
  · rw [evaluation_error table ran, evaluation_error table there]
    exact ⟨rfl, grows⟩
  · have grown : Relocation.bound ≤ s'.codes.size := beyond.trans grows.size_le
    have added := @Store.newCode_moved _ s' code grown
    rw [(inert code rfl).moved] at added
    rw [evaluation_ok table ran, evaluation_ok table there, added, Context.new_moved]
    exact ⟨rfl, grows.trans (.newCode code)⟩

/-! ## Turns -/

/-- What a builtin asks for is done the same way. -/
theorem Thread.serve_turned {s : Store} (beyond : Relocation.bound ≤ s.codes.size) (t : Thread)
    (call : PendingCall) (answer : Answer) (w : World) :
    Turned s (t.serve call answer w s) (t.moved.serve call answer.moved w.moved s.moved) := by
  cases answer with
  | value v => exact deliver_turned t call (.ok v) w s
  | wait wait => exact await_turned t call wait w s
  | sort o => exact sort_turned beyond t call o w
  | evaluate source =>
    obtain ⟨there, grows⟩ := evaluation_moved beyond source t.context.scope w
    simp only [serve, Answer.moved, Thread.moved_context, Context.moved_scope, there]
    rcases ran : evaluation source t.context.scope w s with ⟨_ | inner, s'⟩ <;> rw [ran] at grows
    · exact (deliver_turned t call (.error _) w s').after grows
    · exact ⟨rfl, grows⟩

/-! ## Launches -/

namespace Machine

theorem startLaunched_moved {s : Store} (beyond : Relocation.bound ≤ s.codes.size)
    (ls : List Launch) (ts : List Thread) (w : World) :
    startLaunched (ls.map Launch.moved) (ts.map Thread.moved) w.moved s.moved =
        ((startLaunched ls ts w s).1.map Thread.moved, (startLaunched ls ts w s).2.moved) ∧
      s.Grows (startLaunched ls ts w s).2 := by
  induction ls generalizing ts s with
  | nil => exact ⟨rfl, .of_codes rfl⟩
  | cons l rest ih =>
    have invoked := l.callee.invoke_moved beyond l.args l.receiver w.root w
    have grows : s.Grows (l.callee.invoke l.args l.receiver w.root w s).2 := .newCode _
    obtain ⟨there, grows'⟩ := ih (beyond.trans grows.size_le)
      (ts ++ [{ context := (l.callee.invoke l.args l.receiver w.root w s).1 }])
    refine ⟨?_, grows.trans grows'⟩
    rw [List.map_append] at there
    simp only [List.map_cons, startLaunched, Launch.moved]
    exact (congrArg (fun inner => startLaunched (rest.map Launch.moved)
      (ts.map Thread.moved ++ [{ context := inner.1 }]) w.moved inner.2) invoked).trans there

/-- Starting what was launched. -/
theorem launch_moved {s : Store} (beyond : Relocation.bound ≤ s.codes.size) (ts : List Thread)
    (w : World) : launch (ts.map Thread.moved) w.moved s.moved =
        ((launch ts w s).1.map Thread.moved, (launch ts w s).2.1.moved, (launch ts w s).2.2.moved) ∧
      s.Grows (launch ts w s).2.2 := by
  obtain ⟨started, grows⟩ := startLaunched_moved beyond w.launched ts w
  refine ⟨?_, grows⟩
  simp only [launch, World.moved_launched, started]
  rfl

end Machine

end StackScript
