import Mathlib.Logic.Relation
import StackScript.Proofs.Debugging.Steps
import StackScript.Proofs.Settling.Units
import StackScript.Machine

/-!
# Turns without a debugger

A thread goes on turn by turn: a step of its context, what a builtin asks for, the return from an
inner context. Only the outermost context may have a debugger, so that only there a turn can stop.
A turn that does not stop is the same for the thread without the debugger, and links structs only if
it is a step that is to store one as the parent of another.

Main statements: `Thread.turn_twin` and `Thread.turn_stops`.
-/
namespace StackScript

variable {L : Links} {n : Nat}

/-! ## Sorting and waiting -/

namespace Sorting.Clear

variable {o : Sorting} (h : o.Clear n)
include h

theorem comparison? : ∀ ab ∈ o.comparison?, ab.1.Ordinary n ∧ ab.2.Ordinary n := by
  intro ab compared
  unfold Sorting.comparison? at compared
  split at compared <;> cases compared
  exact ⟨Array.forall_getD h.items (by trivial) _, Array.forall_getD h.items (by trivial) _⟩

theorem advance : o.advance.Clear n := { h with }

theorem compared (isLess : Bool) : (o.compared isLess).Clear n := by
  have swapped : ({ o with
      items := o.items.swapIfInBounds o.place (o.place - 1), place := o.place - 1 } : Sorting).Clear n := by
    refine { h with items := fun v mem => ?_ }
    simp only [Array.swapIfInBounds] at mem
    split at mem
    · split at mem
      · exact h.items v ((Array.swap_perm _ _).mem_iff.1 mem)
      · exact h.items v mem
    · exact h.items v mem
  unfold Sorting.compared
  split
  · dsimp only
    split
    · exact swapped.advance
    · exact swapped
  · exact h.advance

end Sorting.Clear

theorem Wait.received_clear {v : Value} {s : Store} (hv : v.Ordinary n) (hs : s.Clear n)
    (isMessage multiple : Bool) : (received v isMessage multiple s).1.Returned n ∧
      (received v isMessage multiple s).2.Clear n ∧
      (received v isMessage multiple s).2.structs = s.structs := by
  unfold received
  split
  · have both : ∀ u ∈ [v, .bool isMessage], u.Stacked n := by
      simpa using And.intro hv.stacked (show (Value.bool isMessage).Stacked n from .inr trivial)
    exact ⟨.inr ⟨_, rfl⟩, hs.newTuple both, rfl⟩
  · exact ⟨.inl hv, hs, rfl⟩

/-- What has come is ordinary, or a group of what is. -/
theorem Wait.poll_clear {wait : Wait} {w : World} {s : Store} (hw : wait.Ordinary n)
    (hs : s.Clear n) : ∀ r ∈ wait.poll w s, r.1.Returned r.2.structs.size ∧
      r.2.Clear r.2.structs.size ∧ s.Kin L r.2 := by
  have kept {v : Value} {s' : Store} (hv : v.Returned n) (hs' : s'.Clear n)
      (same : s'.structs = s.structs) : v.Returned s'.structs.size ∧ s'.Clear s'.structs.size ∧
        s.Kin L s' := by
    rw [hs'.size]
    exact ⟨hv, hs', .of_same same⟩
  have nothing : Value.nil.Returned n := .inl trivial
  intro r come
  cases wait with
  | never => cases come
  | clock time =>
    simp only [poll] at come
    split at come <;> cases come
    exact kept nothing hs rfl
  | group g =>
    simp only [poll] at come
    split at come <;> cases come
    exact kept nothing hs rfl
  | lock g =>
    simp only [poll] at come
    split at come <;> cases come
    exact kept nothing { hs with } rfl
  | send ch message =>
    simp only [poll] at come
    split at come <;> cases come
    refine kept nothing (hs.modifyChannel (fun c hc v mem => ?_) ch) rfl
    rcases List.mem_append.1 mem with old | new
    · exact hc v old
    · exact List.mem_singleton.1 new ▸ hw
  | receive ch multiple =>
    simp only [poll] at come
    have channel := hs.channel ch
    split at come
    · next v rest buffer =>
      cases come
      obtain ⟨ordinary, clear, same⟩ := received_clear (channel v (buffer ▸ List.mem_cons_self))
        (hs.modifyChannel (f := ({ · with buffer := rest })) (fun c _ v mem =>
          channel v (buffer ▸ List.mem_cons_of_mem _ mem)) ch) true multiple
      exact kept ordinary clear same
    · split at come
      · obtain ⟨zero, kin, result, -, -⟩ := Value.zero_calm (L := L) (s.channel ch).element s hs hs.size
        change (Value.zero (s.channel ch).element s).2.Clear _ at zero
        simp only [Stateful.run, Stateful.store] at zero kin result
        split at come <;> cases come
        · next made =>
          rw [made] at zero kin result
          obtain ⟨ordinary, clear, same⟩ := received_clear (result _ rfl) zero false multiple
          rw [same]
          exact ⟨ordinary, clear, kin.trans (.of_same same)⟩
        · next failed =>
          rw [failed] at zero kin
          obtain ⟨ordinary, clear, same⟩ := received_clear (v := .nil) trivial zero false multiple
          rw [same]
          exact ⟨ordinary, clear, kin.trans (.of_same same)⟩
      · cases come

/-! ## Inner contexts -/

/-- A context that is about to run by itself: nothing on its stacks, and no debugger. -/
structure Context.Fresh (n : Nat) (c : Context) : Prop where
  clear : c.Clear n
  debugger : c.debugger = {}
  state : c.state = .running

theorem Context.Fresh.bare {c : Context} (h : c.Fresh n) : c.bare = c := by
  unfold Context.bare
  rw [← h.debugger]

theorem Context.new_fresh (s : Store) (level : Strictness) (code : CodeRef) (table : TableRef) :
    (new s level code table).started.Fresh n :=
  ⟨⟨by simp [started, new], by simp [started, new]⟩, rfl, rfl⟩

theorem Value.invoke_fresh {f : Value} {args : List Value} {s : Store} (hf : f.Ordinary n)
    (ha : ∀ v ∈ args, v.Ordinary n) (hs : s.Clear n) (receiver : Option Value)
    (hr : ∀ v ∈ receiver, v.Ordinary n) (table : TableRef) (w : World) :
    (f.invoke args receiver table w s).1.Fresh n ∧ (f.invoke args receiver table w s).2.Clear n := by
  refine ⟨Context.new_fresh _ _ _ _, hs.newCode fun i mem => ?_⟩
  have pushes : ∀ i ∈ (f :: args).map (fun v => Instruction.mk .push (.value v)),
      i.operand.Ordinary n := by
    intro i mem
    obtain ⟨v, given, rfl⟩ := List.mem_map.1 mem
    exact (List.forall_mem_cons.2 ⟨hf, ha⟩ v given : v.Ordinary n).stacked
  simp only [invocation, List.mem_toArray, List.mem_append] at mem
  rcases mem with (push | receiving) | ending
  · exact pushes i push
  · cases receiver with
    | none => cases receiving
    | some v =>
      simp only [List.mem_cons, List.not_mem_nil, or_false] at receiving
      rcases receiving with rfl | rfl
      · exact (hr v rfl).stacked
      · trivial
  · simp only [List.mem_cons, List.not_mem_nil, or_false] at ending
    rcases ending with rfl | rfl <;> trivial

/-- Inert operands are ordinary. -/
theorem Code.Inert.clear {code : Code} (h : code.Inert) : code.Clear n := by
  intro i mem
  have inert := h i mem
  cases operand : i.operand with
  | value v =>
    cases v with
    | error f => exact absurd operand (inert.errorless f)
    | struct r => exact absurd operand (inert.structless r)
    | tuple r => exact absurd operand (inert.tupleless r)
    | marker m => exact .inl rfl
    | _ => exact .inr trivial
  | _ => trivial

/-- Compiling a source into a clear store leaves it clear, gives clear code, and fails with no
signal. -/
theorem CompileM.into_clear {m : CompileM Code} {c : Compiler} {s : Store} (hs : s.Clear n)
    (loops : c.draft.loops = [])
    (leads : ∀ base units, Leads (Compiler.Idle base units) m fun code c =>
      code.Compiled base c.codes.size ∧ c.Idle base units) :
    (m.into c s).2.2.Clear n ∧ Except.Ordinary (m.into c s).1 ∧
      ∀ code, (m.into c s).1 = .ok code → code.Clear n := by
  have idle := Compiler.Unfailed.idle_of_loops (c := { c with codes := s.codes }) loops
  obtain ⟨⟨⟨more, inert, same⟩, ordinary⟩, reaches⟩ := leads _ _ _ idle
  have codes : (m { c with codes := s.codes }).2.codes = s.codes ++ more :=
    congrArg (fun r => r.2.codes) (same s.codes rfl)
  refine ⟨{ hs with codes := ?_ }, ordinary, fun code ok => ?_⟩
  · change ∀ code ∈ (m { c with codes := s.codes }).2.codes, code.Clear n
    rw [codes]
    exact fun code mem => (Array.mem_append.1 mem).elim (hs.codes code) fun new =>
      (inert code new).clear
  · exact (reaches code _ (Prod.ext ok rfl)).1.ready.inert.clear

theorem evaluation_clear (source : String) (table : TableRef) (w : World) {s : Store}
    (hs : s.Clear n) : (∀ c, (evaluation source table w s).1 = .ok c → c.Fresh n) ∧
      Except.Ordinary (evaluation source table w s).1 ∧
      (evaluation source table w s).2.Clear n ∧
      (evaluation source table w s).2.structs = s.structs := by
  have compiled := CompileM.into_clear (c := .new evaluationName w.settings) hs rfl
    fun _ _ => CompileM.compileExpression_leads source
  have same : ((CompileM.compileExpression source).into (.new evaluationName w.settings)
      s).2.2.structs = s.structs := rfl
  unfold evaluation
  rcases ran : (CompileM.compileExpression source).into (.new evaluationName w.settings) s with
    ⟨f | code, c, s'⟩ <;> rw [ran] at compiled same <;> obtain ⟨store, ordinary, clear⟩ := compiled
  · exact ⟨(fun _ ok => by cases ok), .error (ordinary f rfl), store, same⟩
  · refine ⟨?_, .ok _, store.newCode (clear code rfl), same⟩
    rintro _ ⟨⟩
    exact Context.new_fresh _ _ _ _

/-! ## Threads -/

/-- All that is sorted behind a return is ordinary. -/
def Resumption.Clear (n : Nat) : Resumption → Prop
  | .value => True
  | .comparison o => o.Clear n

theorem Resumption.Clear.mono {n' : Nat} {r : Resumption} (h : r.Clear n) (le : n ≤ n') :
    r.Clear n' := by
  cases r with
  | value => trivial
  | comparison o => exact Sorting.Clear.mono h le

/-- A context that waits, with ordinary values on its stacks. -/
structure Caller.Clear (n : Nat) (k : Caller) : Prop where
  context : k.context.Clear n
  resumption : k.resumption.Clear n
  state : k.context.state = .running

theorem Caller.Clear.mono {n' : Nat} {k : Caller} (h : k.Clear n) (le : n ≤ n') : k.Clear n' :=
  ⟨h.context.mono le, h.resumption.mono le, h.state⟩

/-- A caller without a debugger. -/
def Caller.bare (k : Caller) : Caller := { k with context := k.context.bare }

namespace Thread

variable {t : Thread} {d : Debugger} {w : World} {s : Store}

/-- The thread without a debugger. -/
def bare (t : Thread) : Thread :=
  { t with context := t.context.bare, callers := t.callers.map Caller.bare }

/-- The debuggers of the contexts of a thread, the innermost first. -/
def debuggers (t : Thread) : List Debugger := t.context.debugger :: t.callers.map (·.context.debugger)

/-- Every value in the thread is ordinary, and only its outermost context has a debugger. -/
structure Clear (n : Nat) (d : Debugger) (t : Thread) : Prop where
  context : t.context.Clear n
  callers : ∀ k ∈ t.callers, k.Clear n
  signal : t.signal.Ordinary n
  state : t.context.state = t.signal.state
  debuggers : t.debuggers = List.replicate t.callers.length ({} : Debugger) ++ [d]

theorem Clear.mono {n' : Nat} (h : t.Clear n d) (le : n ≤ n') : t.Clear n' d :=
  { h with
    context := h.context.mono le
    callers := fun k mem => (h.callers k mem).mono le
    signal := h.signal.mono le }

/-- From a store a thread has come somewhere, with all clear and structs linked where they may be,
and the thread without a debugger to the same place. -/
structure Twin (L : Links) (s : Store) (d : Debugger) (full bare : Thread × World × Store) :
    Prop where
  thread : full.1.Clear full.2.2.structs.size d
  world : full.2.1.Clear full.2.2.structs.size
  store : full.2.2.Clear full.2.2.structs.size
  kin : s.Kin L full.2.2
  bare : bare = (full.1.bare, full.2)

/-- What comes before is part of the way. -/
theorem Twin.after {s' : Store} {full bare : Thread × World × Store} (h : Twin L s' d full bare)
    (kin : s.Kin L s') : Twin L s d full bare := { h with kin := kin.trans h.kin }

theorem twin_of_context (h : t.Clear n d) {full bare : Signal × Context × World × Store}
    (came : Context.Twin L s t.context.debugger full bare) (le : n ≤ full.2.2.2.structs.size) :
    Twin L s d ({ t with context := full.2.1, signal := full.1 }, full.2.2)
      ({ t.bare with context := bare.2.1, signal := bare.1 }, bare.2.2) := by
  obtain ⟨context, world, store, kin, signal, debugger, state, rfl⟩ := came
  refine ⟨⟨context, fun k mem => (h.callers k mem).mono le, signal, state, ?_⟩, world, store, kin, rfl⟩
  rw [← h.debuggers, debuggers, debuggers, debugger]

/-! ### Results -/

section

variable (h : t.Clear n d) (hw : w.Clear n) (hs : s.Clear n) (running : t.context.state = .running)
  (call : PendingCall)
include h hw hs running

theorem deliver_twin {result : Except Fault Value} (given : Exec.Given n call result) :
    Twin L s d (t.deliver call result w s) (t.bare.deliver call result w s) := by
  obtain ⟨context, world, store, kin, -, ordinary, debugger, state, bare⟩ :=
    Exec.twin_of_calm (Exec.complete_calm (L := L) call given _ ⟨h.context, hw, hs⟩ hs.size)
  rcases ran : Exec.complete call result t.context w s with ⟨⟨⟨r, c'⟩, w'⟩, s'⟩
  rw [ran] at context world store kin ordinary debugger state bare
  dsimp only at context world store kin ordinary debugger state bare
  have outcome {t : Thread} {c' : Context} (ran : Exec.complete call result t.context w s =
      (((r, c'), w'), s')) : t.deliver call result w s =
        ({ t with
            context := (c'.settled w' s' (r.map fun _ => .goesOn)).2.1
            signal := (c'.settled w' s' (r.map fun _ => .goesOn)).1 },
          (c'.settled w' s' (r.map fun _ => .goesOn)).2.2) := by
    unfold deliver
    rw [ran]
    cases r <;> rfl
  rw [outcome ran, outcome (t := t.bare) bare]
  have settles := (Context.settled_twin (L := L) (r := r.map fun _ => .goesOn) context world store
    (by cases r <;> rintro _ ⟨⟩; trivial) (ordinary.map _) (state.trans running)).after kin
  rw [debugger] at settles
  exact twin_of_context h settles (hs.size ▸ settles.kin.size_le)

theorem enter_twin (resumption : Resumption) (hr : resumption.Clear n) {inner : Context}
    (fresh : inner.Fresh n) :
    Twin L s d (t.enter call resumption inner, w, s) (t.bare.enter call resumption inner, w, s) := by
  obtain rfl := hs.size
  refine ⟨⟨fresh.clear, ?_, trivial, fresh.state, ?_⟩, hw, hs, .refl s, ?_⟩
  · exact List.forall_mem_cons.2 ⟨⟨h.context, hr, running⟩, h.callers⟩
  · change inner.debugger :: t.debuggers = _
    rw [fresh.debugger, h.debuggers]
    rfl
  · simp only [enter, Thread.bare, fresh.bare, List.map_cons]
    rfl

theorem sort_twin {o : Sorting} (ho : o.Clear n) :
    Twin L s d (t.sort call o w s) (t.bare.sort call o w s) := by
  unfold sort
  split
  · exact (deliver_twin h hw (hs.newArray (a := { element := o.element, items := o.items }) ho.items)
      running call (.ok (v := .array _) trivial)).after (.of_same rfl)
  · next a b compared =>
    obtain ⟨ha, hb⟩ := ho.comparison? _ compared
    split
    · have both : ∀ v ∈ [a, b], v.Ordinary n := by simpa using And.intro ha hb
      obtain ⟨fresh, store⟩ :=
        Value.invoke_fresh ho.less both hs none (fun _ mem => by cases mem) o.scope w
      exact (enter_twin h hw store running call (.comparison o) ho fresh).after (.of_same rfl)
    · exact deliver_twin h hw hs running call (.error (.of_kind rfl nofun))

theorem await_twin {wait : Wait} (answers : call.callee.Answers n (.wait wait)) :
    Twin L s d (t.await call wait w s) (t.bare.await call wait w s) := by
  unfold await
  split
  · next come =>
    obtain ⟨hv, store, kin⟩ := Wait.poll_clear (L := L) answers.ordinary hs _ come
    have le := hs.size ▸ kin.size_le
    exact (deliver_twin (h.mono le) (hw.mono le) store running call
      (.returned hv (answers.prompt wait rfl))).after kin
  · obtain rfl := hs.size
    exact ⟨{ h with signal := answers, state := running }, hw, hs, .refl s, rfl⟩

theorem serve_twin {answer : Answer} (ha : call.callee.Answers n answer) :
    Twin L s d (t.serve call answer w s) (t.bare.serve call answer w s) := by
  cases answer with
  | value v => exact deliver_twin h hw hs running call (.ok ha.ordinary)
  | wait wait => exact await_twin h hw hs running call ha
  | sort o => exact sort_twin h hw hs running call ha.ordinary
  | evaluate source =>
    obtain ⟨fresh, ordinary, store, same⟩ := evaluation_clear source t.context.scope w hs
    unfold serve
    dsimp only
    rw [show t.bare.context.scope = t.context.scope from rfl]
    rcases ran : evaluation source t.context.scope w s with ⟨f | inner, s'⟩ <;>
      rw [ran] at fresh ordinary store same
    · exact (deliver_twin h hw store running call (.error (ordinary f rfl))).after (.of_same same)
    · exact (enter_twin h hw store running call .value trivial (fresh inner rfl)).after (.of_same same)

end

theorem result_ordinary {c : Context} (hc : c.Clear n) : c.result.Ordinary n := by
  unfold Context.result
  split
  · trivial
  · trivial
  · next v some last =>
    refine (hc.stack v (Array.mem_of_back? last)).ordinary fun marker => ?_
    cases v with
    | marker m => exact some m rfl
    | _ => cases marker

theorem results_calm {c : Context} (hc : c.Clear n) : Calm L n (fun _ _ => True) c.results := by
  refine .ite (StoreM.tuple_calm fun v mem => ?_) (.pure trivial)
  exact hc.stack v (Array.mem_toList_iff.1 (List.mem_reverse.1 ((List.takeWhile_sublist _).mem mem)))

theorem leave_twin (h : t.Clear n d) (hw : w.Clear n) (hs : s.Clear n) {caller : Caller}
    {callers : List Caller} (behind : t.callers = caller :: callers) {result : Except Fault Unit}
    (hr : Except.Ordinary result) :
    Twin L s d (t.leave caller callers result w s)
      (t.bare.leave caller.bare (callers.map Caller.bare) result w s) := by
  have clear := h.callers
  have debuggers := h.debuggers
  rw [behind] at clear
  obtain ⟨first, rest⟩ := List.forall_mem_cons.1 clear
  rw [Thread.debuggers, behind] at debuggers
  have outer : ({ context := caller.context, callers := callers } : Thread).Clear n d :=
    ⟨first.context, rest, trivial, first.state, (List.cons.inj debuggers).2⟩
  unfold leave
  dsimp only
  cases result with
  | error f => exact deliver_twin outer hw hs first.state caller.call (.error (hr f rfl))
  | ok u =>
    dsimp only [Caller.bare]
    cases resumption : caller.resumption with
    | value =>
      exact deliver_twin outer hw hs first.state caller.call (.ok (result_ordinary h.context))
    | comparison o =>
      have ho : o.Clear n := by
        have clear := first.resumption
        rwa [resumption] at clear
      obtain ⟨store, kin, value, ordinary, -⟩ := results_calm (L := L) h.context s hs hs.size
      change (t.context.results s).2.Clear _ at store
      simp only [Stateful.run, Stateful.store] at store kin value ordinary
      rw [show t.bare.context.results s = t.context.results s from rfl]
      dsimp only
      rcases ran : t.context.results s with ⟨f | v, s'⟩ <;> rw [ran] at store kin value ordinary
      · have le := hs.size ▸ kin.size_le
        exact (deliver_twin (outer.mono le) (hw.mono le) store first.state caller.call
          (.error (ordinary f rfl))).after kin
      · have le := hs.size ▸ kin.size_le
        exact (sort_twin (outer.mono le) (hw.mono le) store first.state caller.call
          ((ho.mono le).compared _)).after kin

/-! ### Turns -/

/-- One turn: a step of the context, what a builtin asks for, the return from an inner context, or
another look at what is waited for. -/
def turn (t : Thread) (w : World) (s : Store) : Thread × World × Store :=
  match t.signal with
  | .blocked call wait => t.await call wait w s
  | _ => advance 1 1 t w s

theorem turn_runs (runs : t.signal = .runs) (w : World) (s : Store) : t.turn w s =
    ({ t with context := (t.context.move w s).2.1, signal := (t.context.move w s).1 },
      (t.context.move w s).2.2) := by
  simp [turn, advance, runs, Context.move]

theorem turn_asks {call : PendingCall} {answer : Answer} (asks : t.signal = .asks call answer)
    (w : World) (s : Store) : t.turn w s = t.serve call answer w s := by
  simp [turn, advance, asks]

theorem turn_blocked {call : PendingCall} {wait : Wait} (blocked : t.signal = .blocked call wait)
    (w : World) (s : Store) : t.turn w s = t.await call wait w s := by
  simp [turn, blocked]

theorem turn_ended {result : Except Fault Unit} {caller : Caller} {callers : List Caller}
    (ended : t.signal = .ended result) (behind : t.callers = caller :: callers) (w : World) (s : Store) :
    t.turn w s = t.leave caller callers result w s := by
  simp [turn, advance, ended, behind]

theorem turn_over {result : Except Fault Unit} (ended : t.signal = .ended result)
    (alone : t.callers = []) (w : World) (s : Store) : t.turn w s = (t, w, s) := by
  simp [turn, advance, ended, alone]

/-- What a turn links, if it is a step that stores under an index. -/
def Relinks (t : Thread) (s : Store) : Links := fun r parent =>
  t.signal = .runs ∧ t.context.Relinks s r parent

/-- A turn at which the debugger does not stop. -/
theorem turn_twin (h : t.Clear n d) (hw : w.Clear n) (hs : s.Clear n)
    (goes : t.signal = .runs → ¬t.context.Stops s) :
    Twin (t.Relinks s) s d (t.turn w s) (t.bare.turn w s) := by
  have state := h.state
  have ordinary := h.signal
  cases signal : t.signal with
  | runs =>
    rw [signal] at state
    rw [turn_runs signal, turn_runs (t := t.bare) signal]
    have moves := Context.move_twin h.context hw hs state (goes signal)
    have links := moves.kin.imp fun r parent links => And.intro signal links
    exact twin_of_context h { moves with kin := links } (hs.size ▸ moves.kin.size_le)
  | blocked call wait =>
    rw [signal] at state ordinary
    rw [turn_blocked signal, turn_blocked (t := t.bare) signal]
    exact await_twin h hw hs state call ordinary
  | asks call answer =>
    rw [signal] at state ordinary
    rw [turn_asks signal, turn_asks (t := t.bare) signal]
    exact serve_twin h hw hs state call ordinary
  | ended result =>
    rw [signal] at ordinary
    cases behind : t.callers with
    | nil =>
      rw [turn_over signal behind, turn_over (t := t.bare) signal (by simp [bare, behind])]
      obtain rfl := hs.size
      exact ⟨h, hw, hs, .refl s, rfl⟩
    | cons caller callers =>
      have behind' : t.bare.callers = caller.bare :: callers.map Caller.bare := by simp [bare, behind]
      rw [turn_ended signal behind, turn_ended (t := t.bare) signal behind']
      exact leave_twin h hw hs behind ordinary

/-- A turn at which the debugger stops: no call of a builtin is open, and the thread without a
debugger goes on behind the line. -/
theorem turn_stops (h : t.Clear n d) (runs : t.signal = .runs) (stops : t.context.Stops s) :
    t.callers = [] ∧ d.isActive = true ∧ ∃ (f : Fault) (c : Context),
      f.kind = .debuggerSignal ∧ c.Clear n ∧ c.state = .running ∧ c.debugger = d ∧
      t.turn w s = ({ context := { c with state := .suspended }, signal := .ended (.error f) }, w, s) ∧
      t.bare.turn w s = ({ context := c.bare }, w, s) := by
  have debuggers := h.debuggers
  cases behind : t.callers with
  | cons caller callers =>
    rw [behind, Thread.debuggers] at debuggers
    exact absurd stops (Context.not_stops (List.cons.inj debuggers).1 s)
  | nil =>
    rw [behind, Thread.debuggers, behind] at debuggers
    have own : t.context.debugger = d := (List.cons.inj debuggers).1
    have state := h.state
    rw [runs] at state
    have active : d.isActive = true := by
      obtain ⟨i, -, -, there⟩ := stops
      rw [own] at there
      simp only [Debugger.stopsAt, Bool.or_eq_true] at there
      simp only [Debugger.isActive, Bool.or_eq_true]
      refine there.imp_right fun contains => ?_
      cases points : d.breakpoints with
      | nil => rw [points] at contains; cases contains
      | cons _ _ => rfl
    obtain ⟨line, f, kind, full, bare⟩ := Context.move_stops (w := w) stops
    refine ⟨rfl, active, f, { t.context with pc := t.context.pc + 1, line := line }, kind,
      { h.context with }, state, own, ?_, ?_⟩
    · rw [turn_runs runs, full, behind]
    · rw [turn_runs (t := t.bare) runs]
      rw [show t.bare.context.move w s = _ from bare]
      simp [Thread.bare, behind, Context.bare]

end Thread

/-!
## Shadows of threads

Beside a thread goes its shadow: the same thread without a debugger, which reads the same times from
the clock. At every moment the two stand at the same place, with the same world and the same store.
When the debugger pauses the thread, the shadow goes on.

Main statements: `Thread.slice_turns` (what a thread does at once is made of turns), `Follows.turn`
(a turn keeps the shadow) and `Follows.runBeside` (a run does).
-/

/-! ## A thread by itself -/

/-- What happens to a thread by itself: it makes a turn, or the clock is set. -/
inductive Event where
  | turn
  | clock (time : Int)
deriving DecidableEq

/-- Where a thread, the world and the store are after some events. -/
def Thread.after : List Event → Thread × World × Store → Thread × World × Store
  | [], x => x
  | .turn :: rest, (t, w, s) => after rest (t.turn w s)
  | .clock time :: rest, (t, w, s) => after rest (t, { w with clock := time }, s)

theorem Thread.after_append (events more : List Event) (x : Thread × World × Store) :
    after (events ++ more) x = after more (after events x) := by
  induction events generalizing x with
  | nil => rfl
  | cons event rest ih =>
    obtain ⟨t, w, s⟩ := x
    cases event <;> exact ih _

/-- What turns and times keep holds after every event. -/
theorem Thread.after_keeps {I : Thread × World × Store → Prop}
    (turn : ∀ t w s, I (t, w, s) → I (t.turn w s))
    (clock : ∀ t w s time, I (t, w, s) → I (t, { w with clock := time }, s)) (events : List Event)
    {x : Thread × World × Store} (h : I x) : I (after events x) := by
  induction events generalizing x with
  | nil => exact h
  | cons event rest ih =>
    obtain ⟨t, w, s⟩ := x
    cases event with
    | turn => exact ih (turn t w s h)
    | clock time => exact ih (clock t w s time h)

/-! ## Turns -/

namespace Thread

/-- A thread makes one turn. -/
def Turned (x y : Thread × World × Store) : Prop := x.1.turn x.2.1 x.2.2 = y

open Relation (ReflTransGen)

variable (t : Thread) (w : World) (s : Store)

/-- A context that runs for some steps makes as many turns. -/
theorem run_turns {t : Thread} (runs : t.signal = .runs) (steps : Nat) (w : World) (s : Store) :
    ReflTransGen Turned (t, w, s) ({ t with
      context := (t.context.run steps w s).2.2.1
      signal := (t.context.run steps w s).1 }, (t.context.run steps w s).2.2.2) := by
  induction steps generalizing t w s with
  | zero =>
    rw [Context.run, ← runs]
  | succ steps ih =>
    have next : Turned (t, w, s) _ := turn_runs runs w s
    rw [Context.run_succ]
    rcases moved : t.context.move w s with ⟨signal, c, w', s'⟩
    rw [moved] at next
    cases signal with
    | runs => exact .head next (ih rfl w' s')
    | _ => exact .single next

theorem advance_turns (turns steps : Nat) :
    ReflTransGen Turned (t, w, s) (advance turns steps t w s) := by
  induction turns generalizing t w s steps with
  | zero => exact .refl
  | succ turns ih =>
    unfold advance
    split
    · exact .refl
    · next runs =>
      split
      · exact .refl
      · exact (run_turns runs steps w s).trans (ih _ _ _ _)
    · next asks => exact .head (turn_asks asks w s) (ih _ _ _ _)
    · next ended =>
      split
      · exact .refl
      · next behind => exact .head (turn_ended ended behind w s) (ih _ _ _ _)

/-- A thread that waits for what has come goes on in one turn. -/
theorem turned_of_poll {t : Thread} {call : PendingCall} {wait : Wait} {v : Value} {w : World}
    {s s' : Store} (blocked : t.signal = .blocked call wait) (come : wait.poll w s = some (v, s')) :
    Turned (t, w, s) (t.deliver call (.ok v) w s') := by
  unfold Turned
  rw [turn_blocked blocked, await, come]

theorem slice_turns : ReflTransGen Turned (t, w, s) (t.slice w s).2 := by
  unfold slice
  split
  · next call wait blocked =>
    split
    · exact .refl
    · next v s' come => exact .head (turned_of_poll blocked come) (advance_turns _ _ _ _ _)
  · exact advance_turns _ _ _ _ _

end Thread

/-! ## Shadows -/

/-- A thread and its shadow, which has come from the start to where the thread is: while the thread
goes on the shadow is the thread without its debugger; where the debugger has paused it, after more
turns than were counted, the shadow goes on. -/
inductive Follows (start : Thread × World × Store) (d : Debugger) (count : Nat) :
    Thread × World × Store → Prop
  | going {t : Thread} {w : World} {s : Store} (events : List Event)
      (clear : t.Clear s.structs.size d) (world : w.Clear s.structs.size)
      (store : s.Clear s.structs.size) (enough : count ≤ events.count .turn)
      (shadow : Thread.after events start = (t.bare, w, s)) : Follows start d count (t, w, s)
  | paused {c : Context} {f : Fault} {w : World} {s : Store} (events : List Event)
      (clear : c.Clear s.structs.size) (world : w.Clear s.structs.size)
      (store : s.Clear s.structs.size) (state : c.state = .running) (own : c.debugger = d)
      (active : d.isActive = true) (enough : count < events.count .turn)
      (shadow : Thread.after events start = ({ context := c.bare }, w, s)) :
      Follows start d count
        ({ context := { c with state := .suspended }, signal := .ended (.error f) }, w, s)

namespace Follows

variable {start : Thread × World × Store} {d : Debugger} {count : Nat} {t : Thread} {w : World}
  {s : Store}

theorem turn (h : Follows start d count (t, w, s)) : Follows start d count (t.turn w s) := by
  cases h with
  | going events clear world store enough shadow =>
    have more : Thread.after (events ++ [.turn]) start = t.bare.turn w s := by
      rw [Thread.after_append, shadow]
      rfl
    have counted : (events ++ [Event.turn]).count .turn = events.count .turn + 1 := by
      simp [List.count_append]
    by_cases stops : t.signal = .runs ∧ t.context.Stops s
    · obtain ⟨-, active, f, c, -, hc, state, own, full, bare⟩ :=
        Thread.turn_stops (w := w) clear stops.1 stops.2
      rw [full]
      exact .paused (events ++ [.turn]) hc world store state own active (by omega) (more.trans bare)
    · obtain ⟨clear', world', store', -, bare⟩ :=
        Thread.turn_twin clear world store fun runs stop => stops ⟨runs, stop⟩
      exact .going (events ++ [.turn]) clear' world' store' (by omega) (more.trans bare)
  | paused events clear world store state own active enough shadow =>
    rw [Thread.turn_over rfl rfl]
    exact .paused events clear world store state own active enough shadow

/-- The clock makes no difference between a thread and its shadow. -/
theorem clock (h : Follows start d count (t, w, s)) (time : Int) :
    Follows start d count (t, { w with clock := time }, s) := by
  have set {events : List Event} {p : Thread} (shadow : Thread.after events start = (p, w, s)) :
      Thread.after (events ++ [.clock time]) start = (p, { w with clock := time }, s) := by
    rw [Thread.after_append, shadow]
    rfl
  have counted (events : List Event) :
      (events ++ [Event.clock time]).count .turn = events.count .turn := by simp [List.count_append]
  cases h with
  | going events clear world store enough shadow =>
    exact .going _ clear world store (by rw [counted]; exact enough) (set shadow)
  | paused events clear world store state own active enough shadow =>
    exact .paused _ clear world store state own active (by rw [counted]; exact enough) (set shadow)

theorem turns {x y : Thread × World × Store} (h : Follows start d count x)
    (made : Relation.ReflTransGen Thread.Turned x y) : Follows start d count y := by
  induction made with
  | refl => exact h
  | tail _ turned ih => exact turned ▸ ih.turn

variable (alone : ∀ events, (Thread.after events start).2.1.launched = [])
include alone

theorem launched (h : Follows start d count (t, w, s)) : w.launched = [] := by
  cases h with
  | going events _ _ _ _ shadow => simpa [shadow] using alone events
  | paused events _ _ _ _ _ _ _ shadow => simpa [shadow] using alone events

/-- Alone on the machine a thread runs to its end, or until the machine gives it up. -/
theorem runBeside (rounds : Nat) (h : Follows start d count (t, w, s)) (goesOn : t.outcome? = none)
    {result : Except Fault Unit} {c : Context} {ts : List Thread} {w' : World} {s' : Store}
    (ran : Machine.runBeside rounds t [] w s = (result, c, ts, w', s')) :
    ts = [] ∧ ∃ t', Follows start d count (t', w', s') ∧ t'.context = c ∧
      (t'.outcome? = some result ∨ t'.outcome? = none ∧ result = .error (.of .limitReached)) := by
  induction rounds generalizing t w s with
  | zero =>
    cases ran
    exact ⟨rfl, t, h, rfl, .inr ⟨goesOn, rfl⟩⟩
  | succ rounds ih =>
    have next := h.turns (Thread.slice_turns t w s)
    unfold Machine.runBeside at ran
    rcases sliced : t.slice w s with ⟨moved, t', w₁, s₁⟩
    rw [sliced] at ran next
    have quiet := next.launched alone
    simp only [Machine.launch_none [] quiet, Machine.sliceAll] at ran
    split at ran
    · next outcome =>
      cases ran
      exact ⟨rfl, t', next, rfl, .inl outcome⟩
    · next outcome =>
      split at ran
      · next ticked =>
        unfold Machine.tick at ticked
        split at ticked
        · cases ticked
          exact ih (next.clock _) outcome ran
        · obtain ⟨time, -, rfl⟩ := Option.map_eq_some_iff.1 ticked
          exact ih (next.clock _) outcome ran
      · cases ran
        exact ⟨rfl, t', next, rfl, .inr ⟨outcome, rfl⟩⟩

end Follows

end StackScript
