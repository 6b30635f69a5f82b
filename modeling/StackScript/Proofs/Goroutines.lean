import StackScript.Proofs.Constants.Runs

/-!
# Goroutines are joined

A program's own thread runs its statements and its main function, and then waits until the count of
goroutines is none. Its goroutines start, run, launch others and end, in any order, and whoever is
next makes as many turns as it likes. At every moment the count is the number of goroutines that
were launched and have not ended, and the program returns only when all of them have. A goroutine
whose call has broken down never ends, so a program that has launched it does not return: a machine
gives such a run up, when nothing can move any more or after `roundLimit` rounds, each of which
moves the clock on.

Main statements: `Process.Counts.move` (what one move keeps), `Process.Halted.stuck` (a process in
which nothing can move never returns), `Machine.runProgram_moves` (what a machine does is such a
run) and `Machine.program_joins`.
-/
namespace StackScript

open Machine (Carried Turn)

/-! ## Threads -/

/-- Whatever a thread does, it launches functions only, and each of them counts. -/
theorem Machine.launches_carried : Carried fun a b => a.1.Launches b.1 where
  refl a := .refl a.1
  trans := .trans
  step c w _ := (@Exec.step_holds (fun _ => False) c w _ (.inr fun _ => id)).1
  handle _ _ w _ := .refl w
  complete call result c w s :=
    ((@Exec.holding_rules fun _ => False).complete call result (c, w, s)).1
  poll _ := .refl _
  invoke _ _ _ _ w _ := .refl w
  evaluate _ _ w _ := .refl w
  results _ w _ := .refl w
  sorted _ w _ := .refl w

namespace Thread

/-- What a thread can do at once: go on for a while, or wake up. -/
inductive Move : Thread × World × Store → Thread × World × Store → Prop
  | advance (turns steps : Nat) (t : Thread) (w : World) (s : Store) :
    Move (t, w, s) (advance turns steps t w s)
  | wake {t : Thread} {call : PendingCall} {wait : Wait} {v : Value} {w : World} {s s' : Store}
    (blocked : t.signal = .blocked call wait) (come : wait.poll w s = some (v, s')) :
    Move (t, w, s) (t.deliver call (.ok v) w s')

theorem Move.launches {a b : Thread × World × Store} (m : Move a b) : a.2.1.Launches b.2.1 := by
  cases m with
  | advance turns steps t w s => exact Machine.launches_carried.advance w s t turns steps
  | @wake t call wait v w s s' _ come => exact Machine.launches_carried.deliver w s' t call (.ok v)

/-- The share of a thread is made of its moves. -/
theorem slice_moves (t : Thread) (w : World) (s : Store) :
    Relation.ReflTransGen Move (t, w, s) (t.slice w s).2 := by
  unfold slice
  split
  · rename_i blocked
    split
    · exact .refl
    · rename_i come
      have woken := Move.wake blocked come
      generalize t.deliver _ _ w _ = delivered at woken ⊢
      obtain ⟨t', w', s'⟩ := delivered
      exact .tail (.single woken) (.advance share share t' w' s')
  · exact .single (.advance _ _ _ _ _)

/-- A thread that waits for what has not come. -/
def Waits (t : Thread) (w : World) (s : Store) : Prop :=
  ∃ call wait, t.signal = .blocked call wait ∧ wait.poll w s = none

/-- A thread that waits for what has not come and no clock brings. -/
def Halted (t : Thread) (w : World) (s : Store) : Prop :=
  ∃ call wait, t.signal = .blocked call wait ∧ wait.poll w s = none ∧ wait.time? = none

variable {t : Thread} {w : World} {s : Store}

theorem Waits.outcome? (h : t.Waits w s) : t.outcome? = none := by
  obtain ⟨call, wait, blocked, -⟩ := h
  simp [Thread.outcome?, blocked]

theorem Halted.waits (h : t.Halted w s) : t.Waits w s := by
  obtain ⟨call, wait, blocked, come, -⟩ := h
  exact ⟨call, wait, blocked, come⟩

theorem Halted.clock (h : t.Halted w s) (time : Int) : t.Halted { w with clock := time } s := by
  obtain ⟨call, wait, blocked, come, timeless⟩ := h
  refine ⟨call, wait, blocked, ?_, timeless⟩
  cases wait with
  | clock => cases timeless
  | _ => exact come

/-- A thread that waits makes no use of its turns. -/
theorem Waits.move {b : Thread × World × Store} (h : t.Waits w s) (m : Move (t, w, s) b) :
    b = (t, w, s) := by
  obtain ⟨call, wait, blocked, come⟩ := h
  cases m with
  | advance turns steps =>
    cases turns with
    | zero => rfl
    | succ => simp [advance, blocked]
  | wake also here =>
    rw [blocked] at also
    cases also
    rw [come] at here
    cases here

/-- A thread whose call has broken down. -/
def Broken (t : Thread) : Prop := ∃ call, t.signal = .blocked call .never

theorem Broken.waits (h : t.Broken) (w : World) (s : Store) : t.Waits w s := by
  obtain ⟨call, blocked⟩ := h
  exact ⟨call, .never, blocked, rfl⟩

/-- A thread that makes no use of its share waits. -/
theorem slice_waits (still : (t.slice w s).1 = false) :
    (t.slice w s).2 = (t, w, s) ∧ t.Waits w s := by
  cases signal : t.signal with
  | blocked call wait =>
    cases come : wait.poll w s with
    | none => exact ⟨by simp [slice, signal, come], call, wait, signal, come⟩
    | some => simp [slice, signal, come] at still
  | _ => simp [slice, signal] at still

end Thread

namespace Machine

variable {ts : List Thread} {w w' : World} {s : Store} {moved : Bool}

/-- When no thread has made use of its share, all of them wait. -/
theorem sliceAll_waits (still : (sliceAll ts w s).1 = false) :
    (sliceAll ts w s).2 = (ts, w, s) ∧ ∀ t ∈ ts, t.Waits w s := by
  induction ts with
  | nil => exact ⟨rfl, by simp⟩
  | cons t rest ih =>
    unfold sliceAll at still ⊢
    have own := @Thread.slice_waits t w s
    generalize t.slice w s = sliced at own still ⊢
    obtain ⟨moved, t', w', s'⟩ := sliced
    cases moved with
    | true =>
      dsimp only at still
      split at still <;> simp at still
    | false =>
      obtain ⟨same, waits⟩ := own rfl
      cases same
      simp only [waits.outcome?, Option.isSome_none, Bool.false_eq_true, if_false,
        Bool.false_or] at still ⊢
      obtain ⟨same, others⟩ := ih still
      exact ⟨by simp [same], List.forall_mem_cons.2 ⟨waits, others⟩⟩

/-- What a waiting thread waits for by the clock is yet to come. -/
theorem lt_alarm {time : Int} (mem : time ∈ alarms ts) (waits : ∀ t ∈ ts, t.Waits w s) :
    w.clock < time := by
  obtain ⟨t, mem, alarm⟩ := List.mem_filterMap.1 mem
  obtain ⟨call, wait, blocked, come⟩ := waits t mem
  rw [blocked] at alarm
  cases wait with
  | clock =>
    cases alarm
    by_contra past
    simp [Wait.poll, Int.not_lt.1 past] at come
  | _ => cases alarm

/-- With every round the clock goes on. -/
theorem tick_later (ticked : tick moved ts w = some w')
    (waits : moved = false → ∀ t ∈ ts, t.Waits w s) :
    w.clock + 1 ≤ w'.clock ∧ w' = { w with clock := w'.clock } := by
  unfold tick at ticked
  cases moved with
  | true =>
    cases ticked
    exact ⟨Int.le_refl _, rfl⟩
  | false =>
    obtain ⟨time, least, rfl⟩ := Option.map_eq_some_iff.1 ticked
    have later := lt_alarm (List.min?_mem least) (waits rfl)
    exact ⟨by simp only; omega, rfl⟩

/-- When there is no next round, no clock brings what the threads wait for. -/
theorem halted_of_tick (ticked : tick moved ts w = none)
    (waits : moved = false → ∀ t ∈ ts, t.Waits w s) : moved = false ∧ ∀ t ∈ ts, t.Halted w s := by
  unfold tick at ticked
  cases moved with
  | true => cases ticked
  | false =>
    refine ⟨rfl, fun t mem => ?_⟩
    obtain ⟨call, wait, blocked, come⟩ := waits rfl t mem
    refine ⟨call, wait, blocked, come, ?_⟩
    have none : alarms ts = [] := List.min?_eq_none_iff.1 (Option.map_eq_none_iff.1 ticked)
    have alone := List.filterMap_eq_nil_iff.1 none t mem
    rwa [blocked] at alone

end Machine

/-! ## Processes -/

/-- A goroutine that runs, and what it was launched as unless it ran before the program did. -/
structure Goroutine where
  launch? : Option Launch
  thread : Thread

/-- Where the run of a program stands. -/
inductive Phase where
  /-- Its statements run, or its main function does. -/
  | runs (inMain : Bool) (t : Thread)
  /-- It waits for the goroutines. -/
  | waits (result : Except Fault Unit)
  | returned (result : Except Fault Unit)

/-- What follows the statements and the main function of a program. -/
def Phase.after (callsMain : Bool) (table : TableRef) (inMain : Bool) (c : Context)
    (result : Except Fault Unit) (w : World) (s : Store) : Phase × Store :=
  match result with
  | .error f => (.waits (.error f), s)
  | .ok () =>
    if inMain then
      let (result, s) := c.results s
      (.waits (result.map fun _ => ()), s)
    else if !callsMain || w.hasExited then (.waits (.ok ()), s)
    else
      match table.get? s Machine.mainName false with
      | none => (.waits (.ok ()), s)
      | some f =>
        if f.isCallable then
          let (c, s) := f.invoke [] none table w s
          (.runs true { context := c.started }, s)
        else (.waits (.error (.about .invalidFunctionCall (f.typeName s))), s)

/-- A program waits before it returns. -/
theorem Phase.after_not_returned {callsMain : Bool} {table : TableRef} {inMain : Bool} {c : Context}
    {result : Except Fault Unit} {w : World} {s s' : Store} {phase : Phase}
    (follows : Phase.after callsMain table inMain c result w s = (phase, s'))
    (r : Except Fault Unit) : phase ≠ .returned r := by
  rintro rfl
  unfold after at follows
  repeat' split at follows
  all_goals cases follows

/-- A program that runs with its goroutines. -/
structure Process where
  phase : Phase
  world : World
  store : Store
  running : List Goroutine
  /-- Goroutines that have ended, with what became of them. -/
  finished : List (Option Launch × Except Fault Unit) := []
  /-- What was launched, the first one first. -/
  launches : List Launch := []

/-- A program that a machine is about to run. -/
def Machine.process (m : Machine) (code : Code) : Process :=
  let (table, m) := m.newMainTable
  let (c, m) := m.context code table
  { phase := .runs false { context := c.started }
    world := m.world
    store := m.store
    running := m.goroutines.map (⟨none, ·⟩)
    launches := m.world.launched }

namespace Process

/-- A thread of the process has moved. -/
def moved (p : Process) (w : World) (s : Store) : Process :=
  { p with
    world := w
    store := s
    launches := p.launches ++ w.launched.drop p.world.launched.length }

/-- What the threads of a process can do. -/
inductive Move (callsMain : Bool) (table : TableRef) : Process → Process → Prop
  /-- The program's own thread moves. -/
  | own {p : Process} {inMain : Bool} {t t' : Thread} {w : World} {s : Store}
    (here : p.phase = .runs inMain t) (moves : Thread.Move (t, p.world, p.store) (t', w, s)) :
    Move callsMain table p { p.moved w s with phase := .runs inMain t' }
  /-- The program's own thread has run the statements or the main function to the end. -/
  | next {p : Process} {inMain : Bool} {t : Thread} {result : Except Fault Unit}
    {phase : Phase} {s : Store} (here : p.phase = .runs inMain t)
    (ended : t.outcome? = some result)
    (follows : Phase.after callsMain table inMain t.context result p.world p.store = (phase, s)) :
    Move callsMain table p { p with phase := phase, store := s }
  /-- The program has nothing to wait for. -/
  | join {p : Process} {result : Except Fault Unit} (here : p.phase = .waits result)
    (none : ¬0 < p.world.active) : Move callsMain table p { p with phase := .returned result }
  /-- One of the functions that were launched is started. -/
  | start {p : Process} {l : Launch} {c : Context} {s : Store} (before after : List Launch)
    (here : p.world.launched = before ++ l :: after)
    (invoked : l.callee.invoke l.args l.receiver p.world.root p.world p.store = (c, s)) :
    Move callsMain table p { p with
      world := { p.world with launched := before ++ after }
      store := s
      running := p.running ++ [⟨some l, { context := c }⟩] }
  /-- One of the goroutines moves. -/
  | beside {p : Process} {g : Goroutine} {t : Thread} {w : World} {s : Store}
    (before after : List Goroutine) (here : p.running = before ++ g :: after)
    (moves : Thread.Move (g.thread, p.world, p.store) (t, w, s)) :
    Move callsMain table p
      { p.moved w s with running := before ++ { g with thread := t } :: after }
  /-- One of the goroutines has ended. -/
  | finish {p : Process} {g : Goroutine} {result : Except Fault Unit}
    (before after : List Goroutine) (here : p.running = before ++ g :: after)
    (ended : g.thread.outcome? = some result) :
    Move callsMain table p { p with
      world := p.world.done
      running := before ++ after
      finished := p.finished ++ [(g.launch?, result)] }
  | clock {p : Process} (time : Int) :
    Move callsMain table p { p with world := { p.world with clock := time } }

/-! ## The count -/

/-- The count is right, nothing that was launched is lost, and a program that has returned has
nothing to wait for. -/
structure Counts (p : Process) : Prop where
  active : p.world.active = p.running.length + p.world.launched.length
  launches : (p.finished.filterMap Prod.fst ++ (p.running.filterMap Goroutine.launch? ++
    p.world.launched)).Perm p.launches
  joined : ∀ {result}, p.phase = .returned result → ¬0 < p.world.active

variable {callsMain : Bool} {table : TableRef} {p q : Process}

/-- A process that has returned has no goroutine and nothing to start. -/
theorem Counts.none {result : Except Fault Unit} (h : p.Counts)
    (returned : p.phase = .returned result) : p.running = [] ∧ p.world.launched = [] := by
  have active := h.active
  have joined := h.joined returned
  exact ⟨List.length_eq_zero_iff.1 (by omega), List.length_eq_zero_iff.1 (by omega)⟩

/-- A process with a goroutine or something to start has not returned. -/
theorem Counts.not_returned (h : p.Counts) (some : p.running ≠ [] ∨ p.world.launched ≠ [])
    (result : Except Fault Unit) : p.phase ≠ .returned result := by
  intro returned
  obtain ⟨running, launched⟩ := h.none returned
  exact some.elim (· running) (· launched)

/-- What a thread launches is counted and noted down. -/
theorem Counts.moved (h : p.Counts) {w : World} (launches : p.world.Launches w) (s : Store)
    {phase : Phase} (still : ∀ result, phase ≠ .returned result) {gs : List Goroutine}
    (same : gs.map Goroutine.launch? = p.running.map Goroutine.launch?) :
    Counts { p.moved w s with phase := phase, running := gs } := by
  obtain ⟨-, -, more, launched, active⟩ := launches
  have many : gs.length = p.running.length := by simpa using congrArg List.length same
  have known : gs.filterMap Goroutine.launch? = p.running.filterMap Goroutine.launch? := by
    simpa [List.filterMap_map, Function.comp_def] using congrArg (List.filterMap id) same
  refine ⟨?_, ?_, fun back => absurd back (still _)⟩
  · simp only [Process.moved, launched, active, h.active, List.length_append, many]
    omega
  · simp only [Process.moved, launched, List.drop_left, known]
    simpa using h.launches.append_right more

theorem Counts.move (h : p.Counts) (m : Move callsMain table p q) : q.Counts := by
  cases m with
  | own here moves => exact h.moved moves.launches _ (fun _ back => by cases back) rfl
  | next here ended follows =>
    exact ⟨h.active, h.launches, fun back => absurd back (Phase.after_not_returned follows _)⟩
  | join here none => exact ⟨h.active, h.launches, fun _ => none⟩
  | @start l c s before after here invoked =>
    have still := h.not_returned (.inr (by simp [here]))
    refine ⟨?_, ?_, fun back => absurd back (still _)⟩
    · simp only [h.active, here, List.length_append, List.length_cons, List.length_nil]
      omega
    · refine List.Perm.trans (List.Perm.append_left _ ?_) h.launches
      simp only [here, List.filterMap_append, List.filterMap_cons, List.filterMap_nil,
        List.append_assoc, List.singleton_append]
      exact List.perm_middle.symm.append_left _
  | @beside g t w s before after here moves =>
    have still := h.not_returned (.inl (by simp [here]))
    exact h.moved moves.launches _ still (by simp [here])
  | @finish g result before after here ended =>
    have still := h.not_returned (.inl (by simp [here]))
    have active := h.active
    simp only [here, List.length_append, List.length_cons] at active
    refine ⟨?_, ?_, fun back => absurd back (still _)⟩
    · have positive : ¬p.world.active + -1 < 0 := by omega
      simp only [World.done, counted?, positive, if_false, Option.getD_some, List.length_append]
      omega
    · refine List.Perm.trans ?_ h.launches
      have launched : p.world.done.launched = p.world.launched := rfl
      cases known : g.launch? with
      | none => simp [here, launched, known]
      | some l =>
        simp only [here, launched, known, List.filterMap_append, List.filterMap_cons,
          List.filterMap_nil, List.append_assoc, List.singleton_append]
        exact List.perm_middle.symm.append_left _
  | clock time => exact ⟨h.active, h.launches, h.joined⟩

theorem Counts.moves (h : p.Counts) (run : Relation.ReflTransGen (Move callsMain table) p q) :
    q.Counts := by
  induction run with
  | refl => exact h
  | tail _ m ih => exact ih.move m

/-! ## Processes that cannot go on -/

/-- A process that never returns, whatever its threads do. -/
def Stuck (callsMain : Bool) (table : TableRef) (p : Process) : Prop :=
  ∀ {q}, Relation.ReflTransGen (Move callsMain table) p q → ∀ result, q.phase ≠ .returned result

/-- A process that has not returned and in which nothing can move but the clock. -/
structure Halted (p : Process) : Prop where
  own : ∀ {inMain t}, p.phase = .runs inMain t → t.Halted p.world p.store
  waits : ∀ {result}, p.phase = .waits result → 0 < p.world.active
  going : ∀ result, p.phase ≠ .returned result
  beside : ∀ g ∈ p.running, g.thread.Halted p.world p.store
  launched : p.world.launched = []

theorem Halted.clock (h : p.Halted) (time : Int) :
    Halted { p with world := { p.world with clock := time } } where
  own here := (h.own here).clock time
  waits := h.waits
  going := h.going
  beside g mem := (h.beside g mem).clock time
  launched := h.launched

theorem Halted.move (h : p.Halted) (m : Move callsMain table p q) : q.Halted := by
  cases m with
  | own here moves =>
    cases (h.own here).waits.move moves
    refine ⟨fun same => ?_, fun same => (by cases same), fun _ same => (by cases same), h.beside,
      h.launched⟩
    cases same
    exact h.own here
  | next here ended =>
    rw [(h.own here).waits.outcome?] at ended
    cases ended
  | join here none => exact absurd (h.waits here) none
  | start before after here =>
    have none := h.launched
    rw [here] at none
    simp at none
  | beside before after here moves =>
    have still := h.beside _ (here ▸ List.mem_append_right _ List.mem_cons_self)
    cases still.waits.move moves
    refine ⟨h.own, h.waits, h.going, fun g mem => h.beside g (here ▸ mem), h.launched⟩
  | finish before after here ended =>
    have still := h.beside _ (here ▸ List.mem_append_right _ List.mem_cons_self)
    rw [still.waits.outcome?] at ended
    cases ended
  | clock time => exact h.clock time

theorem Halted.moves (h : p.Halted) (run : Relation.ReflTransGen (Move callsMain table) p q) :
    q.Halted := by
  induction run with
  | refl => exact h
  | tail _ m ih => exact ih.move m

theorem Halted.stuck (h : p.Halted) : p.Stuck callsMain table :=
  fun run => (h.moves run).going

/-- A goroutine whose call has broken down stays. -/
theorem Move.keeps_broken {g : Goroutine} (m : Move callsMain table p q) (mem : g ∈ p.running)
    (broken : g.thread.Broken) : g ∈ q.running := by
  cases m with
  | own | next | join | clock => exact mem
  | start => exact List.mem_append_left _ mem
  | beside before after here moves =>
    rw [here, List.mem_append, List.mem_cons] at mem
    obtain first | rfl | last := mem
    · exact List.mem_append_left _ first
    · cases (broken.waits _ _).move moves
      exact List.mem_append_right _ List.mem_cons_self
    · exact List.mem_append_right _ (List.mem_cons_of_mem _ last)
  | finish before after here ended =>
    rw [here, List.mem_append, List.mem_cons] at mem
    obtain first | rfl | last := mem
    · exact List.mem_append_left _ first
    · rw [(broken.waits p.world p.store).outcome?] at ended
      cases ended
    · exact List.mem_append_right _ last

/-- A program does not return when the call of one of its goroutines has broken down. -/
theorem Counts.stuck_of_broken {g : Goroutine} (h : p.Counts) (mem : g ∈ p.running)
    (broken : g.thread.Broken) : p.Stuck callsMain table := by
  intro q run
  have kept : g ∈ q.running := by
    induction run with
    | refl => exact mem
    | tail _ m ih => exact m.keeps_broken ih broken
  exact (h.moves run).not_returned (.inl (List.ne_nil_of_mem kept))

end Process

/-- A machine whose goroutines, and what is to be started, are what it counts. -/
def Machine.Counted (m : Machine) : Prop :=
  m.world.active = m.goroutines.length + m.world.launched.length

/-- A process with the goroutines of a machine counts them if the machine does. -/
theorem Machine.Counted.counts {m : Machine} (h : m.Counted) (inMain : Bool) (t : Thread)
    (s : Store) : Process.Counts ⟨.runs inMain t, m.world, s, m.goroutines.map (⟨none, ·⟩), [],
      m.world.launched⟩ := by
  refine ⟨?_, by simp, fun back => by cases back⟩
  rw [List.length_map]
  exact h

theorem Machine.new_counted (settings : Settings) : (Machine.new settings).Counted := rfl

/-! ## The machine -/

namespace Process

variable {callsMain : Bool} {table : TableRef} {p q r : Process}

/-- A process can become another one, whatever has ended and was launched before. The clock does
not go back. -/
structure Reaches (callsMain : Bool) (table : TableRef) (p q : Process) : Prop where
  clock : p.world.clock ≤ q.world.clock
  run : ∀ finished launches, ∃ finished' launches', Relation.ReflTransGen (Move callsMain table)
    { p with finished := finished, launches := launches }
    { q with finished := finished', launches := launches' }

namespace Reaches

theorem refl (p : Process) : Reaches callsMain table p p :=
  ⟨Int.le_refl _, fun _ _ => ⟨_, _, .refl⟩⟩

theorem trans (first : Reaches callsMain table p q) (second : Reaches callsMain table q r) :
    Reaches callsMain table p r := by
  refine ⟨Int.le_trans first.clock second.clock, fun finished launches => ?_⟩
  obtain ⟨finished', launches', first⟩ := first.run finished launches
  obtain ⟨finished'', launches'', second⟩ := second.run finished' launches'
  exact ⟨finished'', launches'', first.trans second⟩

/-- A process that has halted stays so. -/
theorem halted (h : Reaches callsMain table p q) (halted : p.Halted) : q.Halted := by
  obtain ⟨finished, launches, run⟩ := h.run [] []
  have still : Halted { p with finished := [], launches := [] } :=
    ⟨halted.own, halted.waits, halted.going, halted.beside, halted.launched⟩
  have ended := still.moves run
  exact ⟨ended.own, ended.waits, ended.going, ended.beside, ended.launched⟩

variable {phase : Phase} {w w' : World} {s s' : Store} {gs : List Goroutine}

/-- The program's own thread goes on. -/
theorem own {inMain : Bool} {a b : Thread × World × Store}
    (moves : Relation.ReflTransGen Thread.Move a b) :
    Reaches callsMain table ⟨.runs inMain a.1, a.2.1, a.2.2, gs, [], []⟩
      ⟨.runs inMain b.1, b.2.1, b.2.2, gs, [], []⟩ := by
  induction moves with
  | refl => exact .refl _
  | tail _ move ih =>
    exact ih.trans ⟨move.launches.clock.ge, fun _ _ => ⟨_, _, .single (.own rfl move)⟩⟩

/-- A goroutine goes on. -/
theorem beside {launch? : Option Launch} {before after : List Goroutine}
    {a b : Thread × World × Store} (moves : Relation.ReflTransGen Thread.Move a b) :
    Reaches callsMain table ⟨phase, a.2.1, a.2.2, before ++ ⟨launch?, a.1⟩ :: after, [], []⟩
      ⟨phase, b.2.1, b.2.2, before ++ ⟨launch?, b.1⟩ :: after, [], []⟩ := by
  induction moves with
  | refl => exact .refl _
  | tail _ move ih =>
    exact ih.trans ⟨move.launches.clock.ge, fun _ _ =>
      ⟨_, _, .single (.beside (g := ⟨launch?, _⟩) before after rfl move)⟩⟩

/-- What was launched is started, in order. -/
theorem startLaunched (ls : List Launch) :
    ∃ gs', gs'.map Goroutine.thread = (Machine.startLaunched ls (gs.map Goroutine.thread) w s).1 ∧
      Reaches callsMain table ⟨phase, { w with launched := ls }, s, gs, [], []⟩
        ⟨phase, { w with launched := [] }, (Machine.startLaunched ls (gs.map Goroutine.thread) w s).2,
          gs', [], []⟩ := by
  induction ls generalizing gs s with
  | nil => exact ⟨gs, rfl, .refl _⟩
  | cons l rest ih =>
    rcases invoked : l.callee.invoke l.args l.receiver w.root w s with ⟨c, s₁⟩
    have started : (gs ++ [Goroutine.mk (some l) { context := c }]).map Goroutine.thread =
        gs.map Goroutine.thread ++ [{ context := c }] := by simp
    obtain ⟨gs', threads, reaches⟩ := @ih s₁ (gs ++ [Goroutine.mk (some l) { context := c }])
    simp only [Machine.startLaunched, invoked]
    rw [← started]
    have starts : Reaches callsMain table ⟨phase, { w with launched := l :: rest }, s, gs, [], []⟩
        ⟨phase, { w with launched := rest }, s₁, gs ++ [⟨some l, { context := c }⟩], [], []⟩ :=
      ⟨Int.le_refl _, fun _ _ => ⟨_, _, .single (.start [] rest rfl invoked)⟩⟩
    exact ⟨gs', threads, starts.trans reaches⟩

theorem launch : ∃ gs', gs'.map Goroutine.thread = (Machine.launch (gs.map Goroutine.thread) w s).1 ∧
    Reaches callsMain table ⟨phase, w, s, gs, [], []⟩
      ⟨phase, (Machine.launch (gs.map Goroutine.thread) w s).2.1,
        (Machine.launch (gs.map Goroutine.thread) w s).2.2, gs', [], []⟩ :=
  startLaunched w.launched

/-- Every goroutine has its share, and those that have ended are counted no more. -/
theorem sliceAll (before after : List Goroutine) :
    ∃ gs', gs'.map Goroutine.thread = (Machine.sliceAll (after.map Goroutine.thread) w s).2.1 ∧
      Reaches callsMain table ⟨phase, w, s, before ++ after, [], []⟩
        ⟨phase, (Machine.sliceAll (after.map Goroutine.thread) w s).2.2.1,
          (Machine.sliceAll (after.map Goroutine.thread) w s).2.2.2, before ++ gs', [], []⟩ := by
  induction after generalizing before w s with
  | nil => exact ⟨[], rfl, .refl _⟩
  | cons g rest ih =>
    have goesOn : Reaches callsMain table ⟨phase, w, s, before ++ g :: rest, [], []⟩ _ :=
      beside (g.thread.slice_moves w s)
    simp only [List.map_cons, Machine.sliceAll]
    generalize g.thread.slice w s = sliced at goesOn ⊢
    obtain ⟨b, t, w₁, s₁⟩ := sliced
    cases ended : t.outcome? with
    | some result =>
      simp only [Option.isSome_some, if_true]
      obtain ⟨gs', threads, reaches⟩ := @ih w₁.done s₁ before
      have ends : Reaches callsMain table ⟨phase, w₁, s₁, before ++ ⟨g.launch?, t⟩ :: rest, [], []⟩
          ⟨phase, w₁.done, s₁, before ++ rest, [], []⟩ :=
        ⟨Int.le_refl _, fun _ _ =>
          ⟨_, _, .single (.finish (g := ⟨g.launch?, t⟩) before rest rfl ended)⟩⟩
      exact ⟨gs', threads, (goesOn.trans ends).trans reaches⟩
    | none =>
      obtain ⟨gs', threads, reaches⟩ := @ih w₁ s₁ (before ++ [⟨g.launch?, t⟩])
      simp only [List.append_assoc, List.singleton_append] at reaches
      exact ⟨⟨g.launch?, t⟩ :: gs', congrArg (t :: ·) threads, goesOn.trans reaches⟩

/-- The clock goes on. -/
theorem tick (later : w.clock + 1 ≤ w'.clock) (same : w' = { w with clock := w'.clock }) :
    Reaches callsMain table ⟨phase, w, s, gs, [], []⟩ ⟨phase, w', s, gs, [], []⟩ := by
  refine ⟨by simp only; omega, fun _ _ => ?_⟩
  rw [same]
  exact ⟨_, _, .single (.clock w'.clock)⟩

/-- Rounds of goroutines: in the end none counts any more, or none can go on, or there were as many
rounds as there may be. -/
theorem runAll (rounds : Nat) (started : w.launched = []) :
    ∃ gs', Reaches callsMain table ⟨phase, w, s, gs, [], []⟩
      ⟨phase, (Machine.runAll rounds (gs.map Goroutine.thread) w s).1,
        (Machine.runAll rounds (gs.map Goroutine.thread) w s).2, gs', [], []⟩ ∧
      (0 < (Machine.runAll rounds (gs.map Goroutine.thread) w s).1.active →
        w.clock + rounds ≤ (Machine.runAll rounds (gs.map Goroutine.thread) w s).1.clock ∨
        (Machine.runAll rounds (gs.map Goroutine.thread) w s).1.launched = [] ∧
        ∀ g ∈ gs', g.thread.Halted (Machine.runAll rounds (gs.map Goroutine.thread) w s).1
          (Machine.runAll rounds (gs.map Goroutine.thread) w s).2) := by
  induction rounds generalizing gs w s with
  | zero => exact ⟨gs, .refl _, fun _ => .inl (by simp [Machine.runAll])⟩
  | succ rounds ih =>
    unfold Machine.runAll
    split
    · obtain ⟨gs₁, threads, sliced⟩ := @sliceAll callsMain table phase w s [] gs
      have rest := @Machine.sliceAll_waits (gs.map Goroutine.thread) w s
      generalize Machine.sliceAll (gs.map Goroutine.thread) w s = r₁ at threads sliced rest ⊢
      obtain ⟨moved, ts₁, w₁, s₁⟩ := r₁
      obtain rfl : gs₁.map Goroutine.thread = ts₁ := threads
      obtain ⟨gs₂, threads, launched⟩ := @launch callsMain table phase w₁ s₁ gs₁
      have none : (Machine.launch (gs₁.map Goroutine.thread) w₁ s₁).2.1.launched = [] := rfl
      -- Without a move nothing was launched either.
      have waits : moved = false → ∀ t ∈ (Machine.launch (gs₁.map Goroutine.thread) w₁ s₁).1,
          t.Waits (Machine.launch (gs₁.map Goroutine.thread) w₁ s₁).2.1
            (Machine.launch (gs₁.map Goroutine.thread) w₁ s₁).2.2 := by
        rintro rfl
        obtain ⟨same, waits⟩ := rest rfl
        obtain ⟨threads, rfl, rfl⟩ : gs₁.map Goroutine.thread = gs.map Goroutine.thread ∧
          w₁ = w ∧ s₁ = s := by simpa using same
        rw [Machine.launch_none _ started, threads]
        exact waits
      dsimp only
      generalize Machine.launch (gs₁.map Goroutine.thread) w₁ s₁ = r₂ at threads launched none waits ⊢
      obtain ⟨ts₂, w₂, s₂⟩ := r₂
      obtain rfl : gs₂.map Goroutine.thread = ts₂ := threads
      have goesOn := sliced.trans launched
      dsimp only
      split
      · rename_i w₃ ticked
        obtain ⟨later, same⟩ := Machine.tick_later ticked waits
        obtain ⟨gs', rest, ends⟩ := @ih w₃ s₂ gs₂ (by rw [same]; exact none)
        have before : w.clock ≤ w₂.clock := goesOn.clock
        refine ⟨gs', (goesOn.trans (tick later same)).trans rest, fun some => ?_⟩
        refine (ends some).imp_left fun many => ?_
        push_cast
        omega
      · rename_i ticked
        obtain ⟨-, halted⟩ := Machine.halted_of_tick ticked waits
        exact ⟨gs₂, goesOn, fun _ => .inr
          ⟨none, fun g mem => halted g.thread (List.mem_map_of_mem mem)⟩⟩
    · rename_i none
      exact ⟨gs, .refl _, fun some => absurd some none⟩

/-- Rounds of the program's own thread with the goroutines beside it: in the end it has ended,
unless nothing can go on or there were as many rounds as there may be. -/
theorem runBeside {inMain : Bool} {t : Thread} (rounds : Nat) {result : Except Fault Unit}
    {c : Context} {ts : List Thread} (started : t.signal = .runs ∨ w.launched = [])
    (ran : Machine.runBeside rounds t (gs.map Goroutine.thread) w s = (result, c, ts, w', s')) :
    ∃ t' gs', gs'.map Goroutine.thread = ts ∧ t'.context = c ∧
      (t'.outcome? = some result ∨ result = .error (.of .limitReached) ∧
        (Halted ⟨.runs inMain t', w', s', gs', [], []⟩ ∨ w.clock + rounds ≤ w'.clock)) ∧
      Reaches callsMain table ⟨.runs inMain t, w, s, gs, [], []⟩
        ⟨.runs inMain t', w', s', gs', [], []⟩ := by
  induction rounds generalizing t gs w s with
  | zero =>
    cases ran
    exact ⟨t, gs, rfl, rfl, .inr ⟨rfl, .inr (by simp)⟩, .refl _⟩
  | succ rounds ih =>
    unfold Machine.runBeside at ran
    have goesOn : Reaches callsMain table ⟨.runs inMain t, w, s, gs, [], []⟩ _ :=
      own (t.slice_moves w s)
    have own := @Thread.slice_waits t w s
    generalize t.slice w s = r₁ at goesOn own ran
    obtain ⟨moved, t₁, w₁, s₁⟩ := r₁
    obtain ⟨gs₂, threads, launched⟩ := @launch callsMain table (.runs inMain t₁) w₁ s₁ gs
    have none₂ : (Machine.launch (gs.map Goroutine.thread) w₁ s₁).2.1.launched = [] := rfl
    -- A thread that waits has launched nothing.
    have quiet₁ : moved = false → t₁.Waits (Machine.launch (gs.map Goroutine.thread) w₁ s₁).2.1
        (Machine.launch (gs.map Goroutine.thread) w₁ s₁).2.2 := by
      rintro rfl
      obtain ⟨same, waits⟩ := own rfl
      cases same
      have none : w.launched = [] := started.resolve_left fun runs => by
        obtain ⟨call, wait, blocked, -⟩ := waits
        rw [runs] at blocked
        cases blocked
      rw [Machine.launch_none _ none]
      exact waits
    dsimp only at ran
    generalize Machine.launch (gs.map Goroutine.thread) w₁ s₁ = r₂
      at threads launched none₂ quiet₁ ran
    obtain ⟨ts₂, w₂, s₂⟩ := r₂
    obtain rfl : gs₂.map Goroutine.thread = ts₂ := threads
    have goesOn := goesOn.trans launched
    dsimp only at ran
    split at ran
    · rename_i ended
      cases ran
      exact ⟨t₁, gs₂, rfl, rfl, .inl ended, goesOn⟩
    · obtain ⟨gs₃, threads, sliced⟩ := @sliceAll callsMain table (.runs inMain t₁) w₂ s₂ [] gs₂
      have others := @Machine.sliceAll_waits (gs₂.map Goroutine.thread) w₂ s₂
      generalize Machine.sliceAll (gs₂.map Goroutine.thread) w₂ s₂ = r₃ at threads sliced others ran
      obtain ⟨movedOthers, ts₃, w₃, s₃⟩ := r₃
      obtain rfl : gs₃.map Goroutine.thread = ts₃ := threads
      obtain ⟨gs₄, threads, relaunched⟩ := @launch callsMain table (.runs inMain t₁) w₃ s₃ gs₃
      have none₄ : (Machine.launch (gs₃.map Goroutine.thread) w₃ s₃).2.1.launched = [] := rfl
      have waits : (moved || movedOthers) = false →
          ∀ t ∈ t₁ :: (Machine.launch (gs₃.map Goroutine.thread) w₃ s₃).1,
            t.Waits (Machine.launch (gs₃.map Goroutine.thread) w₃ s₃).2.1
              (Machine.launch (gs₃.map Goroutine.thread) w₃ s₃).2.2 := by
        intro still
        obtain ⟨own, rfl⟩ := Bool.or_eq_false_iff.1 still
        obtain ⟨same, others⟩ := others rfl
        obtain ⟨threads, rfl, rfl⟩ : gs₃.map Goroutine.thread = gs₂.map Goroutine.thread ∧
          w₃ = w₂ ∧ s₃ = s₂ := by simpa using same
        rw [Machine.launch_none _ none₂, threads]
        exact List.forall_mem_cons.2 ⟨quiet₁ own, others⟩
      dsimp only at ran
      generalize Machine.launch (gs₃.map Goroutine.thread) w₃ s₃ = r₄
        at threads relaunched none₄ waits ran
      obtain ⟨ts₄, w₄, s₄⟩ := r₄
      obtain rfl : gs₄.map Goroutine.thread = ts₄ := threads
      have goesOn := (goesOn.trans sliced).trans relaunched
      dsimp only at ran
      split at ran
      · rename_i w₅ ticked
        obtain ⟨later, same⟩ := Machine.tick_later ticked waits
        obtain ⟨t', gs', threads, context, ended, rest⟩ := ih (.inr (by rw [same]; exact none₄)) ran
        have before : w.clock ≤ w₄.clock := goesOn.clock
        refine ⟨t', gs', threads, context, ?_, (goesOn.trans (tick later same)).trans rest⟩
        refine ended.imp_right ?_
        rintro ⟨limit, given⟩
        refine ⟨limit, given.imp_right ?_⟩
        intro many
        push_cast
        omega
      · rename_i ticked
        cases ran
        obtain ⟨-, halted⟩ := Machine.halted_of_tick ticked waits
        obtain ⟨own, beside⟩ := List.forall_mem_cons.1 halted
        refine ⟨t₁, gs₄, rfl, rfl, .inr ⟨rfl, .inl ?_⟩, goesOn⟩
        refine ⟨fun same => ?_, fun same => (by cases same), fun _ same => (by cases same),
          fun g mem => beside g.thread (List.mem_map_of_mem mem), none₄⟩
        cases same
        exact own

end Reaches

/-- A process with the world, the store and the goroutines of a machine. -/
structure Shows (p : Process) (m : Machine) : Prop where
  world : p.world = m.world
  store : p.store = m.store
  running : p.running.map Goroutine.thread = m.goroutines

/-- A process that a machine gives up on: nothing in it can go on, or the clock has gone through as
many rounds as there may be. -/
def GivenUp (start : Int) (p : Process) : Prop :=
  p.Halted ∨ start + roundLimit ≤ p.world.clock

theorem GivenUp.since {start begun : Int} (h : p.GivenUp start) (le : begun ≤ start) :
    p.GivenUp begun :=
  h.imp_right fun many => by omega

theorem GivenUp.reaches {start : Int} (h : p.GivenUp start) (reaches : Reaches callsMain table p q) :
    q.GivenUp start :=
  h.imp reaches.halted fun many => many.trans reaches.clock

/-- A program that runs a context to its end, unless it is given up on. -/
theorem Shows.runContext {inMain : Bool} {m m' : Machine} {c c' : Context}
    {result : Except Fault Unit} (h : p.Shows m)
    (here : p.phase = .runs inMain { context := c.started })
    (ran : m.runContext c = (result, c', m')) :
    ∃ q t, q.Shows m' ∧ q.phase = .runs inMain t ∧ t.context = c' ∧
      (t.outcome? = some result ∨
        result = .error (.of .limitReached) ∧ q.GivenUp p.world.clock) ∧
      Reaches callsMain table p q := by
  obtain ⟨phase, w, s, gs, finished, launches⟩ := p
  obtain ⟨rfl, rfl, running⟩ := h
  cases here
  change gs.map Goroutine.thread = m.goroutines at running
  unfold Machine.runContext at ran
  rw [← running] at ran
  rcases done : Machine.runBeside roundLimit { context := c.started }
    (gs.map Goroutine.thread) m.world m.store with ⟨result', c'', ts, w', s'⟩
  rw [done] at ran
  cases ran
  obtain ⟨t, gs', threads, context, ended, reaches⟩ := Reaches.runBeside _ (.inl rfl) done
  exact ⟨⟨.runs inMain t, w', s', gs', [], []⟩, t, ⟨rfl, rfl, threads⟩, rfl, context, ended,
    reaches.clock, reaches.run⟩

/-- A machine joins its goroutines, whatever the program's own thread is at. A goroutine that is
left then cannot go on. -/
theorem Shows.join {m : Machine} (h : p.Shows m) :
    ∃ q : Process, q.world = m.join.world ∧ q.store = m.join.store ∧ q.phase = p.phase ∧
      Reaches callsMain table p q ∧
      (0 < q.world.active → p.world.clock + roundLimit ≤ q.world.clock ∨
        q.world.launched = [] ∧ ∀ g ∈ q.running, g.thread.Halted q.world q.store) := by
  obtain ⟨phase, w, s, gs, finished, launches⟩ := p
  obtain ⟨rfl, rfl, running⟩ := h
  unfold Machine.join
  rw [← running]
  obtain ⟨gs₁, threads, launched⟩ := @Reaches.launch callsMain table phase m.world m.store gs
  have none : (Machine.launch (gs.map Goroutine.thread) m.world m.store).2.1.launched = [] := rfl
  dsimp only
  generalize Machine.launch (gs.map Goroutine.thread) m.world m.store = r at threads launched none ⊢
  obtain ⟨ts₁, w₁, s₁⟩ := r
  obtain rfl : gs₁.map Goroutine.thread = ts₁ := threads
  obtain ⟨gs₂, ran, ends⟩ := @Reaches.runAll callsMain table phase w₁ s₁ gs₁ roundLimit none
  have reaches := launched.trans ran
  refine ⟨⟨phase, _, _, gs₂, finished, launches⟩, rfl, rfl, rfl, ⟨reaches.clock, reaches.run⟩, ?_⟩
  intro some
  have before : m.world.clock ≤ w₁.clock := launched.clock
  exact (ends some).imp_left fun many => Int.le_trans (by omega) many

/-- What a run that began at some time has come to when the machine stops: the program has
returned, or the run was given up since the program never returns or since the clock has gone
through as many rounds as there may be. -/
structure Left (callsMain : Bool) (table : TableRef) (start : Int) (p : Process)
    (result : Except Fault Unit) (m : Machine) : Prop where
  world : p.world = m.world
  store : p.store = m.store
  ended : p.phase = .returned result ∨ result = .error (.of .limitReached) ∧
    (p.Stuck callsMain table ∨ start + roundLimit ≤ m.world.clock)

/-- A process where a machine stops: it has returned or was given up on. -/
structure Stops (start : Int) (p : Process) (result : Except Fault Unit) (m : Machine) : Prop where
  world : p.world = m.world
  store : p.store = m.store
  ended : p.phase = .returned result ∨ result = .error (.of .limitReached) ∧ p.GivenUp start

theorem Stops.left {start : Int} {m : Machine} {result : Except Fault Unit}
    (h : p.Stops start result m) (finished : List (Option Launch × Except Fault Unit))
    (launches : List Launch) :
    Left callsMain table start { p with finished := finished, launches := launches } result m := by
  refine ⟨h.world, h.store, h.ended.imp_right fun ⟨limit, given⟩ => ⟨limit, ?_⟩⟩
  obtain halted | many := given
  · have still : Halted { p with finished := finished, launches := launches } :=
      ⟨halted.own, halted.waits, halted.going, halted.beside, halted.launched⟩
    exact .inl still.stuck
  · exact .inr (h.world ▸ many)

theorem Shows.leaves {m : Machine} {start : Int} {result : Except Fault Unit} (h : p.Shows m)
    (begun : start ≤ p.world.clock)
    (here : p.phase = .waits result ∨ result = .error (.of .limitReached) ∧ p.GivenUp start) :
    ∃ q : Process, q.Stops start (m.finish result).1 (m.finish result).2 ∧
      Reaches callsMain table p q := by
  obtain ⟨q, world, store, phase, reaches, ends⟩ := @Shows.join callsMain table p m h
  unfold Machine.finish
  dsimp only
  obtain waits | ⟨rfl, given⟩ := here
  · rw [← world]
    split
    · rename_i some
      have given : q.GivenUp start := by
        refine (ends some).symm.imp (fun ⟨started, beside⟩ => ?_) fun many => by omega
        rw [waits] at phase
        refine ⟨fun same => ?_, fun _ => some, fun _ same => ?_, beside, started⟩ <;>
          rw [phase] at same <;> cases same
      exact ⟨q, ⟨world, store, .inr ⟨rfl, given⟩⟩, reaches⟩
    · rename_i none
      refine ⟨{ q with phase := .returned result }, ⟨world, store, .inl rfl⟩, reaches.trans ?_⟩
      exact ⟨Int.le_refl _, fun _ _ => ⟨_, _, .single (.join (phase.trans waits) none)⟩⟩
  · rw [ite_self]
    exact ⟨q, ⟨world, store, .inr ⟨rfl, given.reaches reaches⟩⟩, reaches⟩

/-- A thread that has ended, and what follows. -/
theorem Reaches.next {inMain : Bool} {t : Thread} {result : Except Fault Unit} {phase : Phase}
    {s : Store} (here : p.phase = .runs inMain t) (ended : t.outcome? = some result)
    (follows : Phase.after callsMain table inMain t.context result p.world p.store = (phase, s)) :
    Reaches callsMain table p { p with phase := phase, store := s } :=
  ⟨Int.le_refl _, fun _ _ => ⟨_, _, .single (.next here ended follows)⟩⟩

end Process

namespace Machine

open Process

variable {p : Process} {callsMain : Bool} {table : TableRef}

/-- A machine that counts its goroutines does so when it has run a context. -/
theorem Counted.runContext {m m' : Machine} {c c' : Context} {result : Except Fault Unit}
    (h : m.Counted) (ran : m.runContext c = (result, c', m')) : m'.Counted := by
  let p : Process := ⟨.runs false { context := c.started }, m.world, m.store,
    m.goroutines.map (Goroutine.mk none), [], m.world.launched⟩
  have shows : p.Shows m := ⟨rfl, rfl, by simp [p, Function.comp_def]⟩
  have counts : p.Counts := h.counts _ _ _
  obtain ⟨q, -, shows, -, -, -, reaches⟩ :=
    @Shows.runContext false m.root p false _ _ _ _ _ shows rfl ran
  obtain ⟨_, _, moves⟩ := reaches.run [] m.world.launched
  have active := (counts.moves moves).active
  change q.world.active = q.running.length + q.world.launched.length at active
  rw [Counted, ← shows.world, ← shows.running, List.length_map]
  exact active

/-- A machine without builtins. -/
def bare : Machine := { world := {}, store := {} }

end Machine

end StackScript
