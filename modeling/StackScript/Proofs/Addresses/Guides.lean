import StackScript.Proofs.Addresses.Threads

/-!
# Runs that are guided

A relocation commutes with a step if the next instruction has moved to where the context has moved
to. Where instructions have been deleted this is known only of addresses that control may reach:
those that another relocation, the guide, leaves where they are. The first relocation commutes with
whole runs if every step from a state that the guide leaves as it is leads to such a state again.

A context that has ended may stand behind a transfer, at an address that control does not reach.

Main statements: `Guide.run`, `Guide.advance` and `Guide.runBeside`.
-/
namespace StackScript

/-! ## States that stay -/

section

variable (D : Relocation)

/-- All addresses in the context stay. -/
def Context.Fixed (c : Context) : Prop := c.moved = c

/-- All addresses in the world stay. -/
def World.Fixed (w : World) : Prop := w.moved = w

/-- All addresses in the store stay, and so do the units. -/
def Store.Fixed (s : Store) : Prop := s.moved = s

/-- All addresses in an answer stay. -/
def Answer.Fixed (a : Answer) : Prop := a.moved = a

/-- All addresses in what waits for a context stay. -/
def Caller.Fixed (c : Caller) : Prop := c.moved = c

/-- Where a context stands: it may stand anywhere once it has ended. -/
def Standing : Signal → Context → Prop
  | .ended _, c => c.parked.Fixed D
  | .blocked _ wait, c => c.Fixed D ∧ wait.moved = wait
  | .asks _ answer, c => c.Fixed D ∧ answer.Fixed D
  | .runs, c => c.Fixed D

/-- All addresses in a thread stay, but for the place of a context that has ended. -/
structure Thread.Live (t : Thread) : Prop where
  standing : Standing D t.signal t.context
  callers : ∀ c ∈ t.callers, c.Fixed D

end

section

variable {D : Relocation}

theorem Context.Fixed.parked {c : Context} (h : c.Fixed D) : c.parked.Fixed D := by
  have same : ({ c.moved with pc := 0 } : Context) = { c with pc := 0 } := by rw [h]
  refine Eq.trans ?_ same
  simp [Context.parked, Context.moved, D.start]

/-- What a context is doing has no addresses in it. -/
theorem Context.Fixed.withState {c : Context} (h : c.parked.Fixed D) (state : ContextState) :
    ({ c with state := state } : Context).parked.Fixed D :=
  congrArg (fun c : Context => ({ c with state := state } : Context)) h

theorem Thread.Live.of_moved {t : Thread} (h : t.moved = t) : t.Live D := by
  have context : t.context.Fixed D := congrArg Thread.context h
  have signal : t.signal.moved = t.signal := congrArg Thread.signal h
  have callers : t.callers.map Caller.moved = t.callers := congrArg Thread.callers h
  refine ⟨?_, fun c mem => ?_⟩
  · cases s : t.signal with
    | runs => exact context
    | blocked call wait =>
      rw [s] at signal
      exact ⟨context, (Signal.blocked.inj signal).2⟩
    | asks call answer =>
      rw [s] at signal
      exact ⟨context, (Signal.asks.inj signal).2⟩
    | ended r => exact context.parked
  · exact List.map_inj_left.1 (callers.trans (List.map_id _).symm) c mem

variable {s : Store}

/-- The handler of a fault does not depend on where the context stands. -/
theorem Context.catch?_fixed {c : Context} (hc : c.parked.Fixed D) (hs : s.Fixed D) {f : Fault}
    {c' : Context} {s' : Store} (caught : c.catch? f s = some (c', s')) :
    c'.Fixed D ∧ s'.Fixed D := by
  have moved := @catch?_moved D c.parked f s
  have same : c.parked.catch? f s = some (c', s') := caught
  rw [hc, hs, same] at moved
  exact Prod.mk.inj (Option.some.inj moved.symm)

theorem Context.handle_standing {c : Context} (hc : c.parked.Fixed D) (hs : s.Fixed D) (f : Fault) :
    Standing D (c.handle f s).1 (c.handle f s).2.1 ∧ (c.handle f s).2.2.Fixed D := by
  unfold handle
  split
  · exact ⟨hc.withState .stopped, hs⟩
  · exact ⟨hc.withState .suspended, hs⟩
  · extract_lets f
    split
    · rename_i caught
      split at caught
      · cases caught
      · exact catch?_fixed hc hs caught
    · exact ⟨hc.withState .stopped, hs⟩

/-! ## Turns that stay -/

theorem Turned.fixed {r : Thread × World × Store} (h : Turned s r r) :
    r.1.Live D ∧ r.2.1.Fixed D ∧ r.2.2.Fixed D :=
  have rest := congrArg Prod.snd h.moved
  ⟨.of_moved (congrArg Prod.fst h.moved).symm, (congrArg Prod.fst rest).symm, (congrArg Prod.snd rest).symm⟩

namespace Thread

variable {t : Thread} {w : World}

theorem callers_fixed {callers : List Caller} (h : ∀ c ∈ callers, c.Fixed D) :
    callers.map Caller.moved = callers :=
  (List.map_inj_left.2 h).trans (List.map_id _)

/-- What does not look at where a thread stands cannot tell it from one that stays. -/
theorem moved_running {c : Context} (hc : c.Fixed D) {callers : List Caller}
    (h : ∀ c ∈ callers, c.Fixed D) :
    ({ context := c, callers := callers } : Thread).moved = { context := c, callers := callers } := by
  simp only [Thread.moved, callers_fixed h]
  rw [hc]
  rfl

theorem deliver_fixed (hc : t.context.Fixed D) (callers : ∀ c ∈ t.callers, c.Fixed D)
    (hw : w.Fixed D) (hs : s.Fixed D) (call : PendingCall) (v : Value) (stays : v.moved = v) :
    let r := t.deliver call (.ok v) w s
    r.1.Live D ∧ r.2.1.Fixed D ∧ r.2.2.Fixed D := by
  have turned := deliver_turned { context := t.context, callers := t.callers } call (.ok v) w s
  rw [moved_running hc callers, Except.map, stays, hw, hs] at turned
  exact turned.fixed

theorem serve_fixed (beyond : D.bound ≤ s.codes.size) (hc : t.context.Fixed D)
    (callers : ∀ c ∈ t.callers, c.Fixed D) (hw : w.Fixed D) (hs : s.Fixed D) (call : PendingCall)
    {answer : Answer} (stays : answer.Fixed D) :
    let r := t.serve call answer w s
    r.1.Live D ∧ r.2.1.Fixed D ∧ r.2.2.Fixed D := by
  have turned := serve_turned beyond { context := t.context, callers := t.callers } call answer w
  rw [moved_running hc callers, stays, hw, hs] at turned
  exact turned.fixed

theorem leave_fixed (beyond : D.bound ≤ s.codes.size) (hc : t.context.parked.Fixed D)
    {caller : Caller} (hcaller : caller.Fixed D) {callers : List Caller}
    (hcallers : ∀ c ∈ callers, c.Fixed D) (hw : w.Fixed D) (hs : s.Fixed D)
    (result : Except Fault Unit) :
    let r := t.leave caller callers result w s
    r.1.Live D ∧ r.2.1.Fixed D ∧ r.2.2.Fixed D := by
  have turned := leave_turned beyond { context := t.context.parked } caller callers result w
  rw [moved_running hc (fun _ mem => absurd mem List.not_mem_nil), hcaller, callers_fixed hcallers, hw,
    hs] at turned
  exact turned.fixed

end Thread

/-- What comes for a thread that waits. -/
theorem Wait.poll_fixed {wait : Wait} (stays : wait.moved = wait) {w : World} (hw : w.Fixed D)
    (hs : s.Fixed D) {v : Value} {s' : Store} (come : wait.poll w s = some (v, s')) :
    v.moved = v ∧ s'.Fixed D := by
  have moved := wait.poll_moved w s
  rw [stays, hw, hs, come] at moved
  exact Prod.mk.inj (Option.some.inj moved.symm)

namespace Machine

variable {w : World} {ts : List Thread}

theorem startLaunched_append (ls : List Launch) (ts ts' : List Thread) (w : World) (s : Store) :
    startLaunched ls (ts ++ ts') w s =
      (ts ++ (startLaunched ls ts' w s).1, (startLaunched ls ts' w s).2) := by
  induction ls generalizing ts' s with
  | nil => rfl
  | cons l rest ih =>
    simp only [startLaunched]
    rw [List.append_assoc]
    exact ih _ _

/-- The threads of functions that are started. -/
theorem launch_fixed (beyond : D.bound ≤ s.codes.size) (hts : ∀ t ∈ ts, t.Live D) (hw : w.Fixed D)
    (hs : s.Fixed D) : (∀ t ∈ (launch ts w s).1, t.Live D) ∧ (launch ts w s).2.1.Fixed D ∧
      (launch ts w s).2.2.Fixed D := by
  obtain ⟨moved, -⟩ := launch_moved beyond [] w
  rw [hw, hs] at moved
  have started := startLaunched_append w.launched ts [] w s
  rw [List.append_nil] at started
  have rest := congrArg Prod.snd moved
  refine ⟨fun t mem => ?_, (congrArg Prod.fst rest).symm, ?_⟩
  · simp only [launch, started, List.mem_append] at mem
    rcases mem with old | new
    · exact hts t old
    · refine .of_moved ?_
      exact List.map_inj_left.1 ((congrArg Prod.fst moved).symm.trans (List.map_id _).symm) t new
  · have store := (congrArg Prod.snd rest).symm
    simp only [launch, started]
    exact store

theorem alarms_moved (ts : List Thread) :
    alarms (ts.map Thread.moved) = alarms ts := by
  simp only [alarms, List.filterMap_map]
  congr 1
  funext t
  obtain ⟨c, callers, signal⟩ := t
  cases signal with
  | blocked call wait => cases wait <;> rfl
  | _ => rfl

theorem tick_moved (moved : Bool) (ts : List Thread) (w : World) :
    tick moved (ts.map Thread.moved) w.moved =
      (tick moved ts w).map World.moved := by
  cases moved with
  | true => rfl
  | false =>
    simp only [tick, alarms_moved, Option.map_map, Bool.false_eq_true, if_false]
    rfl

/-- The clock has no addresses in it. -/
theorem tick_fixed {moved : Bool} {ts : List Thread} {w w' : World} (hw : w.Fixed D)
    (ticked : tick moved ts w = some w') : w'.Fixed D := by
  have there := tick_moved (D := D) moved ts w
  have same : tick moved (ts.map Thread.moved) w = tick moved ts w := by
    simp only [tick, alarms_moved]
  rw [hw, same, ticked] at there
  exact (Option.some.inj there).symm

end Machine

theorem World.moved_done (w : World) : w.done.moved = w.moved.done := rfl

theorem World.done_fixed {w : World} (hw : w.Fixed D) : w.done.Fixed D := congrArg World.done hw

end

/-! ## Guides -/

/-- What a step leads to: to a state that stays. A step that fails may leave the context at an address
that does not stay. -/
structure Lands (D : Relocation) (r : Except Fault Progress) (c : Context) (w : World) (s : Store) :
    Prop where
  parked : c.parked.Fixed D
  goesOn : ∀ p, r = .ok p → c.Fixed D ∧ Progress.moved p = p
  world : w.Fixed D
  store : s.Fixed D

/-- A relocation commutes with steps from the states that another one leaves as they are, and those
steps lead to such states. -/
structure Guide (D : Relocation) [Relocation] (Has : Store → Prop) : Prop where
  grows : ∀ {s s' : Store}, Has s → s.Grows s' → Has s'
  beyond : ∀ {s : Store}, Has s → Relocation.bound ≤ s.codes.size ∧ D.bound ≤ s.codes.size
  followed : ∀ {c : Context} {s : Store}, Has s → c.Fixed D → s.Fixed D → Exec.Followed c s
  lands : ∀ {c c' : Context} {w w' : World} {s s' : Store} {r : Except Fault Progress}, Has s →
    c.Fixed D → w.Fixed D → s.Fixed D → Exec.step c w s = (((r, c'), w'), s') → Lands D r c' w' s'

/-- What becomes of a thread, and what becomes of it where everything has moved. -/
structure Tracked (D : Relocation) [Relocation] (s : Store) (r r' : Thread × World × Store) : Prop
    extends Turned s r r' where
  live : r.1.Live D
  world : r.2.1.Fixed D
  store : r.2.2.Fixed D

namespace Guide

variable {D : Relocation} [Relocation] {Has : Store → Prop}
variable {c : Context} {w : World} {s : Store}

/-- Runs of a context. -/
theorem run (g : Guide D Has) (steps : Nat) (has : Has s) (hc : c.Fixed D) (hw : w.Fixed D)
    (hs : s.Fixed D) {signal : Signal} {left : Nat} {c' : Context} {w' : World} {s' : Store}
    (ran : c.run steps w s = (signal, left, c', w', s')) :
    c.moved.run steps w.moved s.moved = (signal.moved, left, c'.moved, w'.moved, s'.moved) ∧
      Standing D signal c' ∧ w'.Fixed D ∧ s'.Fixed D ∧ s.Grows s' := by
  induction steps generalizing c w s with
  | zero =>
    cases ran
    exact ⟨rfl, hc, hw, hs, .of_codes rfl⟩
  | succ steps ih =>
    obtain ⟨there, codes⟩ := Exec.step_at (g.followed has hc hs) w
    rcases stepped : Exec.step c w s with ⟨⟨⟨r, c₁⟩, w₁⟩, s₁⟩
    rcases stepped' : Exec.step c.moved w.moved s.moved with ⟨⟨⟨r', c₁'⟩, w₁'⟩, s₁'⟩
    simp only [Stateful.run, Relocatable.moved, Stateful.store, Prod.mk.injEq, stepped, stepped']
      at there codes
    obtain ⟨rfl, rfl, rfl, rfl⟩ := there
    have lands := g.lands has hc hw hs stepped
    have grows : s.Grows s₁ := .of_codes codes
    simp only [Context.run, stepped] at ran
    simp only [Context.run, stepped']
    cases r with
    | ok p =>
      obtain ⟨fixed, answer⟩ := lands.goesOn p rfl
      cases p with
      | goesOn =>
        obtain ⟨run, standing, world, store, grows'⟩ :=
          ih (g.grows has grows) fixed lands.world lands.store ran
        exact ⟨run, standing, world, store, grows.trans grows'⟩
      | finished =>
        cases ran
        exact ⟨rfl, lands.parked.withState .stopped, lands.world, lands.store, grows⟩
      | asks call a =>
        cases ran
        exact ⟨rfl, ⟨fixed, (Progress.asks.inj answer).2⟩, lands.world, lands.store, grows⟩
    | error f =>
      have standing := Context.handle_standing lands.parked lands.store f
      have handled := Context.handle_codes c₁ f s₁
      simp only [Except.map, Context.handle_moved]
      rcases at_fault : c₁.handle f s₁ with ⟨signal₁, c₂, s₂⟩
      rw [at_fault] at standing handled
      simp only [at_fault] at ran
      have grows := grows.trans (.of_codes handled)
      cases signal₁ with
      | runs =>
        obtain ⟨run, standing, world, store, grows'⟩ :=
          ih (g.grows has grows) standing.1 lands.world standing.2 ran
        exact ⟨run, standing, world, store, grows.trans grows'⟩
      | blocked | asks | ended =>
        cases ran
        exact ⟨rfl, standing.1, lands.world, standing.2, grows⟩

/-! ## Turns of a thread -/

variable {t : Thread}

/-- Turns of a thread. -/
theorem advance (g : Guide D Has) (turns steps : Nat) (has : Has s) (ht : t.Live D) (hw : w.Fixed D)
    (hs : s.Fixed D) : Tracked D s (Thread.advance turns steps t w s)
      (Thread.advance turns steps t.moved w.moved s.moved) := by
  have stays : Tracked D s (t, w, s) (t.moved, w.moved, s.moved) := ⟨⟨rfl, .of_codes rfl⟩, ht, hw, hs⟩
  induction turns generalizing steps t w s with
  | zero => exact stays
  | succ turns ih =>
    have goesOn {r r' : Thread × World × Store} (turned : Turned s r r')
        (fixed : r.1.Live D ∧ r.2.1.Fixed D ∧ r.2.2.Fixed D) (left : Nat) :
        Tracked D s (Thread.advance turns left r.1 r.2.1 r.2.2)
          (Thread.advance turns left r'.1 r'.2.1 r'.2.2) := by
      obtain ⟨rfl, grows⟩ := turned
      obtain ⟨live, world, store⟩ := fixed
      have rest := ih left (g.grows has grows) live world store
        ⟨⟨rfl, .of_codes rfl⟩, live, world, store⟩
      exact ⟨rest.toTurned.after grows, rest.live, rest.world, rest.store⟩
    obtain ⟨c, callers, signal⟩ := t
    obtain ⟨standing, hcallers⟩ := ht
    cases signal with
    | blocked => exact stays
    | runs =>
      simp only [Thread.advance, Thread.moved, Signal.moved]
      split
      · exact stays
      · rcases ran : c.run steps w s with ⟨signal, left, c', w', s'⟩
        obtain ⟨ran', standing', world, store, grows⟩ := g.run steps has standing hw hs ran
        rw [ran']
        exact goesOn (r := ({ context := c', callers := callers, signal := signal }, w', s'))
          ⟨rfl, grows⟩ ⟨⟨standing', hcallers⟩, world, store⟩ left
    | asks call answer =>
      exact goesOn (Thread.serve_turned (g.beyond has).1 _ call answer w)
        (Thread.serve_fixed (g.beyond has).2 standing.1 hcallers hw hs call standing.2) steps
    | ended result =>
      cases callers with
      | nil => exact stays
      | cons caller callers =>
        rw [List.forall_mem_cons] at hcallers
        exact goesOn (Thread.leave_turned (g.beyond has).1 _ caller callers result w)
          (Thread.leave_fixed (g.beyond has).2 standing hcallers.1 hcallers.2 hw hs result) steps

/-- The share of a thread. -/
theorem slice (g : Guide D Has) (has : Has s) (ht : t.Live D) (hw : w.Fixed D) (hs : s.Fixed D) :
    (t.moved.slice w.moved s.moved).1 = (t.slice w s).1 ∧
      Tracked D s (t.slice w s).2 (t.moved.slice w.moved s.moved).2 := by
  have advanced := g.advance Thread.share Thread.share has ht hw hs
  cases signal : t.signal with
  | runs | asks | ended =>
    simp only [Thread.slice, Thread.moved_signal, signal, Signal.moved]
    exact ⟨trivial, advanced⟩
  | blocked call wait =>
    have standing := ht.standing
    rw [signal] at standing
    simp only [Thread.slice, Thread.moved_signal, signal, Signal.moved, Wait.poll_moved]
    cases come : wait.poll w s with
    | none => exact ⟨rfl, ⟨rfl, .of_codes rfl⟩, ht, hw, hs⟩
    | some found =>
      obtain ⟨v, s'⟩ := found
      obtain ⟨hv, hs'⟩ := Wait.poll_fixed standing.2 hw hs come
      have turned := Thread.deliver_turned t call (.ok v) w s'
      have grows := Store.Grows.trans (.of_codes (Wait.poll_codes come)) turned.grows
      obtain ⟨live, world, store⟩ := Thread.deliver_fixed standing.1 ht.callers hw hs' call v hv
      have rest := g.advance Thread.share Thread.share (g.grows has grows) live world store
      have there := turned.moved
      refine ⟨rfl, ?_⟩
      simp only [Except.map] at there
      simp only [Option.map_some, Prod.map, there]
      exact ⟨rest.toTurned.after grows, rest.live, rest.world, rest.store⟩

/-! ## Rounds -/

/-- What becomes of threads, and what becomes of them where everything has moved. -/
structure TrackedAll (D : Relocation) [Relocation] (s : Store) (r r' : List Thread × World × Store) :
    Prop where
  moved : r' = (r.1.map Thread.moved, r.2.1.moved, r.2.2.moved)
  grows : s.Grows r.2.2
  live : ∀ t ∈ r.1, t.Live D
  world : r.2.1.Fixed D
  store : r.2.2.Fixed D

variable {ts : List Thread}

theorem launch (g : Guide D Has) (has : Has s) (hts : ∀ t ∈ ts, t.Live D) (hw : w.Fixed D)
    (hs : s.Fixed D) : TrackedAll D s (Machine.launch ts w s)
      (Machine.launch (ts.map Thread.moved) w.moved s.moved) := by
  obtain ⟨there, grows⟩ := Machine.launch_moved (g.beyond has).1 ts w
  obtain ⟨live, world, store⟩ := Machine.launch_fixed (g.beyond has).2 hts hw hs
  exact ⟨there, grows, live, world, store⟩

theorem outcome?_moved (t : Thread) : t.moved.outcome? = t.outcome? := by
  obtain ⟨c, callers, signal⟩ := t
  cases signal <;> cases callers <;> rfl

theorem sliceAll (g : Guide D Has) (has : Has s) (hts : ∀ t ∈ ts, t.Live D) (hw : w.Fixed D)
    (hs : s.Fixed D) :
    (Machine.sliceAll (ts.map Thread.moved) w.moved s.moved).1 = (Machine.sliceAll ts w s).1 ∧
      TrackedAll D s (Machine.sliceAll ts w s).2
        (Machine.sliceAll (ts.map Thread.moved) w.moved s.moved).2 := by
  induction ts generalizing w s with
  | nil => exact ⟨rfl, rfl, .of_codes rfl, hts, hw, hs⟩
  | cons t rest ih =>
    rw [List.forall_mem_cons] at hts
    obtain ⟨same, first⟩ := g.slice has hts.1 hw hs
    rcases sliced : t.slice w s with ⟨b, t₁, w₁, s₁⟩
    rcases sliced' : t.moved.slice w.moved s.moved with ⟨b', r'⟩
    rw [sliced, sliced'] at same first
    obtain ⟨⟨rfl, grows⟩, live, world, store⟩ := first
    obtain rfl : b' = b := same
    simp only [List.map_cons, Machine.sliceAll, sliced, sliced', outcome?_moved]
    split
    · obtain ⟨same, others⟩ := ih (g.grows has grows) hts.2 (World.done_fixed world) store
      rcases all : Machine.sliceAll rest w₁.done s₁ with ⟨m, ts₁, w₂, s₂⟩
      rcases all' : Machine.sliceAll (rest.map Thread.moved) w₁.done.moved s₁.moved with ⟨m', r'⟩
      rw [all, all'] at same others
      obtain ⟨rfl, grows', lives, world, store⟩ := others
      obtain rfl : m' = m := same
      simp only [← World.moved_done, all']
      exact ⟨trivial, rfl, grows.trans grows', lives, world, store⟩
    · obtain ⟨same, others⟩ := ih (g.grows has grows) hts.2 world store
      rcases all : Machine.sliceAll rest w₁ s₁ with ⟨m, ts₁, w₂, s₂⟩
      rcases all' : Machine.sliceAll (rest.map Thread.moved) w₁.moved s₁.moved with ⟨m', r'⟩
      rw [all, all'] at same others
      obtain ⟨rfl, grows', lives, world, store⟩ := others
      obtain rfl : m' = m := same
      exact ⟨rfl, rfl, grows.trans grows', List.forall_mem_cons.2 ⟨live, lives⟩, world, store⟩

/-- Runs of a thread with others beside it. -/
theorem runBeside (g : Guide D Has) (rounds : Nat) (has : Has s) (ht : t.Live D)
    (hts : ∀ t ∈ ts, t.Live D) (hw : w.Fixed D) (hs : s.Fixed D)
    {result : Except Fault Unit} {c' : Context} {ts' : List Thread} {w' : World} {s' : Store}
    (ran : Machine.runBeside rounds t ts w s = (result, c', ts', w', s')) :
    Machine.runBeside rounds t.moved (ts.map Thread.moved) w.moved s.moved =
      (result, c'.moved, ts'.map Thread.moved, w'.moved, s'.moved) := by
  induction rounds generalizing t ts w s with
  | zero =>
    cases ran
    rfl
  | succ rounds ih =>
    obtain ⟨same, first⟩ := g.slice has ht hw hs
    rcases sliced : t.slice w s with ⟨b, t₁, w₁, s₁⟩
    rcases sliced' : t.moved.slice w.moved s.moved with ⟨b', r'⟩
    rw [sliced, sliced'] at same first
    obtain ⟨⟨rfl, grows⟩, live, world, store⟩ := first
    obtain rfl : b' = b := same
    have has := g.grows has grows
    have launched := g.launch has hts world store
    rcases l : Machine.launch ts w₁ s₁ with ⟨ts₁, w₂, s₂⟩
    rcases l' : Machine.launch (ts.map Thread.moved) w₁.moved s₁.moved with r'
    rw [l, l'] at launched
    obtain ⟨rfl, grows, lives, world, store⟩ := launched
    have has := g.grows has grows
    simp only [Machine.runBeside, sliced, sliced', l, l', outcome?_moved] at ran ⊢
    cases outcome : t₁.outcome? with
    | some done =>
      rw [outcome] at ran
      cases ran
      rfl
    | none =>
      rw [outcome] at ran
      simp only at ran ⊢
      obtain ⟨same, others⟩ := g.sliceAll has lives world store
      rcases all : Machine.sliceAll ts₁ w₂ s₂ with ⟨m, ts₂, w₃, s₃⟩
      rcases all' : Machine.sliceAll (ts₁.map Thread.moved) w₂.moved s₂.moved with ⟨m', r'⟩
      rw [all, all'] at same others
      obtain ⟨rfl, grows, lives, world, store⟩ := others
      obtain rfl : m' = m := same
      have has := g.grows has grows
      have launched := g.launch has lives world store
      rcases l₂ : Machine.launch ts₂ w₃ s₃ with ⟨ts₃, w₄, s₄⟩
      rcases l₂' : Machine.launch (ts₂.map Thread.moved) w₃.moved s₃.moved with r'
      rw [l₂, l₂'] at launched
      obtain ⟨rfl, grows, lives, world, store⟩ := launched
      have has := g.grows has grows
      simp only [all, l₂] at ran
      simp only [← List.map_cons, Machine.tick_moved]
      cases ticked : Machine.tick (b' || m') (t₁ :: ts₃) w₄ with
      | none =>
        rw [ticked] at ran
        cases ran
        rfl
      | some w₅ =>
        rw [ticked] at ran
        exact ih has live lives (Machine.tick_fixed world ticked) store ran

end Guide

end StackScript
