import StackScript.Proofs.Debugging.Turns

/-!
# Sessions with the debugger

A session runs a context and resumes it each time the debugger has paused it, and may change the
breakpoints in between. It ends as the run without a debugger does, which reads the same times from
the clock.

Main statements: `Machine.session_tracks` (a session follows the run without a debugger) and
`Machine.debugger_transparent`.
-/
namespace StackScript

/-! ## New machines -/

theorem Store.Clear.empty : ({} : Store).Clear 0 := by constructor <;> simp

/-- Made from another store, with no links but the parents that new structs have. -/
structure Store.Makes (s s' : Store) : Prop where
  clear : s'.Clear s'.structs.size
  kin (L : Links) : s.Kin L s'

namespace Store.Makes

variable {s s' : Store} {root : TableRef} (h : s.Makes s')
include h

theorem bindBuiltin {v : Value} (hv : v.Ordinary s'.structs.size) (name : String) :
    s.Makes (s'.bindBuiltin root name v) :=
  ⟨h.clear.bind hv root, fun L => (h.kin L).trans (.of_same rfl)⟩

omit h in
theorem packageMembers_ordinary {n : Nat} (package : String) :
    ∀ e ∈ Store.packageMembers package, e.2.Ordinary n := by
  intro e mem
  rcases List.mem_append.1 mem with constant | function
  · split at constant
    · simp only [List.mem_cons, List.not_mem_nil, or_false] at constant
      rcases constant with rfl | rfl <;> trivial
    · simp only [List.mem_cons, List.not_mem_nil, or_false] at constant
      rcases constant with rfl | rfl <;> trivial
    · cases constant
  · obtain ⟨f, -, found⟩ := List.mem_filterMap.1 function
    split at found
    · split at found <;> cases found
      trivial
    · cases found

theorem newStruct {o : StructObject} (ho : o.Clear s'.structs.size) :
    s.Makes (s'.newStruct o).2 := by
  have clear := h.clear.newStruct ho
  exact ⟨by exact clear.size.symm ▸ clear, fun L => (h.kin L).trans (.newStruct ho.parent)⟩

theorem bindPackage (package : String) : s.Makes (s'.bindPackage root package) := by
  have made : s.Makes (s'.newStruct { StructObject.ofPackage package with
      fields := Store.packageMembers package }).2 :=
    h.newStruct ⟨packageMembers_ordinary package, fun _ none => by cases none⟩
  refine made.bindBuiltin (v := .struct _) ?_ package
  simp [Value.Ordinary, Store.newStruct]

theorem bindBuiltins (root : TableRef) : s.Makes (s'.bindBuiltins root) := by
  unfold Store.bindBuiltins
  refine List.foldlRecOn (motive := s.Makes) _ _ ?_ fun s' hs package _ => hs.bindPackage package
  refine List.foldlRecOn (motive := s.Makes) _ _ ?_ fun s' hs f _ =>
    hs.bindBuiltin (v := .native f) trivial _
  refine List.foldlRecOn (motive := s.Makes) _ _ h fun s' hs name _ => ?_
  split
  · exact hs.bindBuiltin (v := .type _) trivial _
  · exact hs

theorem newRoot (name : String) : s.Makes (s'.newRoot name).2 :=
  ⟨{ h.clear with tables := Array.forall_push h.clear.tables fun _ mem => by cases mem },
    fun L => (h.kin L).trans (.of_same rfl)⟩

end Store.Makes

theorem Machine.new_makes (settings : Settings) : Store.Makes {} (Machine.new settings).store :=
  have empty : Store.Makes {} {} := ⟨.empty, fun _ => .refl _⟩
  (empty.newRoot "root").bindBuiltins _

/-- The builtins of a new machine are no units. -/
theorem Machine.new_codes (settings : Settings) : (Machine.new settings).store.codes = #[] :=
  Array.eq_empty_of_size_eq_zero (show (Machine.new {}).store.codes.size = 0 by decide +kernel)

/-- A source without functions is compiled into a store without units without a change. -/
theorem CompileM.into_blank {m : CompileM Code} {c : Compiler} {s : Store} {code : Code}
    (empty : s.codes = #[]) (blank : c.codes = #[]) (compiled : (m.run.run c).1 = .ok code)
    (codes : (m.run.run c).2.codes = #[]) : ∃ compiler', m.into c s = (.ok code, compiler', s) := by
  have start : { c with codes := s.codes } = c := by rw [empty, ← blank]
  unfold into
  rw [start]
  generalize m.run.run c = ran at compiled codes ⊢
  obtain ⟨r, compiler'⟩ := ran
  cases compiled
  dsimp only at codes ⊢
  exact ⟨_, by rw [codes, ← empty]⟩

/-- A source without functions is compiled into the store of a new machine without a change. -/
theorem CompileM.into_new {source : String} {code : Code}
    (compiled : ((compile source).run.run (.new "main" {})).1 = .ok code)
    (codes : ((compile source).run.run (.new "main" {})).2.codes = #[]) :
    ∃ compiler', (compile source).into (.new "main" {}) (Machine.new {}).store =
      (.ok code, compiler', (Machine.new {}).store) :=
  into_blank (Machine.new_codes {}) rfl compiled codes

/-! ## Sessions -/

/-- What a debugger may be told while a context does not run. -/
inductive DebugCommand where
  | setBreakpoint (line : Nat)
  | clearBreakpoint (line : Nat)
  | singleStep (on : Bool)

/-- The debugger when it has been told something. -/
def Debugger.told (d : Debugger) : DebugCommand → Debugger
  | .setBreakpoint line => d.setBreakpoint line
  | .clearBreakpoint line => d.clearBreakpoint line
  | .singleStep on => { d with singleStep := on }

/-- The context when its debugger has been told something. -/
def Context.told (c : Context) (commands : List DebugCommand) : Context :=
  { c with debugger := commands.foldl Debugger.told c.debugger }

namespace Machine

variable {m m' : Machine} {c c' d : Context} {result : Except Fault Unit}

/-- A session after some pauses: the context is run, and as long as it is paused resumed so many
times. Before each time the debugger is told what the schedule says. -/
def session (schedule : Nat → List DebugCommand) (m : Machine) (c : Context) :
    (resumptions : Nat) → Except Fault Unit × Context × Machine
  | 0 => m.runFrom (c.told (schedule 0)) 0
  | n + 1 =>
    match session schedule m c n with
    | (result, c, m) =>
      if c.state = .suspended then m.resume (c.told (schedule (n + 1))) else (result, c, m)

/-- On a machine on which nothing has been run, a context is about to run what was compiled of a
source. -/
def Prepared (m : Machine) (c : Context) : Prop :=
  ∃ (settings : Settings) (world : World) (source : String) (compiler compiler' : Compiler)
    (code : Code) (s : Store) (table : TableRef), compiler.Unfailed ∧
    ((CompileM.compile source).into compiler (new settings).store = (.ok code, compiler', s) ∨
      (CompileM.compileExpression source).into compiler (new settings).store =
        (.ok code, compiler', s)) ∧
    ({ world := world, store := s } : Machine).context code table = (c, m)

/-- A context is ready to run, by itself and with nothing anywhere that may not be there. -/
structure Ready (m : Machine) (c : Context) : Prop where
  idle : m.goroutines = []
  store : m.store.Clear m.store.structs.size
  context : c.Clear m.store.structs.size
  start : c.pc = 0
  debugger : c.debugger = {}

theorem Prepared.ready (h : m.Prepared c) : m.Ready c := by
  obtain ⟨settings, world, source, compiler, compiler', code, s, table, unfailed, compiled,
    prepared⟩ := h
  have built := (new_makes settings).clear
  have clear : code.Clear s.structs.size ∧ s.Clear s.structs.size := by
    rcases compiled with ran | ran
    · obtain ⟨store, -, clear⟩ := CompileM.into_clear built unfailed.loops
        fun _ _ => CompileM.compile_leads source
      rw [ran] at store clear
      exact store.size.symm ▸ ⟨clear code rfl, store⟩
    · obtain ⟨store, -, clear⟩ := CompileM.into_clear built unfailed.loops
        fun _ _ => CompileM.compileExpression_leads source
      rw [ran] at store clear
      exact store.size.symm ▸ ⟨clear code rfl, store⟩
  simp only [Machine.context, Prod.mk.injEq] at prepared
  obtain ⟨rfl, rfl⟩ := prepared
  exact ⟨rfl, clear.2.newCode clear.1, ⟨by simp [Context.new], by simp [Context.new]⟩, rfl, rfl⟩

/-- Where a run without a debugger is after some events. -/
def plainly (m : Machine) (c : Context) (events : List Event) : Thread × World × Store :=
  Thread.after events ({ context := c.started }, m.world, m.store)

/-- The run without a debugger comes to an end. -/
def Ends (m : Machine) (c : Context) (result : Except Fault Unit) (d : Context) (m' : Machine) :
    Prop :=
  ∃ events, m.plainly c events =
    ({ context := d.bare, signal := .ended result }, m'.world, m'.store)

/-- After more turns than were counted, the run without a debugger goes on from where a context is
paused. -/
def Passes (m : Machine) (c : Context) (count : Nat) (d : Context) (m' : Machine) : Prop :=
  ∃ events : List Event, count < events.count .turn ∧
    m.plainly c events = ({ context := d.bare.started }, m'.world, m'.store)

/-- The machine has given a context up where the run without a debugger has not ended either. -/
def GivesUp (m : Machine) (c : Context) (result : Except Fault Unit) (d : Context) (m' : Machine) :
    Prop :=
  result = .error (.of .limitReached) ∧ ∃ events t, m.plainly c events = (t, m'.world, m'.store) ∧
    t.context = d.bare ∧ t.outcome? = none

/-- However the clock is set, the run without a debugger comes to one end at most, but for the clock. -/
def Timeless (m : Machine) (c : Context) : Prop :=
  ∀ events events' t t' w w' s s', m.plainly c events = (t, w, s) → t.outcome?.isSome →
    m.plainly c events' = (t', w', s') → t'.outcome?.isSome →
      t = t' ∧ { w with clock := 0 } = { w' with clock := 0 } ∧ s = s'

/-- What a session has come to follows the run without a debugger: the thread that was run stands
where its shadow does. -/
structure Tracks (m : Machine) (c : Context) (d : Debugger) (n : Nat)
    (left : Except Fault Unit × Context × Machine) : Prop where
  idle : left.2.2.goroutines = []
  follows : ∃ (k : Nat) (t : Thread),
    Follows ({ context := c.started }, m.world, m.store) d k
      (t, left.2.2.world, left.2.2.store) ∧ t.context = left.2.1 ∧
      (left.2.1.state = .suspended → n ≤ k) ∧
      (t.outcome? = some left.1 ∨ t.outcome? = none ∧ left.1 = .error (.of .limitReached))

section

variable (alone : ∀ events, (m.plainly c events).2.1.launched = [])
include alone

/-- Running a context that follows. -/
theorem runContext_tracks {a : Machine} {b : Context} {e : Debugger} {n : Nat}
    (idle : a.goroutines = [])
    (follows : Follows ({ context := c.started }, m.world, m.store) e n
      ({ context := b.started }, a.world, a.store)) : m.Tracks c e n (a.runContext b) := by
  unfold runContext
  rw [idle]
  generalize roundLimit = rounds
  rcases ran : runBeside rounds { context := b.started } [] a.world a.store with ⟨result, c', ts, w, s⟩
  obtain ⟨rfl, t, there, context, outcome⟩ := follows.runBeside alone rounds rfl ran
  exact ⟨rfl, n, t, there, context, fun _ => Nat.le_refl n, outcome⟩

/-- The first run, with a debugger. -/
theorem run_tracks (ready : m.Ready c) (commands : List DebugCommand) :
    m.Tracks c (commands.foldl Debugger.told c.debugger) 0 (m.runFrom (c.told commands) 0) := by
  rw [runFrom, if_neg (Nat.not_lt_zero _)]
  have world : m.world.Clear m.store.structs.size := by
    intro l mem
    rw [show m.world.launched = [] from alone []] at mem
    cases mem
  refine runContext_tracks alone ready.idle
    (.going [] ⟨{ ready.context with }, List.forall_mem_nil _, trivial, rfl, rfl⟩ world ready.store
      (Nat.zero_le _) ?_)
  have start : ({ c.told commands with pc := 0 } : Context).started.bare = c.started := by
    unfold Context.bare Context.started Context.told
    rw [← ready.start, ← ready.debugger]
  simp only [Thread.after, Thread.bare, start, List.map_nil]

/-- A paused context is where it is paused. -/
theorem session_tracks (ready : m.Ready c) (schedule : Nat → List DebugCommand) (n : Nat) :
    ∃ d, m.Tracks c d n (session schedule m c n) := by
  induction n with
  | zero => exact ⟨_, run_tracks alone ready (schedule 0)⟩
  | succ n ih =>
    obtain ⟨d, idle, k, t, follows, context, counted, outcome⟩ := ih
    unfold session
    rcases ran : session schedule m c n with ⟨result, b, a⟩
    rw [ran] at idle follows context counted outcome
    dsimp only at idle follows context counted outcome ⊢
    split
    · next paused =>
      subst context
      cases follows with
      | going events clear =>
        rw [clear.state] at paused
        cases signal : t.signal <;> rw [signal] at paused <;> cases paused
      | @paused b f w s events clear world store state own active enough shadow =>
        refine ⟨(schedule (n + 1)).foldl Debugger.told b.debugger, ?_⟩
        simp only [resume, Context.told]
        refine runContext_tracks alone idle
          (.going events ⟨{ clear with }, List.forall_mem_nil _, trivial, rfl, rfl⟩ world store ?_ ?_)
        · have := counted rfl
          omega
        · rw [shadow]
          simp only [Thread.bare, Context.bare, Context.started, List.map_nil, ← state]
    · next goesOn =>
      exact ⟨d, idle, k, t, follows, context, fun paused => absurd paused goesOn, outcome⟩

end

/-- Where a session that tracks the run without a debugger has come to. -/
theorem Tracks.left {e : Debugger} {n : Nat} (h : m.Tracks c e n (result, d, m')) :
    (d.state = .stopped ∧ m.Ends c result d m') ∨
      (d.state = .suspended ∧ e.isActive = true ∧ m.Passes c n d m') ∨
      m.GivesUp c result d m' := by
  obtain ⟨-, k, t, follows, context, counted, outcome⟩ := h
  dsimp only at follows context counted outcome
  subst context
  cases follows with
  | going events clear world store enough shadow =>
    rcases outcome with ended | ⟨goesOn, limit⟩
    · unfold Thread.outcome? at ended
      split at ended
      · next signal behind =>
        cases ended
        refine .inl ⟨by rw [clear.state, signal]; rfl, events, shadow.trans ?_⟩
        simp [Thread.bare, signal, behind]
      · cases ended
    · refine .inr (.inr ⟨limit, events, t.bare, shadow, rfl, ?_⟩)
      unfold Thread.outcome? at goesOn ⊢
      split at goesOn
      · cases goesOn
      · next lost =>
        split
        · next result signal behind => exact absurd (List.map_eq_nil_iff.1 behind) (lost result signal)
        · rfl
  | @paused b f w s events clear world store state own active enough shadow =>
    refine .inr (.inl ⟨rfl, active, events, ?_, shadow.trans ?_⟩)
    · have := counted rfl
      omega
    · simp only [Context.bare, Context.started, ← state]

/-- The debugger is transparent. Whatever it is told before a compiled source that launches nothing
is run and before every time it is resumed: where it has stopped, the run without a debugger ends
with the same result, the same context, world and store; where it is paused, the run without a
debugger passes, and has made more turns than there were pauses. The run without a debugger on the
machine itself is never paused, and where the end does not depend on the clock a session ends as
that one does. -/
theorem debugger_transparent (prepared : m.Prepared c)
    (alone : ∀ events, (m.plainly c events).2.1.launched = [])
    (schedule : Nat → List DebugCommand) (n : Nat) :
    let plain := m.runFrom c 0
    let left := session schedule m c n
    (plain.2.1.state = .stopped ∧ m.Ends c plain.1 plain.2.1 plain.2.2 ∨
      m.GivesUp c plain.1 plain.2.1 plain.2.2) ∧
    (left.2.1.state = .stopped ∧ m.Ends c left.1 left.2.1 left.2.2 ∨
      left.2.1.state = .suspended ∧ m.Passes c n left.2.1 left.2.2 ∨
      m.GivesUp c left.1 left.2.1 left.2.2) ∧
    (m.Timeless c → plain.1 ≠ .error (.of .limitReached) → left.2.1.state = .stopped →
      left.1 ≠ .error (.of .limitReached) →
      left.1 = plain.1 ∧ left.2.1.bare = plain.2.1.bare ∧ left.2.2.store = plain.2.2.store ∧
        { left.2.2.world with clock := 0 } = { plain.2.2.world with clock := 0 }) := by
  have ready := prepared.ready
  have tracked : m.Tracks c c.debugger 0 (m.runFrom c 0) := run_tracks alone ready []
  obtain ⟨d, tracks⟩ := session_tracks alone ready schedule n
  generalize m.runFrom c 0 = plain at tracked
  generalize session schedule m c n = left at tracks
  dsimp only
  have first : plain.2.1.state = .stopped ∧ m.Ends c plain.1 plain.2.1 plain.2.2 ∨
      m.GivesUp c plain.1 plain.2.1 plain.2.2 := by
    rcases tracked.left with ended | ⟨-, active, -⟩ | given
    · exact .inl ended
    · rw [ready.debugger] at active
      cases active
    · exact .inr given
  have last : left.2.1.state = .stopped ∧ m.Ends c left.1 left.2.1 left.2.2 ∨
      left.2.1.state = .suspended ∧ m.Passes c n left.2.1 left.2.2 ∨
      m.GivesUp c left.1 left.2.1 left.2.2 :=
    tracks.left.imp_right fun other => other.imp_left fun ⟨paused, _, passes⟩ => ⟨paused, passes⟩
  refine ⟨first, last, fun timeless unlimited stopped limited => ?_⟩
  obtain ⟨-, events, there⟩ : plain.2.1.state = .stopped ∧ m.Ends c plain.1 plain.2.1 plain.2.2 :=
    first.resolve_right fun given => unlimited given.1
  obtain ⟨-, events', here⟩ : left.2.1.state = .stopped ∧ m.Ends c left.1 left.2.1 left.2.2 := by
    refine last.resolve_right fun other => ?_
    rcases other with ⟨paused, -⟩ | given
    · rw [stopped] at paused
      cases paused
    · exact limited given.1
  obtain ⟨same, world, store⟩ := timeless _ _ _ _ _ _ _ _ here rfl there rfl
  simp only [Thread.mk.injEq, Signal.ended.injEq] at same
  exact ⟨same.2.2, same.1, store, world⟩

/-- What `print` by itself compiles to: a line break behind the note of the line. -/
def lineBreak : Code where
  name := "main"
  instructions := #[⟨.atLine, .int 1⟩, ⟨.newline, .none⟩]
  capacity := 2
  isSealed := true

/-- The machine on which the line break is about to be printed. -/
def breaking : Machine := ((new {}).context lineBreak (new {}).root).2

/-- The context that is about to print it. -/
def breakingContext : Context := ((new {}).context lineBreak (new {}).root).1

theorem breaking_prepared : breaking.Prepared breakingContext := by
  have code : ((CompileM.compile "print").run.run (.new "main" {})).1 = .ok lineBreak :=
    CompileM.compile_of_agrees (by decide +kernel)
  have codes : ((CompileM.compile "print").run.run (.new "main" {})).2.codes = #[] := by
    decide +kernel
  obtain ⟨compiler', compiled⟩ := CompileM.into_new code codes
  exact ⟨{}, (new {}).world, "print", .new "main" {}, compiler', lineBreak, (new {}).store,
    (new {}).root, .new _ _, .inl compiled, rfl⟩

/-- The context that has printed it. -/
def brokenContext : Context := { breakingContext.started with pc := 2, line := 1 }

/-- Where the run that prints the line break ends. -/
def brokenPlace : Thread × String :=
  ({ context := { brokenContext with state := .stopped }, signal := .ended (.ok ()) }, "\n")

/-- The places of the run that prints the line break, with what was printed before. -/
def breakingPlaces : List (Thread × String) :=
  [({ context := breakingContext.started }, ""),
    ({ context := { breakingContext.started with pc := 1, line := 1 } }, ""),
    ({ context := brokenContext }, "\n"), brokenPlace]

theorem breaking_places (events : List Event) : ∃ place ∈ breakingPlaces, ∃ time,
    breaking.plainly breakingContext events =
      (place.1, { breaking.world with clock := time, output := place.2 }, breaking.store) := by
  refine Thread.after_keeps (I := fun x => ∃ place ∈ breakingPlaces, ∃ time,
    x = (place.1, { breaking.world with clock := time, output := place.2 }, breaking.store))
    ?_ ?_ events ⟨_, .head _, breaking.world.clock, rfl⟩
  · rintro t w s ⟨place, mem, time, here⟩
    cases here
    simp only [breakingPlaces, List.mem_cons, List.not_mem_nil, or_false] at mem
    rcases mem with rfl | rfl | rfl | rfl
    · exact ⟨_, .tail _ (.head _), time, rfl⟩
    · exact ⟨_, .tail _ (.tail _ (.head _)), time, rfl⟩
    · exact ⟨_, .tail _ (.tail _ (.tail _ (.head _))), time, rfl⟩
    · exact ⟨_, .tail _ (.tail _ (.tail _ (.head _))), time, rfl⟩
  · rintro t w s time ⟨place, mem, _, here⟩
    cases here
    exact ⟨place, mem, time, rfl⟩

theorem breaking_timeless : breaking.Timeless breakingContext := by
  intro events events' t t' w w' s s' here ended there ended'
  have last : ∀ place ∈ breakingPlaces, place.1.outcome?.isSome → place = brokenPlace := by
    intro place mem done
    simp only [breakingPlaces, List.mem_cons, List.not_mem_nil, or_false] at mem
    rcases mem with rfl | rfl | rfl | rfl
    · cases done
    · cases done
    · cases done
    · rfl
  obtain ⟨place, mem, time, stands⟩ := breaking_places events
  obtain ⟨place', mem', time', stands'⟩ := breaking_places events'
  cases here.symm.trans stands
  cases there.symm.trans stands'
  rw [last place mem ended, last place' mem' ended']
  exact ⟨rfl, rfl, rfl⟩

/-- With a breakpoint on its line, `print` is paused before it prints and prints when it is resumed,
as it does without a debugger. -/
theorem breaking_transparent :
    let schedule : Nat → List DebugCommand := fun _ => [.setBreakpoint 1]
    let plain := breaking.runFrom breakingContext 0
    let paused := session schedule breaking breakingContext 0
    let left := session schedule breaking breakingContext 1
    paused.2.1.state = .suspended ∧ paused.2.2.world.output = "" ∧
      breaking.Passes breakingContext 0 paused.2.1 paused.2.2 ∧
    left.2.1.state = .stopped ∧ left.2.2.world.output = "\n" ∧
      breaking.Ends breakingContext left.1 left.2.1 left.2.2 ∧
    left.1 = plain.1 ∧ left.2.1.bare = plain.2.1.bare ∧ left.2.2.store = plain.2.2.store ∧
      { left.2.2.world with clock := 0 } = { plain.2.2.world with clock := 0 } := by
  have alone (events : List Event) :
      (breaking.plainly breakingContext events).2.1.launched = [] := by
    obtain ⟨place, -, time, stands⟩ := breaking_places events
    rw [stands]
    rfl
  have first := debugger_transparent breaking_prepared alone (fun _ => [.setBreakpoint 1]) 0
  have second := debugger_transparent breaking_prepared alone (fun _ => [.setBreakpoint 1]) 1
  have paused : (session (fun _ => [.setBreakpoint 1]) breaking breakingContext 0).2.1.state =
      .suspended := by decide +kernel
  have silent : (session (fun _ => [.setBreakpoint 1]) breaking breakingContext 0).2.2.world.output =
      "" := by decide +kernel
  have stopped : (session (fun _ => [.setBreakpoint 1]) breaking breakingContext 1).2.1.state =
      .stopped := by decide +kernel
  have printed : (session (fun _ => [.setBreakpoint 1]) breaking breakingContext 1).2.2.world.output =
      "\n" := by decide +kernel
  have plainly : (breaking.runFrom breakingContext 0).1 ≠ .error (.of .limitReached) := by
    decide +kernel
  have pausing : (session (fun _ => [.setBreakpoint 1]) breaking breakingContext 0).1 ≠
      .error (.of .limitReached) := by decide +kernel
  have stopping : (session (fun _ => [.setBreakpoint 1]) breaking breakingContext 1).1 ≠
      .error (.of .limitReached) := by decide +kernel
  have passes := (first.2.1.resolve_left fun ended => by
    rw [paused] at ended; cases ended.1).resolve_right fun given => pausing given.1
  have ends := second.2.1.resolve_right fun other => by
    rcases other with ⟨paused, -⟩ | given
    · rw [stopped] at paused
      cases paused
    · exact stopping given.1
  exact ⟨paused, silent, passes.2, stopped, printed, ends.2,
    second.2.2 breaking_timeless plainly stopped stopping⟩

end Machine

end StackScript
