import StackScript.Proofs.Balance.Blocks
import StackScript.Proofs.Balance.Runs
import StackScript.Proofs.Settling.Units
import StackScript.Proofs.Debugging.Sessions

/-!
# Compiled programs are balanced

The rules tie the constructs together level by level, and each level opens two scopes at most around
the level below. So what comes of a source is balanced, as are the functions in it and the packages
that it imports, also when the source is refused. Statements leave nothing on the stack, and an
expression leaves its value.

On a machine on which nothing but compiled sources is run, all units are balanced, so the context of a
program stands in a call of its unit at every moment. When it falls off the end of the unit, it is
where the compiler laid that end out: outside all calls, in the table that it started in, in no
protected block and without receivers, with nothing on the stack, or the value of the expression.

Main statements: `Form.compile_lays`, `Held.balancedSource`, `Process.Arises.invariant` (what holds of
every process that arises) and `Process.Arises.runs_balanced`.
-/
namespace StackScript

open CompileM

/-- Nothing is open in a compiler, as in one that is new or has compiled a source. -/
def Compiler.Rests (c : Compiler) : Prop := c.draft.nest = ⟨[], 0, 0⟩

/-- A source of fewer characters than that can be read. -/
theorem Held.of_length {source : String} (few : source.length < tokenLimit) : Held source := by
  intro cursor opened
  unfold Token.Cursor.ofSource at opened
  cases scanned : Token.scanAll source with
  | error f => rw [scanned] at opened; cases opened
  | ok tokens =>
    rw [scanned] at opened
    cases opened
    exact (Token.scanAll_length scanned).trans_lt few

/-- Sources that can be read are in the files. -/
def Files.Held (files : Files) : Prop :=
  ∀ path source, files.read path = .ok source → StackScript.Held source

theorem Files.Held.empty : Files.Held {} := by
  intro path source read
  unfold Files.read at read
  split at read
  · cases read
  · have none (names : List String) : Files.text? {} names = none := rfl
    rw [none] at read
    dsimp only at read
    split at read <;> cases read

namespace Code

variable {code code' : Code}

/-- What a unit comes to depends on its instructions only. -/
theorem Visits.of_instructions {a : Nat} {p : Point} (h : code.Visits a p)
    (same : code'.instructions = code.instructions) : code'.Visits a p := by
  have size : code'.size = code.size := congrArg Array.size same
  induction h with
  | start => exact .start
  | falls _ found falls ih => exact .falls ih (same ▸ found) falls
  | jumps _ found jumps operand inside ih => exact .jumps ih (same ▸ found) jumps operand (size ▸ inside)

theorem Balanced.of_instructions (h : code.Balanced) (same : code'.instructions = code.instructions) :
    code'.Balanced := fun a p i comes found => h a p i (comes.of_instructions same.symm) (same ▸ found)

end Code

namespace Compiler

variable {c : Compiler} {σ : Spot}

/-- Where nothing is open and nothing was emitted a draft starts. -/
theorem Rests.begins (rests : c.Rests) (blank : c.draft.code.instructions = #[]) :
    c.At .begun (.level 0 0) := by
  obtain ⟨loops, scopes, tries⟩ := Nest.mk.inj rests
  refine ⟨?_, congrArg (List.map _) loops, ?_, scopes, tries⟩
  · rw [loops, Sketch.begun_waits]
    exact .empty blank
  · rw [show c.draft.nest.loops = [] from loops]
    exact nofun

/-- At the end of a draft as much is open as at its start. -/
theorem At.rests (h : c.At .begun σ) : c.Rests := by
  obtain ⟨loops, -, scopes, tries⟩ := h.nest
  exact congr (congr (congrArg Nest.mk (List.map_eq_nil_iff.1 loops)) scopes) tries

end Compiler

namespace CompileM

open Compiler (At)

variable {package : String → String → Option String → CompileM CodeRef} {o : Sketch} {σ : Spot}

/-! ## Sources -/

/-- The constructs of a source are balanced, however deep they nest. -/
theorem rulesTo_balances (h : ∀ name source directory, Held source → Idles (package name source directory))
    {depth : Nat} (few : 2 * depth < countLimit) : (rulesTo package depth).Balances (2 * depth) := by
  induction depth with
  | zero =>
    exact ⟨few, fun _ => .refuses limit_refuses, fun _ => .refuses limit_refuses,
      .idles fun _ => .refuses limit_refuses, .idles fun _ => .refuses limit_refuses, h⟩
  | succ depth ih =>
    have ih := ih (by omega)
    exact ⟨few, expressionWith_evaluates ih, unaryWith_evaluates ih, statementWith_acts ih,
      ifWith_acts ih (simpleStatement_performs ih), h⟩

/-- A source is compiled from the start of a draft. -/
theorem openSource_lays {source : String} (held : Held source) :
    Lays Compiler.Rests (openSource source) fun _ => At .begun (.level 0 0) := by
  intro c orderly rests
  unfold openSource
  cases opened : Token.Cursor.ofSource source with
  | error f => exact ⟨orderly, fun a c' run => by cases run⟩
  | ok cursor =>
    refine ⟨⟨orderly.units, held cursor opened, orderly.files⟩, fun a c' run => ?_⟩
    cases run
    exact Compiler.Rests.begins (c := { c with cursor := cursor, draft := { c.draft with
      code := { name := c.moduleName } } }) rests rfl

theorem openStatements_lays {source : String} (held : Held source) :
    Lays Compiler.Rests (openStatements source) fun _ => At .begun (.level 0 0) :=
  (openSource_lays held).bind fun _ => Emits.of_same (fun _ => ⟨rfl, rfl, rfl, rfl, rfl⟩) _

/-- The rules of a source open fewer scopes than can be counted. -/
theorem openedRules_lays (h : ∀ name source directory, Held source → Idles (package name source directory))
    {P : Compiler → Prop} :
    Lays P (openedRules package) fun rules c => (∃ k, rules.Balances k) ∧ P c := by
  refine fun c orderly before => ⟨orderly, fun rules c' run => ?_⟩
  cases run
  have tokens := orderly.tokens
  refine ⟨⟨_, rulesTo_balances h ?_⟩, before⟩
  have room : 2 * (2 * (tokenLimit + 2) + 2) < countLimit := by decide
  omega

theorem statementsWith_lays
    (h : ∀ name source directory, Held source → Idles (package name source directory))
    {source : String} (held : Held source) :
    Lays Compiler.Rests (statementsWith package source) fun _ => At .begun (.level 0 0) := by
  refine (openStatements_lays held).bind fun _ => (openedRules_lays h).bind fun rules =>
    .given fun ⟨k, balances⟩ => ?_
  have room : Room k [] 0 0 := ⟨(Nat.zero_add k).symm ▸ balances.few, nofun⟩
  have statements : Acts k (do
      if ← atEnd then pure false
      else
        rules.statement
        pure true) := .bind (.quiet atEnd_quiet) fun _ => .ite (fun _ => .pure _) fun _ =>
    balances.statement.bind fun _ => .pure _
  exact Acts.repeatWhile statements _ _ _ _ room

/-- A finished unit is balanced, and ends where the draft led. -/
theorem finish_lays : Lays (At .begun σ) finish fun code c =>
    (code.Balanced ∧ code.EndsIn (· ∈ σ)) ∧ c.Rests := by
  refine fun c orderly here => ⟨orderly.of_same rfl rfl rfl, fun code c' run => ?_⟩
  rw [finish_eq] at run
  cases run
  have carries : c.unit.Carries (argumentLimit + 1) (.level 0 0) σ := here.carries.of_same rfl
  exact ⟨carries.close_balanced, here.rests⟩

/-! ## Packages -/

theorem emitExports_emits (names : List String) :
    Emits σ (.above (names.length * 2) σ) (emitExports names) := by
  induction names generalizing σ with
  | nil => exact .pure _
  | cons name rest ih =>
    refine .bind (emitValue_pushes (fun _ none => by cases none)) fun _ => .bind (emit_pushes rfl) fun _ => ?_
    have more := ih (σ := .above 1 (.above 1 σ))
    rwa [Spot.above_above, Spot.above_above, show rest.length * 2 + 1 + 1 = (rest.length + 1) * 2 by omega] at more

/-- A number that is read back is not larger than it was. -/
theorem countOf_le (n : Nat) : Exec.countOf (.int (Int64.ofNat n)) 0 ≤ n := by
  change (Int64.ofNat n).toInt.toNat ≤ n
  have wraps : (Int64.ofNat n).toInt = (n : Int).bmod (2 ^ 64) := Int64.toInt_ofNat'
  rw [wraps, Int.bmod]
  split <;> omega

/-- A package ends with the struct of its exports, and nothing follows. -/
theorem returnExports_emits {s t : Nat} {ρ : Spot} (name : String) :
    Emits (.level s t) ρ (returnExports name) := by
  refine .read fun c => ?_
  extract_lets exports
  let count := Exec.countOf (.int (Int64.ofNat exports.length)) 0
  have few : count ≤ exports.length := countOf_le _
  -- no more exports are packed than lie on the stack
  let below : Spot := .above (exports.length * 2 - count * 2) (.level s t)
  have packs : Emits (.above (exports.length * 2) (.level s t)) (.above 1 below)
      (emit .struct (.tuple [.int (Int64.ofNat exports.length), .name name])) := by
    rw [show exports.length * 2 = count * 2 + (exports.length * 2 - count * 2) by omega, ← Spot.above_above]
    exact emitStruct_emits rfl
  rw [show Spot.above 1 below = .above _ (.level s t) from Spot.above_above ..] at packs
  exact (emitExports_emits _).bind fun _ => packs.bind fun _ => leave_emits

theorem packageCode_lays {statements : CompileM Unit}
    (h : Lays Compiler.Rests statements fun _ => At .begun (.level 0 0)) (name : String) :
    Lays Compiler.Rests (packageCode name statements) fun (_, code) c => code.Balanced ∧ c.Rests :=
  h.bind fun _ => .read fun _ => .bind (Emits.of_same (fun _ => ⟨rfl, rfl, rfl, rfl, rfl⟩) _) fun _ =>
    .bind (returnExports_emits (ρ := ∅) _ _) fun _ => finish_lays.bind fun _ =>
      .pure fun _ ⟨⟨balanced, _⟩, rests⟩ => ⟨balanced, rests⟩

theorem inPackage_lays {statements : CompileM Unit}
    (h : Lays Compiler.Rests statements fun _ => At .begun (.level 0 0)) (name : String)
    (directory : Option String) :
    Lays (At o σ) (inPackage name directory (packageCode name statements)) fun (_, code) c =>
      code.Balanced ∧ c.At o σ := by
  intro c orderly here
  have inner : (packageCompiler name directory c).Orderly := 
    ⟨orderly.units, Nat.two_pow_pos 58, orderly.files⟩
  obtain ⟨kept, leads⟩ := packageCode_lays h name _ inner rfl
  refine ⟨⟨kept.units, orderly.tokens, orderly.files⟩, fun (package, code) c' run => ?_⟩
  rcases ran : packageCode name statements (packageCompiler name directory c) with ⟨_ | r, after⟩ <;>
    rw [inPackage, ran] at run <;> cases run
  exact ⟨(leads _ _ ran).1, here.of_nest rfl rfl⟩

theorem compilePackage_idles {statements : String → CompileM Unit} {source : String}
    (h : Lays Compiler.Rests (statements source) fun _ => At .begun (.level 0 0)) (name : String)
    (directory : Option String) : Idles (compilePackage statements name source directory) := by
  intro σ o
  rw [compilePackage_eq]
  refine (inPackage_lays h name directory).bind fun ⟨package, code⟩ => .given fun balanced => ?_
  have unit : (packageUnit package code).Balanced := balanced.of_instructions rfl
  exact addCode_emits unit o

/-- Packages are balanced units, however deep their imports nest. -/
theorem packageTo_idles (depth : Nat) (name source : String) (directory : Option String)
    (held : Held source) : Idles (packageTo depth name source directory) := by
  induction depth generalizing name source directory with
  | zero => exact fun σ o => .refuses limit_refuses
  | succ depth ih =>
    exact compilePackage_idles (statementsWith_lays ih held) name directory

/-! ## Calls of a compiler -/

theorem compile_lays {source : String} (held : Held source) :
    Lays Compiler.Rests (compile source) fun code c =>
      (code.Balanced ∧ code.EndsIn (· ∈ Spot.level 0 0)) ∧ c.Rests :=
  .read fun _ => (statementsWith_lays (packageTo_idles _) held).bind fun _ => finish_lays

theorem compileExpression_lays {source : String} (held : Held source) :
    Lays Compiler.Rests (compileExpression source) fun code c =>
      (code.Balanced ∧ code.EndsIn (· ∈ Spot.above 1 (.level 0 0))) ∧ c.Rests := by
  refine (openSource_lays held).bind fun _ => .bind (Emits.of_same (fun _ => ⟨rfl, rfl, rfl, rfl, rfl⟩) _)
    fun depth => (openedRules_lays (packageTo_idles depth)).bind fun rules => .given fun ⟨k, balances⟩ => ?_
  refine .read fun c => ?_
  extract_lets cursor
  exact (emit_keeps rfl _).bind fun _ => (balances.expression _ _).bind fun _ =>
    .bind (Emits.quiet atEnd_quiet _) fun _ => .guarded (fail_refuses _ (by nofun)) fun _ => finish_lays

end CompileM

/-- The two ways to compile a source. -/
inductive Form where
  | statements
  | expression

namespace Form

/-- Compile a source. -/
def compile : Form → String → CompileM Code
  | statements, source => CompileM.compile source
  | expression, source => compileExpression source

/-- How many values are left on the stack when the code has run. -/
def results : Form → Nat
  | statements => 0
  | expression => 1

/-- Code is balanced, and leaves as many values as it is to leave. -/
def Balances (form : Form) (code : Code) : Prop :=
  code.Balanced ∧ code.EndsIn (· ∈ Spot.above form.results (.level 0 0))

theorem compile_lays (form : Form) {source : String} (held : Held source) :
    Lays Compiler.Rests (form.compile source) fun code c => form.Balances code ∧ c.Rests := by
  cases form with
  | statements => exact CompileM.compile_lays held
  | expression => exact compileExpression_lays held

end Form

/-- A compiler that can be given a source, such as one that is new. -/
structure Compiler.Receives (c : Compiler) : Prop where
  rests : c.Rests
  tokens : c.cursor.tokens.size < tokenLimit
  files : c.files.Held

namespace Compiler.Receives

variable {c c' : Compiler} {s : Store} {source : String} {form : Form}

/-- A new compiler is ready, wherever it looks for imports and whether it shows values or not. -/
theorem new (name : String) (settings : Settings) (directory : Option String) (echo : Bool)
    {files : Files} (held : files.Held) : Receives { Compiler.new name settings with
      baseDirectory := directory, echo := echo, files := files } := ⟨rfl, Nat.two_pow_pos 58, held⟩

/-- What is compiled into a store is balanced, also if the source is refused. A compiler that has
accepted a source is ready for the next one. -/
theorem into (ready : c.Receives) (balanced : s.Balanced) (form : Form) (held : Held source) :
    ((form.compile source).into c s).2.2.Balanced ∧
      ∀ code, ((form.compile source).into c s).1 = .ok code →
        form.Balances code ∧ ((form.compile source).into c s).2.1.Receives := by
  have orderly : Compiler.Orderly { c with codes := s.codes } := ⟨balanced, ready.tokens, ready.files⟩
  obtain ⟨kept, leads⟩ := form.compile_lays held _ orderly ready.rests
  refine ⟨kept.units, fun code ok => ?_⟩
  obtain ⟨balances, rests⟩ := leads code _ (Prod.ext ok rfl)
  exact ⟨balances, rests, kept.tokens, kept.files⟩

end Compiler.Receives

/-- Evaluating a source that can be read adds balanced units only. -/
theorem Held.balancedSource {source : String} (held : Held source) : BalancedSource source := by
  intro table w s balanced
  have ready := Compiler.Receives.new evaluationName w.settings none false .empty
  obtain ⟨kept, balances⟩ := ready.into balanced .expression held
  have kept : ((compileExpression source).into (.new evaluationName w.settings) s).2.2.Balanced := kept
  unfold evaluation
  rcases ran : (compileExpression source).into (.new evaluationName w.settings) s with
    ⟨f | code, c, s'⟩ <;> rw [ran] at kept
  · exact kept
  · exact kept.newCode (balances code (congrArg Prod.fst ran)).1.1

namespace Form

variable {c : Compiler} {s : Store} {n : Nat}

/-- What is compiled into a store leaves it clear, and the code is clear in any store. -/
theorem into_clear (form : Form) (source : String) (ready : c.Receives) (clear : s.Clear n) :
    ((form.compile source).into c s).2.2.Clear n ∧
      ∀ code, ((form.compile source).into c s).1 = .ok code → code.Inert := by
  have loops : c.draft.loops = [] := congrArg Nest.loops ready.rests
  have leads (base units : Nat) :
      CompileM.Leads (Compiler.Idle base units) (form.compile source) fun code c =>
        code.Compiled base c.codes.size ∧ c.Idle base units := by
    cases form with
    | statements => exact CompileM.compile_leads source
    | expression => exact compileExpression_leads source
  refine ⟨(CompileM.into_clear clear loops leads).1, fun code ok => ?_⟩
  have idle := Compiler.Unfailed.idle_of_loops (c := { c with codes := s.codes }) loops
  exact ((leads _ _).reaches idle (Prod.ext ok rfl)).1.ready.inert

end Form

/-! ## Machines that run compiled sources -/

/-- However far a thread goes by itself, what it evaluates can be read. -/
def Thread.Held (x : Thread × World × Store) : Prop :=
  ∀ y, Relation.ReflTransGen Turned x y → ∀ call source, y.1.signal = .asks call (.evaluate source) →
    StackScript.Held source

/-- A source is to be evaluated. -/
def Signal.evaluates : Signal → Bool
  | .asks _ (.evaluate _) => true
  | _ => false

namespace Thread

/-- One turn of a thread, with what it shares. -/
def next (x : Thread × World × Store) : Thread × World × Store := x.1.turn x.2.1 x.2.2

theorem next_of_turns {x y : Thread × World × Store}
    (made : Relation.ReflTransGen Turned x y) : ∃ k, next^[k] x = y := by
  induction made with
  | refl => exact ⟨0, rfl⟩
  | tail _ turned ih =>
    obtain ⟨k, rfl⟩ := ih
    exact ⟨k + 1, (Function.iterate_succ_apply' ..).trans turned⟩

/-- A thread that ends after some turns, in which it evaluates nothing, evaluates nothing. -/
theorem held_of_turns {x : Thread × World × Store} (n : Nat)
    (asks : ∀ k < n, (next^[k] x).1.signal.evaluates = false)
    (ends : (next^[n] x).1.outcome?.isSome = true) : Thread.Held x := by
  -- a thread that has ended makes no turns
  have stays : next (next^[n] x) = next^[n] x := by
    generalize next^[n] x = y at ends
    unfold outcome? at ends
    split at ends
    · next result ended alone => exact turn_over ended alone y.2.1 y.2.2
    · cases ends
  intro y made call source signal
  obtain ⟨k, rfl⟩ := next_of_turns made
  rcases Nat.lt_or_ge k n with before | behind
  · have none := asks k before
    rw [signal] at none
    cases none
  · obtain ⟨m, rfl⟩ := Nat.exists_eq_add_of_le' behind
    rw [Function.iterate_add_apply, Function.iterate_fixed stays] at signal
    rw [outcome?, signal] at ends
    cases ends

end Thread

namespace Process

/-- Whatever a thread of the process evaluates can be read. -/
def Held (p : Process) : Prop := ∀ t ∈ p.threads, Thread.Held (t, p.world, p.store)

/-- A move of a process in which whatever is evaluated can be read. -/
def Advances (callsMain : Bool) (main : TableRef) (p q : Process) : Prop :=
  p.Held ∧ Move callsMain main p q

theorem Held.sources {p : Process} (h : p.Held) : p.Sources := fun t mem y made call source asks =>
  (h t mem y made call source asks).balancedSource

/-- A machine on which no program runs. -/
def idle (m : Machine) : Process :=
  { phase := .returned (.ok ()), world := m.world, store := m.store, running := [] }

/-- The thread of a program that is about to run. -/
def opening (p : Process) (code : Code) (level : Strictness) (table : TableRef) : Thread :=
  let (unit, s) := p.store.newCode code
  { context := (Context.new s level unit table).started }

/-- A unit is about to be run under a table. -/
def starts (p : Process) (code : Code) (level : Strictness) (table : TableRef) : Process :=
  { p with phase := .runs false (p.opening code level table), store := (p.store.newCode code).2 }

/-- What comes of a machine on which sources are compiled and run, one after the other or beside each
other. The units that were compiled so far are listed. -/
inductive Arises : List (Form × Code) → Process → Prop
  | new (settings : Settings) : Arises [] (idle (.new settings))
  | compiled {units : List (Form × Code)} {p : Process} {form : Form} {source : String}
      {c c' : Compiler} {code : Code} {s : Store} (before : Arises units p) (ready : c.Receives)
      (held : StackScript.Held source)
      (accepted : (form.compile source).into c p.store = (.ok code, c', s)) :
      Arises ((form, code) :: units) { p with store := s }
  | refused {units : List (Form × Code)} {p : Process} {form : Form} {source : String}
      {c c' : Compiler} {f : Fault} {s : Store} (before : Arises units p) (ready : c.Receives)
      (held : StackScript.Held source)
      (refused : (form.compile source).into c p.store = (.error f, c', s)) :
      Arises units { p with store := s }
  | started {units : List (Form × Code)} {p : Process} {form : Form} {code : Code}
      (before : Arises units p) (mem : (form, code) ∈ units) (level : Strictness) (table : TableRef) :
      Arises units (p.starts code level table)
  | moved {units : List (Form × Code)} {p q : Process} {callsMain : Bool} {main : TableRef}
      (before : Arises units p) (held : p.Held) (move : Move callsMain main p q) : Arises units q
  /-- A program gets a table of its own. -/
  | opened {units : List (Form × Code)} {p : Process} (before : Arises units p) (parent : TableRef)
      (name : String) : Arises units { p with store := (p.store.newChild parent name).2 }
  /-- Files, settings and arguments are changed from outside. -/
  | surrounded {units : List (Form × Code)} {p : Process} {w : World} (before : Arises units p)
      (same : w.launched = p.world.launched) : Arises units { p with world := w }

variable {units : List (Form × Code)} {p q : Process} {form : Form} {code : Code} {table : TableRef}

/-- Adding to the store what holds no structs leaves a process sound. -/
theorem Sound.with_store (h : p.Sound) {s : Store} (size : s.structs.size = p.store.structs.size)
    (clear : s.Clear p.store.structs.size) : Sound { p with store := s } :=
  ⟨fun t mem => size.symm ▸ h.threads t mem, size.symm ▸ h.world, size.symm ▸ clear⟩

/-- What holds of every process that arises. -/
structure Invariant (units : List (Form × Code)) (p : Process) : Prop where
  sound : p.Sound
  balanced : p.store.Balanced
  inert : ∀ u ∈ units, u.2.Inert
  balances : ∀ u ∈ units, u.1.Balances u.2

theorem Invariant.idle {m : Machine} (launched : m.world.launched = [])
    (clear : m.store.Clear m.store.structs.size) (codes : m.store.codes = #[]) :
    Invariant [] (Process.idle m) := by
  refine ⟨⟨fun _ mem => (List.not_mem_nil mem).elim, fun l mem => ?_, clear⟩, ?_,
    fun _ mem => (List.not_mem_nil mem).elim, fun _ mem => (List.not_mem_nil mem).elim⟩
  · have mem : l ∈ m.world.launched := mem
    rw [launched] at mem
    cases mem
  · have balanced : m.store.Balanced := by
      rw [Store.Balanced, codes]
      exact fun _ mem => absurd mem (Array.not_mem_empty _)
    exact balanced

/-- A program that is about to run stands at the start of its unit. -/
theorem Invariant.starts (h : Invariant units p) (mem : (form, code) ∈ units) (level : Strictness)
    (table : TableRef) : (p.starts code level table).Runs ⟨p.store.codes.size⟩ table := by
  have store := h.sound.store.newCode (h.inert _ mem).clear
  refine ⟨⟨fun t mem => ?_, h.sound.world, store⟩, h.balanced.newCode (h.balances _ mem).1, ?_⟩
  · rcases List.mem_append.1 mem with own | beside
    · exact List.mem_singleton.1 own ▸ (Context.new_fresh _ _ _ _).thread
    · exact h.sound.threads t (List.mem_append_right _ beside)
  · rintro t ⟨⟩
    refine ⟨⟨_, {}, .ground 0, ?_⟩, fun r rest handler suffix => ?_⟩
    · exact ⟨rfl, .start, rfl, rfl, rfl, ⟨[], rfl, rfl, nofun⟩, nofun, Nat.le_refl 0, rfl⟩
    · cases List.suffix_nil.1 suffix

theorem Arises.invariant (h : Arises units p) : Invariant units p := by
  induction h with
  | new settings =>
    exact .idle rfl (Machine.new_makes settings).clear (Machine.new_codes settings)
  | @compiled units p form source c c' code s before ready held accepted ih =>
    obtain ⟨kept, balances⟩ := ready.into ih.balanced form held
    obtain ⟨clear, inert⟩ := form.into_clear source ready ih.sound.store
    have size : ((form.compile source).into c p.store).2.2.structs.size = p.store.structs.size := rfl
    rw [accepted] at kept balances clear inert size
    exact ⟨ih.sound.with_store size clear, kept, List.forall_mem_cons.2 ⟨inert code rfl, ih.inert⟩,
      List.forall_mem_cons.2 ⟨(balances code rfl).1, ih.balances⟩⟩
  | @refused units p form source c c' f s before ready held refused ih =>
    have kept := (ready.into ih.balanced form held).1
    have clear := (form.into_clear source ready ih.sound.store).1
    have size : ((form.compile source).into c p.store).2.2.structs.size = p.store.structs.size := rfl
    rw [refused] at kept clear size
    exact ⟨ih.sound.with_store size clear, kept, ih.inert, ih.balances⟩
  | started before mem level table ih =>
    have runs := ih.starts mem level table
    exact ⟨runs.sound, runs.units, ih.inert, ih.balances⟩
  | moved before held move ih =>
    exact ⟨ih.sound.move move, move.balances held.sources ih.balanced, ih.inert, ih.balances⟩
  | opened before parent name ih =>
    exact ⟨ih.sound.with_store rfl (ih.sound.store.newBelow parent name false), ih.balanced.of_codes rfl,
      ih.inert, ih.balances⟩
  | surrounded before same ih =>
    refine ⟨⟨ih.sound.threads, fun l mem => ?_, ih.sound.store⟩, ih.balanced, ih.inert, ih.balances⟩
    exact ih.sound.world l (same ▸ mem)

/-- A unit that was added is still there. -/
theorem advances_ages {callsMain : Bool} {main : TableRef}
    (run : Relation.ReflTransGen (Advances callsMain main) p q) :
    p.store.Ages q.store := by
  induction run with
  | refl => exact .refl _
  | tail _ move ih => exact ih.trans move.2.ages

theorem Runs.advances {callsMain : Bool} {main : TableRef} {unit : CodeRef} (h : p.Runs unit table)
    (run : Relation.ReflTransGen (Advances callsMain main) p q) : q.Runs unit table := by
  induction run with
  | refl => exact h
  | tail _ move ih => exact ih.move move.1.sources move.2

/-- Compiled code is balanced. However a program goes on beside others, when it falls off the end of
the top level it is outside all calls, in the table that it started in, in no protected block and
without receivers. Statements leave nothing on the stack, and an expression leaves one value. -/
theorem Arises.runs_balanced (arises : Arises units p) (mem : (form, code) ∈ units)
    {level : Strictness} {callsMain : Bool} {main : TableRef} {t : Thread} {final : Context}
    {w : World} {s : Store}
    (run : Relation.ReflTransGen (Advances callsMain main) (p.starts code level table) q)
    (own : q.phase = .runs false t) (outermost : t.callers = []) (runs : t.signal = .runs)
    (ends : Exec.step t.context q.world q.store = (((.ok .finished, final), w), s)) :
    final.depth = 0 ∧ final.scope = table ∧ final.tries = [] ∧ final.receivers = #[] ∧
      final.stack.size = form.results := by
  have start := arises.invariant.starts mem level table
  have stands := (start.advances run).own t own
  rw [Thread.Stands, Thread.Outermost, outermost, List.getLast?_nil, runs] at stands
  obtain ⟨point, comes, depth, values, below, tries, receivers⟩ :=
    Context.Standing.finished stands ends
  have unit : q.store.code ⟨p.store.codes.size⟩ = code := by
    rw [(advances_ages run).code (by simp [Process.starts, Store.newCode])]
    simp [Process.starts, Store.newCode, Store.code]
  rw [unit] at comes
  obtain ⟨vs, _, length, -, rfl, rfl⟩ := Spot.mem_above.1 ((arises.invariant.balances _ mem).2 _ comes)
  refine ⟨depth, below, List.eq_nil_of_length_eq_zero tries,
    Array.eq_empty_of_size_eq_zero (Nat.le_zero.1 receivers), ?_⟩
  rw [Exec.size_of_values (values.trans (List.append_nil _).symm)]
  simpa using length

/-! ### A loop that is left from within a protected block -/

/-- A sum that is shown, and a loop that is left from within a protected block. -/
def leavingSource : String := "1 + 2\nfor \x7b try \x7b break \x7d catch \x7b \x7d \x7d"

/-- A compiler that shows the values of expressions. -/
def showing : Compiler :=
  { Compiler.new "main" {} with baseDirectory := none, echo := true, files := {} }

/-- What the source compiles to. -/
def leaving : Code :=
  ((CompileM.compile leavingSource).run.run showing).1.toOption.getD default

/-- The program is about to run. -/
def leavingStart : Process := (idle (.new {})).starts leaving .strict ⟨0⟩

/-- The program has come to the end of its unit. -/
def leavingEnd : Thread × World × Store :=
  Thread.advance 16 16 ((idle (.new {})).opening leaving .strict ⟨0⟩) leavingStart.world
    leavingStart.store

/-- The source compiles, and to nothing that has bodies. No turn of the program asks for an
evaluation before it has ended. After sixteen of them it stands behind its last instruction. -/
theorem leaving_runs :
    ((CompileM.compile leavingSource).run.run showing).1.toOption.isSome = true ∧
    ((CompileM.compile leavingSource).run.run showing).2.codes.size = 0 ∧
    (∀ k < 17, (Thread.next^[k] ((idle (.new {})).opening leaving .strict ⟨0⟩, leavingStart.world,
      leavingStart.store)).1.signal.evaluates = false) ∧
    (Thread.next^[17] ((idle (.new {})).opening leaving .strict ⟨0⟩, leavingStart.world,
      leavingStart.store)).1.outcome?.isSome = true ∧
    leavingEnd.1.context.code = ⟨0⟩ ∧ leavingEnd.1.context.pc = 21 ∧
    (leavingEnd.2.2.code leavingEnd.1.context.code).instructions[
      leavingEnd.1.context.pc]?.isNone = true ∧
    leavingEnd.1.callers.isEmpty = true ∧ (leavingEnd.1.signal matches .runs) = true ∧
    leavingEnd.1.context.depth = 0 := by decide +kernel

theorem leaving_arises : Arises [(.statements, leaving)] (idle (.new {})) := by
  obtain ⟨compiles, bodies, -⟩ := leaving_runs
  have code : ((CompileM.compile leavingSource).run.run showing).1 = .ok leaving := by
    unfold leaving
    generalize ((CompileM.compile leavingSource).run.run showing).1 = result at *
    cases result with
    | ok code => rfl
    | error fault => cases compiles
  obtain ⟨c', accepted⟩ := CompileM.into_blank (Machine.new_codes {}) rfl code
    (Array.eq_empty_of_size_eq_zero bodies)
  exact @Arises.compiled _ _ .statements _ _ _ _ _ (.new {}) (.new "main" {} none true .empty)
    (.of_length (by decide)) accepted

theorem Move.advance {callsMain : Bool} {main : TableRef} {t : Thread} (own : p.phase = .runs false t)
    (turns steps : Nat) {x : Thread × World × Store}
    (goes : Thread.advance turns steps t p.world p.store = x) :
    Move callsMain main p { p.moved x.2.1 x.2.2 with phase := .runs false x.1 } := by
  subst goes
  exact .own own (.advance turns steps t p.world p.store)

theorem leaving_held : leavingStart.Held := by
  obtain ⟨-, -, asks, ends, -⟩ := leaving_runs
  intro t mem
  obtain rfl : t = (idle (.new {})).opening leaving .strict ⟨0⟩ := List.mem_singleton.1 mem
  exact Thread.held_of_turns 17 asks ends

theorem leaving_balanced :
    leavingEnd.1.context.code = ⟨0⟩ ∧ leavingEnd.1.context.pc = 21 ∧ ∃ final w s,
      Exec.step leavingEnd.1.context leavingEnd.2.1 leavingEnd.2.2 =
        (((.ok .finished, final), w), s) ∧
      final.depth = 0 ∧ final.scope = ⟨0⟩ ∧ final.tries = [] ∧ final.receivers = #[] ∧
      final.stack.size = 0 := by
  obtain ⟨-, -, -, -, unit, pc, atEnd, alone, runs, outside⟩ := leaving_runs
  have ended := Exec.step_end leavingEnd.1.context leavingEnd.2.1 leavingEnd.2.2
    (Option.isNone_iff_eq_none.1 atEnd) outside
  have run : Relation.ReflTransGen (Advances false ⟨0⟩) leavingStart
      { leavingStart.moved leavingEnd.2.1 leavingEnd.2.2 with phase := .runs false leavingEnd.1 } :=
    .single ⟨leaving_held,
      .advance (x := leavingEnd) (t := (idle (.new {})).opening leaving .strict ⟨0⟩) rfl 16 16 rfl⟩
  refine ⟨unit, pc, leavingEnd.1.context, _, _, ended, ?_⟩
  have arises := leaving_arises
  unfold leavingStart at run
  generalize idle (.new {}) = p at arises run
  generalize leavingEnd = x at *
  have running : x.1.signal = .runs := by
    split at runs
    · assumption
    · cases runs
  exact arises.runs_balanced List.mem_cons_self run rfl (List.isEmpty_iff.1 alone) running ended

end Process

end StackScript
