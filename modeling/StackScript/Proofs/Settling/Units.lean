import StackScript.Proofs.Settling.Blocks

/-!
# Every branch is patched

The rules tie the constructs together level by level, so all of them are steady. What comes of a
source, the functions in it and the packages that it imports are units whose branches all lead to
an address of the unit other than its start.

Main statements: `rulesTo_steady`, `packageTo_makes`, and `Compiler.Unfailed.branches_patched`.
-/
namespace StackScript

open CompileM

/-! ## Units and their parts -/

/-- Every branch leads to an address of the unit other than its start. -/
def Code.Patched (code : Code) : Prop :=
  ∀ i ∈ code.instructions, i.op.isBranch = true →
    ∃ t, i.operand = .address t ∧ 0 < t ∧ t ≤ code.size

/-- A function that a unit pushes. -/
def Code.Pushes (code : Code) (r : CodeRef) : Prop :=
  ∃ env, (⟨.push, .value (.function r env)⟩ : Instruction) ∈ code.instructions

instance (code : Code) (r : CodeRef) : Decidable (code.Pushes r) :=
  decidable_of_iff (code.instructions.any fun
    | ⟨.push, .value (.function pushed _)⟩ => pushed == r
    | _ => false) <| by
    rw [Array.any_eq_true']
    constructor
    · rintro ⟨i, mem, pushes⟩
      split at pushes
      · exact ⟨_, beq_iff_eq.1 pushes ▸ mem⟩
      · cases pushes
    · rintro ⟨env, mem⟩
      exact ⟨_, mem, beq_iff_eq.2 rfl⟩

/-- A unit, the units of the functions and packages that it pushes, and so on. -/
inductive Code.Part (codes : Array Code) (code : Code) : Code → Prop where
  | whole : Part codes code code
  | pushed {unit inner : Code} {r : CodeRef} : Part codes code unit → unit.Pushes r →
      codes[r.index]? = some inner → Part codes code inner

/-- A compiler that is new, or that has been given sources and has refused none of them. Between
two sources it may be given other files and share the units of other compilers. -/
inductive Compiler.Unfailed : Compiler → Prop where
  | new (name : String) (settings : Settings) : Unfailed (.new name settings)
  | equipped {c : Compiler} (baseDirectory : Option String) (echo : Bool) (codes : Array Code)
      (files : Files) : Unfailed c →
        Unfailed { c with baseDirectory := baseDirectory, echo := echo, codes := codes, files := files }
  | compiled {c c' : Compiler} {source : String} {code : Code} : Unfailed c →
      compile source c = (.ok code, c') → Unfailed c'
  | evaluated {c c' : Compiler} {source : String} {code : Code} : Unfailed c →
      compileExpression source c = (.ok code, c') → Unfailed c'

theorem Code.Ready.patched {base limit : Nat} {code : Code} (h : code.Ready base limit) :
    code.Patched := by
  intro i mem is
  obtain ⟨a, found⟩ := Array.getElem?_of_mem mem
  exact (h a i found).branch is

theorem Code.Ready.pushes {base limit : Nat} {code : Code} (h : code.Ready base limit)
    {r : CodeRef} (pushes : code.Pushes r) : base ≤ r.index ∧ r.index < limit := by
  obtain ⟨env, mem⟩ := pushes
  obtain ⟨a, found⟩ := Array.getElem?_of_mem mem
  exact (h a _ found).function r env rfl

/-- What comes of a source is ready, and its constants were declared in it. -/
structure Code.Compiled (base limit : Nat) (code : Code) : Prop where
  ready : code.Ready base limit
  recorded : code.Recorded

/-- All parts of a unit are like the unit. -/
theorem Code.Compiled.part {base : Nat} {codes : Array Code} {code unit : Code}
    (h : code.Compiled base codes.size) (finished : Finished base codes)
    (part : Part codes code unit) : unit.Compiled base codes.size := by
  induction part with
  | whole => exact h
  | pushed _ pushes found ih =>
    have done := finished _ _ (ih.ready.pushes pushes).1 found
    exact ⟨done.ready, done.recorded⟩

/-- Nothing leads to the start of a unit. -/
theorem Code.Patched.start {code : Code} (h : code.Patched) : code.isTarget 0 = false := by
  rw [Code.isTarget, Array.any_eq_false]
  intro a inside is
  rw [beq_iff_eq] at is
  unfold Instruction.target? at is
  split at is
  · rename_i branch operand
    cases is
    obtain ⟨t, there, positive, -⟩ := h _ (Array.getElem_mem inside) branch
    rw [operand] at there
    cases there
    cases positive
  · cases is

/-! ## Sources -/

/-- A compiler between two sources: no loop is open, and the units from `base` on are settled. -/
structure Compiler.Idle (base units : Nat) (c : Compiler) : Prop where
  loops : c.draft.loops = []
  finished : Finished base c.codes
  base : base ≤ c.codes.size
  units : units ≤ c.codes.size

namespace CompileM

variable {base units imports : Nat}

/-- What is known where a source starts. -/
def begun (base units : Nat) : Outline :=
  Outline.within
    { base := base, units := units, size := 0, waiting := [], kept := []
      loops := fun _ => True, opens := leaving } []

/-- The constructs of a source are steady, however deep they nest. -/
theorem rulesTo_steady (h : ∀ name source directory, Makes (packageTo imports name source directory))
    (depth : Nat) : (rulesTo (packageTo imports) depth).Steady := by
  induction depth with
  | zero =>
    exact ⟨⟨imports, 0, rfl⟩, .refuses limit_refuses, .refuses limit_refuses, .refuses limit_refuses,
      .refuses limit_refuses, h⟩
  | succ depth ih =>
    exact ⟨⟨imports, depth + 1, rfl⟩, expressionWith_steady ih, unaryWith_steady ih, statementWith_steady ih,
      ifWith_steady ih (simpleStatement_steady ih), h⟩

theorem openSource_leads (source : String) :
    Leads (Compiler.Idle base units) (openSource source) fun _ => Compiler.Fits (begun base units) := by
  intro c idle
  unfold openSource
  cases opened : Token.Cursor.ofSource source with
  | error f =>
    have ordinary := Token.Cursor.ofSource_ordinary source f opened
    exact ⟨.of_same (fun _ => rfl) (.error (ordinary.of_same rfl rfl)), fun a c' run => by cases run⟩
  | ok cursor =>
    refine ⟨.of_same (fun _ => rfl) (.ok _), fun a c' run => ?_⟩
    cases run
    refine ⟨?_, .nothing _ _, idle.finished, idle.base, idle.units, Nat.zero_le _, ?_, ?_⟩
    · have none : leaving c.draft.loops = [] := idle.loops ▸ rfl
      change Code.Settled _ _ (leaving c.draft.loops) _
      rw [none]
      exact .empty
    · exact idle.loops ▸ rfl
    · exact idle.loops ▸ nofun

theorem openStatements_leads (source : String) :
    Leads (Compiler.Idle base units) (openStatements source) fun _ =>
      Compiler.Fits (begun base units) := by
  have resets : Steady (modifyDraft fun d => { d with lastLine := 0 }) :=
    .modifyDraft (fun _ => rfl) fun _ => rfl
  exact (openSource_leads source).bind fun _ => .steady resets

theorem openedRules_leads (h : ∀ name source directory, Makes (packageTo imports name source directory))
    {P : Compiler → Prop} :
    Leads P (openedRules (packageTo imports)) fun rules c => rules.Steady ∧ P c := by
  refine fun c before => ⟨.of_same (fun _ => rfl) (.ok _), fun rules c' run => ?_⟩
  cases run
  exact ⟨rulesTo_steady h _, before⟩

theorem statementsWith_leads (h : ∀ name source directory, Makes (packageTo imports name source directory))
    (source : String) :
    Leads (Compiler.Idle base units) (statementsWith (packageTo imports) source) fun _ =>
      Compiler.Fits (begun base units) :=
  (openStatements_leads source).bind fun _ => (openedRules_leads h).bind fun _ => .given fun steady =>
    .within <| .repeatWhile <| .bind (.quiet atEnd_quiet) fun _ => .ite (.pure _) <|
      steady.statement.bind fun _ => .pure _

theorem finish_leads : Leads (Compiler.Fits (begun base units)) finish fun code c =>
    code.Compiled base c.codes.size ∧ c.Idle base units := by
  refine fun c fits => ⟨.of_same (fun _ => rfl) (.ok _), fun code c' run => ?_⟩
  rw [finish_eq] at run
  cases run
  have loops : c.draft.loops = [] := List.map_eq_nil_iff.1 fits.loops.1
  have settled := fits.settled
  rw [loops] at settled
  have unit : c.unit.Settled base c.codes.size [] := settled.of_same rfl fun _ => id
  exact ⟨⟨unit.all_ready.close, unit.recorded⟩, loops, fits.finished, fits.base, fits.units⟩

/-! ## Packages -/

theorem emitExports_steady (names : List String) : Steady (emitExports names) := by
  induction names with
  | nil => exact .pure _
  | cons name rest ih =>
    exact .bind (emitValue_steady rfl) fun _ => .bind (emitName_steady rfl) fun _ => ih

theorem returnExports_steady (name : String) : Steady (returnExports name) :=
  .read (fun _ _ => rfl) fun _ => (emitExports_steady _).bind fun _ => .bind (emit_steady rfl rfl) fun _ =>
    emitInt_steady rfl

theorem packageCode_leads {statements : CompileM Unit}
    (h : Leads (Compiler.Idle base units) statements fun _ => Compiler.Fits (begun base units)) (name : String) :
    Leads (Compiler.Idle base units) (packageCode name statements) fun (_, code) c =>
      code.Compiled base c.codes.size ∧ c.Idle base units :=
  h.bind fun _ => .read (fun _ _ => rfl) fun _ =>
    .bind (.steady (.of_same (fun _ => rfl) (fun _ => rfl) (fun _ _ => rfl) fun _ => .ok _)) fun _ =>
      .bind (.steady (returnExports_steady _)) fun _ => finish_leads.bind fun _ =>
        .pure fun _ => id

/-- The compiler of a package shares the finished units and the files. -/
def packageCompiler (name : String) (directory : Option String) (c : Compiler) : Compiler :=
  { Compiler.new name { strictness := c.strictness, normalize := c.normalize, importPath := c.importPath }
    with baseDirectory := directory, codes := c.codes, files := c.files }

/-- Take a step in the compiler of a package. -/
def inPackage {α : Type} (name : String) (directory : Option String) (step : CompileM α) : CompileM α :=
  fun c => ((step (packageCompiler name directory c)).1,
    c.over (step (packageCompiler name directory c)).2.codes)

/-- The unit of a package. -/
def packageUnit (package : String) (code : Code) : Code :=
  { code with
    name := "package " ++ package
    declaration := some { name := package, scope := .caller } }

theorem compilePackage_eq (statements : String → CompileM Unit) (name source : String)
    (directory : Option String) : compilePackage statements name source directory =
      (do let (package, code) ← inPackage name directory (packageCode name (statements source))
          addCode (packageUnit package code)) := by
  funext c
  unfold compilePackage
  extract_lets inner own
  rcases ran : packageCode name (statements source) own with ⟨f | ⟨package, code⟩, after⟩
  · have ran : packageCode name (statements source) (packageCompiler name directory c) = _ := ran
    have failed : inPackage name directory (packageCode name (statements source)) c =
        (.error f, c.over after.codes) := by rw [inPackage, ran]
    exact (bind_of_error failed).symm
  · have ran : packageCode name (statements source) (packageCompiler name directory c) = _ := ran
    have done : inPackage name directory (packageCode name (statements source)) c =
        (.ok (package, code), c.over after.codes) := by rw [inPackage, ran]
    refine Eq.trans ?_ (bind_of_ok done).symm
    rfl

theorem inPackage_leads {statements : CompileM Unit} {o : Outline}
    (h : ∀ base units, Leads (Compiler.Idle base units) statements fun _ =>
      Compiler.Fits (begun base units)) (name : String) (directory : Option String) :
    Leads (Compiler.Fits o) (inPackage name directory (packageCode name statements)) fun (_, code) =>
      Compiler.FitsWith o fun units => code.Compiled o.base units := by
  intro c fits
  have idle : Compiler.Idle o.base c.codes.size (packageCompiler name directory c) :=
    ⟨rfl, fits.finished, fits.base, Nat.le_refl _⟩
  obtain ⟨⟨⟨more, inert, same⟩, ordinary⟩, leads⟩ := packageCode_leads (h _ _) name _ idle
  refine ⟨⟨⟨more, inert, fun codes size => ?_⟩, ordinary⟩, fun (package, code) c' run => ?_⟩
  · have same : packageCode name statements (packageCompiler name directory (c.over codes)) = _ :=
      same codes size
    rw [inPackage, inPackage, same]
    rfl
  rcases ran : packageCode name statements (packageCompiler name directory c) with ⟨_ | r, after⟩ <;>
    rw [inPackage, ran] at run <;> cases run
  obtain ⟨settled, idle⟩ := leads _ _ ran
  exact ⟨after.codes.size, fits.units.trans idle.units, settled,
    fits.settled.mono idle.units, fits.kept, idle.finished, idle.base, Nat.le_refl _,
    fits.size, fits.loops⟩

/-- A package is a finished unit. -/
theorem compilePackage_makes {statements : String → CompileM Unit}
    (h : ∀ base units source, Leads (Compiler.Idle base units) (statements source) fun _ =>
      Compiler.Fits (begun base units)) (name source : String) (directory : Option String) :
    Makes (compilePackage statements name source directory) := by
  intro o
  rw [compilePackage_eq]
  refine (inPackage_leads (fun base units => h base units source) name directory).bind
    fun ⟨package, code⟩ => .some fun units => .given fun more => .given fun compiled => ?_
  have done : (packageUnit package code).Done o.base units :=
    ⟨compiled.ready.of_instructions rfl, by rintro _ ⟨⟩ ⟨⟩, compiled.recorded.of_same rfl rfl⟩
  exact (addCode_leads (o := o.having units) done).after
    fun r c ⟨units', more', there, fits⟩ => ⟨units', more.trans more', there, fits⟩

/-- Packages are finished units, however deep their imports nest. -/
theorem packageTo_makes (depth : Nat) (name source : String) (directory : Option String) :
    Makes (packageTo depth name source directory) := by
  induction depth generalizing name source directory with
  | zero => exact fun o => .refuses limit_refuses
  | succ depth ih =>
    exact compilePackage_makes (fun _ _ => statementsWith_leads ih) name source directory

/-! ## Calls of a compiler -/

theorem compile_leads (source : String) :
    Leads (Compiler.Idle base units) (compile source) fun code c =>
      code.Compiled base c.codes.size ∧ c.Idle base units := by
  exact .read (fun _ _ => rfl) fun c =>
    (statementsWith_leads (packageTo_makes _) source).bind fun _ => finish_leads

theorem compileExpression_leads (source : String) :
    Leads (Compiler.Idle base units) (compileExpression source) fun code c =>
      code.Compiled base c.codes.size ∧ c.Idle base units := by
  refine (openSource_leads source).bind fun _ => .bind (.steady (.quiet (.of_eq (fun _ _ => rfl) fun _ => .ok _)))
    fun depth => (openedRules_leads (packageTo_makes depth)).bind fun rules => .given fun steady => ?_
  refine .read (fun _ _ => rfl) fun c => ?_
  extract_lets cursor
  exact .bind (.steady (emitInt_steady rfl)) fun _ => .bind (.steady steady.expression) fun _ =>
    .bind (.steady (.quiet atEnd_quiet)) fun _ => .guarded (fail_refuses _ (by nofun)) fun _ => finish_leads

end CompileM

namespace Compiler.Unfailed

variable {c c' : Compiler} {code unit : Code}

/-- A compiler without open loops is idle, whatever units others have finished. -/
theorem idle_of_loops (loops : c.draft.loops = []) : c.Idle c.codes.size 0 :=
  ⟨loops, fun u code low found => by simp [Array.getElem?_eq_none low] at found, Nat.le_refl _,
    Nat.zero_le _⟩

/-- No loop is open between two sources. -/
theorem loops (h : c.Unfailed) : c.draft.loops = [] := by
  induction h with
  | new => rfl
  | equipped _ _ _ _ _ ih => exact ih
  | compiled _ run ih => exact ((compile_leads _).reaches (idle_of_loops ih) run).2.loops
  | evaluated _ run ih => exact ((compileExpression_leads _).reaches (idle_of_loops ih) run).2.loops

/-- What comes of a source is ready to run, and so are the units that it pushes. -/
theorem finished (h : c.Unfailed) {source : String}
    (compiled : compile source c = (.ok code, c') ∨ compileExpression source c = (.ok code, c')) :
    code.Compiled c.codes.size c'.codes.size ∧ Finished c.codes.size c'.codes := by
  have idle := idle_of_loops h.loops
  rcases compiled with run | run
  · exact ((compile_leads source).reaches idle run).imp_right Compiler.Idle.finished
  · exact ((compileExpression_leads source).reaches idle run).imp_right Compiler.Idle.finished

/-- A function starts with the prologue that its declaration asks for. -/
theorem prepared (h : c.Unfailed) {source : String}
    (compiled : compile source c = (.ok code, c') ∨ compileExpression source c = (.ok code, c'))
    (part : Code.Part c'.codes code unit) {r : CodeRef} (pushes : unit.Pushes r) {function : Code}
    (found : c'.codes[r.index]? = some function) : function.Prepared := by
  obtain ⟨whole, finished⟩ := h.finished compiled
  exact (finished _ _ ((whole.part finished part).ready.pushes pushes).1 found).prepared

/-- Every branch in what comes of a source, in the functions and packages that it pushes, and in
those that they push, leads to an address of its unit other than the start. -/
theorem branches_patched (h : c.Unfailed) {source : String}
    (compiled : compile source c = (.ok code, c') ∨ compileExpression source c = (.ok code, c'))
    (part : Code.Part c'.codes code unit) :
    unit.Patched ∧ unit.isTarget 0 = false ∧ ∀ r, unit.Pushes r → r.index < c'.codes.size := by
  obtain ⟨whole, finished⟩ := h.finished compiled
  have unit := (whole.part finished part).ready
  exact ⟨unit.patched, unit.patched.start, fun r pushes => (unit.pushes pushes).2⟩

set_option maxRecDepth 20000 in
/-- A function whose body is a loop with a conditional `break` has three branches. -/
theorem break_patched : ∃ (code inner : Code) (c' : Compiler),
    compile "func f(n) \x7b for \x7b if n \x7b break \x7d \x7d \x7d" (.new "main" {}) = (.ok code, c') ∧
      Code.Part c'.codes code inner ∧ inner.instructions.countP (·.op.isBranch) = 3 ∧
      inner.Patched ∧ inner.isTarget 0 = false ∧
      ∀ r, inner.Pushes r → r.index < c'.codes.size := by
  obtain ⟨code, c', run, pushes, counted⟩ := exists_compiled
    "func f(n) \x7b for \x7b if n \x7b break \x7d \x7d \x7d" (.new "main" {})
    (fun code c' => code.Pushes ⟨0⟩ ∧
      c'.codes.map (fun unit => unit.instructions.countP (·.op.isBranch)) = #[3]) (by decide +kernel)
  have first : (c'.codes[0]?).map (fun unit => unit.instructions.countP (·.op.isBranch)) = some 3 := by
    rw [← Array.getElem?_map, counted]
    rfl
  obtain ⟨inner, found, branches⟩ := Option.map_eq_some_iff.1 first
  have part : Code.Part c'.codes code inner := .pushed .whole pushes found
  exact ⟨code, inner, c', run, part, branches, branches_patched (.new "main" {}) (.inl run) part⟩

end Compiler.Unfailed

end StackScript
