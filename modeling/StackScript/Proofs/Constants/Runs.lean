import StackScript.Proofs.Constants.Holding
import StackScript.Proofs.Parameters.Binding
import StackScript.Proofs.Settling.Units
import StackScript.Proofs.Turns
import StackScript.Proofs.Calls.Return
import StackScript.Proofs.Constants.Builtins
import StackScript.Proofs.Addresses.Threads

/-!
# Constants of a unit and of a run

A constant whose value is a literal is recorded with the unit. The instructions that declare it push
this value, convert it to the declared type, if there is one, and bind what comes of it. So the table
of the unit says what the name is bound to up to this conversion.

No instruction but two changes a constant: one binds the fields of a struct to names whatever these
are, as a dot import does, and one removes a name, which no program is compiled to. A run of units
without the two keeps every constant below the root, but for one under the name that a caught
fault is bound to.

Main statements: `constantCode_binds` (what the declaration of a constant does),
`Compiler.Unfailed.constants_declared` (every constant that is recorded has been declared so) and
`Exec.declared_constants_hold`.
-/
namespace StackScript

/-! ## What a declaration makes of a value -/

namespace Value

/-- What is pushed for a value that stands in code: a function gets the scope that it is made in. -/
def asPushed (r : TableRef) : Value → StoreM Value
  | .function code none => do
    match ((← get).code code).scopeRule with
    | .lexical => pure (.function code (some r))
    | .caller => pure (.function code none)
  | v => pure v

/-- A value as its declaration takes it. -/
def conformed (declared : Option Ty) (v : Value) : StoreM Value :=
  match declared with
  | some t => if t.isInterface then v.unchanged else do (← v.unchanged).coerce t
  | none => v.unchanged

/-- What a constant is bound to whose value stands in code. -/
def declaredAs (r : TableRef) (declared : Option Ty) (v : Value) : StoreM Value := do
  (← v.asPushed r).conformed declared

theorem asPushed_within {R : Store → Store → Prop} (h : Store.AddsObjects R) (r : TableRef) (v : Value) :
    StoreM.Within R (v.asPushed r) := by
  unfold asPushed
  split
  · refine .bind h (.get h) fun s => ?_
    cases (s.code _).scopeRule <;> exact .pure h _
  · exact .pure h _

theorem conformed_within {R : Store → Store → Prop} (h : Store.AddsObjects R) (declared : Option Ty)
    (v : Value) : StoreM.Within R (v.conformed declared) := by
  unfold conformed
  split
  · exact .ite (unchanged_within h v) (.bind h (unchanged_within h v) fun v => coerce_within h v _)
  · exact unchanged_within h v

theorem conformed_converts (declared : Option Ty) (v : Value) :
    StoreM.Converts Proper (v.conformed declared) := by
  unfold conformed
  split
  · exact .ite (unchanged_converts v) (.bind (unchanged_converts v) fun v _ => coerceAs_converts _ _ v)
  · exact unchanged_converts v

theorem declaredAs_within {R : Store → Store → Prop} (h : Store.AddsObjects R) (r : TableRef)
    (declared : Option Ty) (v : Value) : StoreM.Within R (v.declaredAs r declared) :=
  .bind h (asPushed_within h r v) (conformed_within h declared)

theorem declaredAs_converts (r : TableRef) (declared : Option Ty) (v : Value) :
    StoreM.Converts Proper (v.declaredAs r declared) := by
  have pushed : StoreM.Converts (fun _ => True) (v.asPushed r) := by
    unfold asPushed
    split
    · refine .bind .get fun s _ => ?_
      cases (s.code _).scopeRule <;> exact .pure trivial
    · exact .pure trivial
  exact .bind pushed fun x _ => conformed_converts declared x

/-- Where no type is declared, a value other than a function is bound as it is. -/
theorem declaredAs_none (r : TableRef) {v : Value} (proper : v.Proper) (data : v.kind ≠ .function) :
    v.declaredAs r none = pure v := by
  have pushed : v.asPushed r = pure v := by
    cases v with
    | function => exact absurd rfl data
    | _ => rfl
  rw [declaredAs, pushed, pure_bind]
  exact proper.unchanged

end Value

/-! ## Running a declaration -/

namespace Exec.Does

variable {c : Context} {w : World} {stack : Array Value}

theorem pushOperand (v : Value) :
    Does c w (Exec.pushOperand (.value v)) stack (v.asPushed c.scope) stack.push fun _ => () := by
  cases v with
  | function code env =>
    cases env with
    | none =>
      refine fun pc s => ?_
      unfold Exec.pushOperand Value.asPushed
      dsimp only
      rw [StoreM.bind_of_ok (StoreM.get_eq s), bind_of_ok (a := s.code code) rfl]
      cases (s.code code).scopeRule <;> rfl
    | some _ => exact .push _ stack
  | _ => exact .push _ stack

theorem declareConstant (high : c.base ≤ stack.size) (name : String) (v : Value) :
    Does c w (Exec.declareConstant (.name name)) (stack.push v)
      (do c.scope.setConstant name (← v.unchanged)) (fun _ => stack) fun _ => () :=
  .first (of_ok name fun _ _ => rfl) <| .bind (.popValue high v) fun v =>
    .first (.ofContext Context.scope (fun _ _ => rfl) stack) (.lift (c.scope.setConstant name v) stack)

end Exec.Does

section

variable {c : Context} {w : World} {s : Store} {code : Code} {pc : Nat} {stack : Array Value}
variable {declared : Option Ty} {name : String} {v : Value}

/-- The declaration of a constant computes what it is bound to and binds it. -/
theorem constantCode_computes (placed : Placed code pc (constantCode declared name v))
    (high : c.base ≤ stack.size) :
    Computes c w code pc (pc + (constantCode declared name v).length) stack
      (do c.scope.setConstant name (← v.declaredAs c.scope declared)) fun _ => stack := by
  have pushes : Computes c w code pc (pc + 1) stack (v.asPushed c.scope) stack.push :=
    .instruction placed.left.left.head (by rintro ⟨⟩) (Exec.Does.pushOperand v)
  have binds {pc : Nat} (x : Value) (there : Placed code pc [⟨.constant, .name name⟩]) :
      Computes c w code pc (pc + 1) (stack.push x) (do c.scope.setConstant name (← x.unchanged))
        fun _ => stack := .instruction there.head (by rintro ⟨⟩) (Exec.Does.declareConstant high name x)
  rw [constantCode, List.append_assoc, List.length_append, ← Nat.add_assoc]
  rw [constantCode, List.append_assoc] at placed
  have later := placed.right
  simp only [Value.declaredAs, bind_assoc]
  refine pushes.bind (Value.asPushed_within Store.addsObjects_codes _ v).store fun x => ?_
  cases declared with
  | none => exact binds x later
  | some t =>
    simp only [Value.conformed, declaredCode] at later ⊢
    by_cases interface : t.isInterface = true
    · rw [if_pos interface] at later ⊢
      rw [if_pos interface]
      exact binds x later
    · rw [if_neg interface] at later ⊢
      rw [if_neg interface]
      have coerces : Computes c w code (pc + 1) (pc + 2) (stack.push x)
          (do (← x.unchanged).coerce t) stack.push :=
        .instruction later.head (by rintro ⟨⟩) (Exec.Does.coerceTop high t x)
      have grows := StoreM.Within.bind Store.addsObjects_codes
        (Value.unchanged_within Store.addsObjects_codes x) fun y => y.coerce_within Store.addsObjects_codes t
      refine coerces.bindOf grows.store fun y evaluates => ?_
      obtain ⟨s, s', made⟩ := evaluates
      -- what a conversion makes is no marker
      have proper : y.Proper := by
        have here := StoreM.Converts.bind (Value.unchanged_converts x)
          (fun x _ => Value.coerceAs_converts t t x) s
        rw [show (x.unchanged >>= Value.coerceAs t t) s = _ from made] at here
        exact here
      have last := binds y later.tail
      rwa [proper.unchanged, pure_bind] at last

/-- Where a run gets to the declaration of a constant in a unit, the name is bound to what the
declared type makes of the value, which is the value itself if none is declared, unless the value is
not converted or the name is bound already. -/
def Code.BindsConstant (unit : Code) (pc : Nat) (declared : Option Ty) (name : String) (v : Value) :
    Prop :=
  ∀ (c : Context) (w : World) (s : Store) (stack : Array Value), s.code c.code = unit →
    c.base ≤ stack.size → c.scope.index < s.tables.size →
      (∃ n x t s', Steps n ⟨c.at pc stack, w, s⟩
          ⟨c.at (pc + (constantCode declared name v).length) stack, w, s'⟩ ∧
        v.declaredAs c.scope declared s = (.ok x, t) ∧
        (declared = none → v.Proper → v.kind ≠ .function → x = v) ∧
        (s'.table c.scope).binding? name = some { value := x, readonly := true, constant := true }) ∨
      ∃ n f e, Fails n ⟨c.at pc stack, w, s⟩ f e ∧ (f.IsConversion ∨ f = .about .symbolExists name)

/-- The instructions that declare a constant bind it. -/
theorem constantCode_binds (placed : Placed code pc (constantCode declared name v)) :
    code.BindsConstant pc declared name v := by
  intro c w s stack here high there
  have computes := constantCode_computes (w := w) placed high s here
  have tables := (Value.declaredAs_within Store.addsObjects_tables c.scope declared v).store s
  have converts := Value.declaredAs_converts c.scope declared v s
  rcases made : v.declaredAs c.scope declared s with ⟨f | x, t⟩ <;> rw [made] at tables converts
  · rw [StoreM.bind_of_error made] at computes
    obtain ⟨n, pc', left, fails⟩ := computes
    exact .inr ⟨n, f, _, fails, .inl converts⟩
  · rw [StoreM.bind_of_ok made] at computes
    rcases set : c.scope.setConstant name x t with ⟨f | _, s'⟩ <;> rw [set] at computes
    · obtain ⟨n, pc', left, fails⟩ := computes
      refine .inr ⟨n, f, _, fails, .inr ?_⟩
      unfold TableRef.setConstant at set
      rw [StoreM.bind_of_ok (StoreM.get_eq t)] at set
      split at set <;> cases set
      rfl
    · obtain ⟨n, steps⟩ := computes
      refine .inl ⟨n, x, t, s', steps, rfl, fun none proper data => ?_,
        (TableRef.setConstant_locks name x t (tables.symm ▸ there) set).found⟩
      subst none
      rw [Value.declaredAs_none c.scope proper data] at made
      cases made
      rfl

end

/-! ## Constants that are recorded -/

namespace Compiler.Unfailed

open CompileM

variable {c c' : Compiler} {code unit : Code} {name : String} {v : Value}

/-- For every constant that is recorded with what comes of a source, or with a function or package in
it, a declaration was written that pushes the recorded value. Unless no run can get to it, so that it
was deleted when the unit was sealed, the unit holds this declaration and binds the constant with
it. -/
theorem constants_declared (h : c.Unfailed) {source : String}
    (compiled : compile source c = (.ok code, c') ∨ compileExpression source c = (.ok code, c'))
    (part : Code.Part c'.codes code unit)
    (recorded : Association.find? name unit.constants = some v) :
    ∃ (declared : Option Ty) (written : Code) (move : Nat → Nat) (kept : Nat → Prop) (pc : Nat),
      Trimming written unit move kept ∧ Placed written pc (constantCode declared name v) ∧
      (kept pc → Placed unit (move pc) (constantCode declared name v) ∧
        unit.BindsConstant (move pc) declared name v) := by
  obtain ⟨whole, finished⟩ := h.finished compiled
  obtain ⟨written, move, kept, trims, declares⟩ := (whole.part finished part).recorded
  obtain ⟨declared, pc, placed⟩ := declares _ (Association.mem_of_find? recorded)
  refine ⟨declared, written, move, kept, pc, trims, placed, fun live => ?_⟩
  have there := (Movable.plain (constantCode_plain declared name v)).placed_sealed trims placed live
  exact ⟨there, constantCode_binds there⟩

/-- The unit of a source that declares a number. -/
theorem number_declared : ∃ (code : Code) (c' : Compiler),
    compile "const n = 1" (.new "main" {}) = (.ok code, c') ∧
      ∃ (declared : Option Ty) (written : Code) (move : Nat → Nat) (kept : Nat → Prop) (pc : Nat),
        Trimming written code move kept ∧ Placed written pc (constantCode declared "n" (.int 1)) ∧
        (kept pc → Placed code (move pc) (constantCode declared "n" (.int 1)) ∧
          code.BindsConstant (move pc) declared "n" (.int 1)) := by
  have facts : (fun r : Except Fault Code × Compiler =>
      (r.1.mapError (·.kind)).map fun code => Association.find? "n" code.constants)
        (compile "const n = 1" (.new "main" {})) = .ok (some (.int 1)) := by
    with_unfolding_all rfl
  rcases run : compile "const n = 1" (.new "main" {}) with ⟨_ | code, c'⟩ <;> rw [run] at facts
  · cases facts
  · exact ⟨code, c', rfl, constants_declared (.new "main" {}) (.inl run) .whole (Except.ok.inj facts)⟩

end Compiler.Unfailed

open StoreM (Sparing)
open Machine (Turn Comes)

/-- No unit binds or removes names whatever their attributes. -/
def Store.Heeds (s : Store) : Prop :=
  ∀ code ∈ s.codes, ∀ i ∈ code.instructions, Exec.overrides i.op = false

theorem Store.Heeds.code {s : Store} (h : s.Heeds) (r : CodeRef) :
    ∀ i ∈ (s.code r).instructions, Exec.overrides i.op = false := by
  intro i mem
  by_cases there : r.index < s.codes.size
  · have same : s.code r = s.codes[r.index] := by simp [Store.code, there]
    rw [same] at mem
    exact h _ (Array.getElem_mem there) i mem
  · simp [Store.code, there] at mem

theorem Store.Grows.heeds {s s' : Store} (grows : s.Grows s') (h : s'.Heeds) : s.Heeds := by
  obtain ⟨more, codes⟩ := grows
  exact fun code mem => h code (codes ▸ Array.mem_append_left more mem)

variable {kept : String → Prop}

/-! ## Instructions -/

namespace Exec

/-- The parts of instructions keep constants. -/
theorem holding_rules : Rules fun _ m => Holding kept m where
  pure := .pure
  throw := .throw
  bind := .bind
  read _ := holding_of_context fun _ _ _ => rfl
  modifyContext _ := holding_of_context fun _ _ _ => rfl
  push _ := holding_of_context fun _ _ _ => rfl
  pushAll _ := holding_of_context fun _ _ _ => rfl
  pop := holding_of_context fun _ _ _ => by unfold pop; split <;> rfl
  popValue := holding_of_context fun _ _ _ => by
    unfold popValue
    split
    · rfl
    · dsimp only
      split <;> rfl
  popMany _ := holding_of_context fun _ _ _ => by unfold popMany; split <;> rfl
  peek _ := holding_of_context fun _ _ _ => by unfold peek; split <;> rfl
  cut _ := holding_of_context fun _ _ _ => rfl
  compute sparing := holding_of_sparing sparing
  set r name v := holding_of_store fun _ s => TableRef.set_holds r name v s
  create r name := holding_of_store fun _ s => TableRef.create_holds r name s
  setConstant r name v := holding_of_store fun _ s => TableRef.setConstant_holds r name v s
  openScope := fun (_, w, s) => ⟨.refl w, .of_spares (.newTable s _)⟩
  write _ := holding_of_world (WorldM.write_holding _)
  takeReceiver := holding_of_context fun _ _ _ => rfl
  native f call := fun (_, w, s) => Native.run_holding call f (w, s)

theorem enterTry_holding (operand : Operand) : Holding kept (enterTry operand) :=
  .bind (holding_rules.addressOf operand) fun _ => holding_of_context fun _ _ _ => rfl

theorem leaveTry_holding : Holding kept leaveTry := by
  refine .bind (holding_rules.ofContext _) fun tries => ?_
  split
  · exact .throw _
  · exact holding_of_context fun _ _ _ => rfl

theorem leave_holding (count : Nat) : Holding kept (leave count) := by
  refine .bind (holding_rules.ofContext _) fun depth => .ite (.throw _) ?_
  refine .bind (holding_rules.popMany count) fun vs => .bind ?_ fun frame => ?_
  · exact holding_of_context fun _ _ _ => rfl
  · split
    · exact .bind (holding_of_context fun _ _ _ => rfl) fun _ => holding_rules.pushResults _ _
    · exact .throw _

/-- A call binds names in a new table only. -/
theorem callFunction_holding (code : CodeRef) (captured : Option TableRef) (args : List Value)
    (receiver : Option Value) (multi : Bool) :
    Holding kept (callFunction code captured args receiver multi) := by
  refine .bind (holding_of_sparing (.array _ _)) fun args => ?_
  rintro ⟨c, w, s⟩
  refine ⟨.refl w, ?_⟩
  have opens : ∃ t : Table, calleeScope (s.code code) captured c.scope s = s.newTable t := by
    unfold calleeScope
    split <;> exact ⟨_, rfl⟩
  obtain ⟨t, opened⟩ := opens
  have older (r : TableRef) (there : r.index < s.tables.size) : r ≠ (s.newTable t).1 := by
    rintro rfl
    exact Nat.lt_irrefl _ there
  have same (r : TableRef) (there : r.index < s.tables.size) :
      (s.newTable t).2.table r = s.table r := (Store.Spares.newTable s t).table there
  simp only [Stateful.run, Stateful.store, opened]
  cases receiver with
  | none =>
    refine .of_older (.of_codes rfl) fun r there => ?_
    exact (Store.table_modifyTable_of_ne _ (older r there) _).trans (same r there)
  | some v =>
    refine .of_older (.of_codes rfl) fun r there => ?_
    refine (Store.table_modifyTable_of_ne _ (older r there) _).trans ?_
    exact (Store.table_modifyTable_of_ne _ (older r there) _).trans (same r there)

theorem applyValue_holding (callee : Value) (args : List Value) (receiver : Option Value)
    (multi : Bool) : Holding kept (applyValue callee args receiver multi) := by
  unfold applyValue
  split
  · exact .bind (callFunction_holding _ _ _ _ _) fun _ => .pure _
  · exact holding_rules.callNative _ _ _ _
  · exact .bind (holding_rules.callType _ _) fun _ => .pure _
  · exact .bind (holding_rules.ofStore _) fun _ => .throw _

theorem call_holding (operand : Operand) : Holding kept (call operand) := by
  rw [call_eq]
  refine .bind (holding_rules.readCall operand) fun (count, flags) => ?_
  refine .bind (holding_rules.spreadCount count flags) fun total => ?_
  refine .bind (holding_rules.popValues total) fun args => ?_
  refine .bind holding_rules.popValue fun callee => .bind ?_ fun receiver => ?_
  · exact .ite holding_rules.takeReceiver (.pure _)
  · exact applyValue_holding callee args receiver _

/-- What overrides the attributes of names leaves the units alone all the same. -/
theorem explode_holding (unkept : ∀ name, ¬kept name) : Holding kept explode := by
  refine .bind holding_rules.popValue fun v => ?_
  split
  · refine .bind (holding_rules.ofStore _) fun o => .bind (holding_rules.ofContext _) fun t => ?_
    rintro ⟨c, w, s⟩
    refine ⟨.refl w, ?_⟩
    change s.Holds kept w.root (List.foldl _ s o.keys)
    generalize o.keys = names
    induction names generalizing s with
    | nil => exact .refl s
    | cons name rest ih =>
      refine .trans ?_ (ih _)
      dsimp only
      split
      · exact .setAlways (.inr (.inl (unkept _))) _
      · exact .refl s
  · exact holding_rules.wrongType _

theorem deleteName_holding (unkept : ∀ name, ¬kept name) (operand : Operand) :
    Holding kept (deleteName operand) := by
  refine .bind (holding_rules.nameOf operand) fun name => ?_
  refine .bind (holding_rules.ofContext _) fun r => ?_
  refine holding_of_store fun root s => ?_
  unfold TableRef.delete
  rw [StoreM.bind_of_ok (StoreM.get_eq s)]
  cases (s.table r).binding? name with
  | none => exact .refl s
  | some b =>
    dsimp only
    split
    · exact .refl s
    · exact .of_unkept (.of_codes rfl) (fun _ => s.parent_modifyTable fun _ => rfl) unkept

theorem perform_holding {i : Instruction} (heeds : overrides i.op = false ∨ ∀ name, ¬kept name) :
    Holding kept (perform i) := by
  cases plain : delimits i.op with
  | true =>
    obtain ⟨op, operand⟩ := i
    cases op <;> cases plain
    · exact .pure _
    · exact leave_holding _
    · exact leaveTry_holding
    · exact enterTry_holding operand
  | false =>
    obtain heeds | unkept := heeds
    · exact holding_rules.perform plain heeds
    · cases overriding : overrides i.op with
      | false => exact holding_rules.perform plain overriding
      | true =>
        obtain ⟨op, operand⟩ := i
        cases op <;> cases overriding
        · exact explode_holding unkept
        · exact deleteName_holding unkept operand

theorem step_holds (c : Context) (w : World) {s : Store} (heeds : s.Heeds ∨ ∀ name, ¬kept name) :
    HoldsAt kept step (c, w, s) := by
  have still : HoldsAt kept fetch (c, w, s) :=
    holding_of_context (fun c w s => by unfold fetch; split <;> rfl) (c, w, s)
  refine still.bind fun next fetched => ?_
  cases next with
  | none =>
    refine Holding.bind (holding_rules.ofContext _) (fun depth => ?_) _
    exact .ite (.bind (leave_holding 0) fun _ => .pure _) (.pure _)
  | some i =>
    have heeding : overrides i.op = false ∨ ∀ name, ¬kept name := by
      refine heeds.imp_left fun heeds => heeds.code c.code i ?_
      simp only [Stateful.run, fetch] at fetched
      split at fetched
      · rename_i here
        cases fetched
        exact Array.mem_of_getElem? here
      · cases fetched
    refine Holding.ite (.bind (call_holding i.operand) fun answer => ?_)
      (.bind (perform_holding heeding) fun _ => .pure _) _
    split <;> exact .pure _

end Exec

/-! ## Turns -/

theorem Context.handle_holds (unkept : ¬kept caughtName) (c : Context) (f : Fault)
    (root : TableRef) (s : Store) : s.Holds kept root (c.handle f s).2.2 := by
  have caught (c : Context) (f : Fault) {c' : Context} {s' : Store}
      (h : c.catch? f s = some (c', s')) : s.Holds kept root s' := by
    unfold catch? at h
    split at h
    · cases h
    · split at h <;> cases h
      exact .setAlways (.inr (.inl unkept)) _
  unfold handle
  split
  · exact .refl s
  · exact .refl s
  · dsimp only
    split
    · rename_i handled
      split at handled
      · cases handled
      · exact caught c _ handled
    · exact .refl s

theorem Wait.poll_spares {wait : Wait} {v : Value} {w : World} {s s' : Store}
    (come : wait.poll w s = some (v, s')) : s.Spares s' := by
  have received (v : Value) (isMessage multiple : Bool) (s : Store) :
      s.Spares (received v isMessage multiple s).2 := by
    cases multiple <;> exact .of_same rfl rfl
  cases wait with
  | never => cases come
  | clock | group | lock | send =>
    simp only [poll] at come
    split at come <;> cases come
    exact .of_same rfl rfl
  | receive r multiple =>
    simp only [poll] at come
    split at come
    · rename_i v rest _
      have taken := received v true multiple (s.modifyChannel r ({ · with buffer := rest }))
      rw [Option.some.inj come] at taken
      exact ⟨taken.codes, taken.tables⟩
    · split at come
      · have zero := (Sparing.zero (s.channel r).element).store s
        rcases ran : Value.zero (s.channel r).element s with ⟨_ | v, s₁⟩ <;> rw [ran] at come zero
        · have taken := received .nil false multiple s₁
          rw [Option.some.inj come] at taken
          exact zero.trans taken
        · have taken := received v false multiple s₁
          rw [Option.some.inj come] at taken
          exact zero.trans taken
      · cases come

theorem evaluation_holds (source : String) (table : TableRef) (w : World) (root : TableRef)
    (s : Store) : s.Holds kept root (evaluation source table w s).2 := by
  refine .of_tables (@evaluation_moved .still s (Nat.zero_le _) source table w).2 ?_
  let compiler : Compiler := .new evaluationName w.settings
  have tables : ((CompileM.compileExpression source).into compiler s).2.2.tables = s.tables := rfl
  rcases ran : (CompileM.compileExpression source).into compiler s with ⟨_ | code, c, s'⟩ <;>
    rw [ran] at tables
  · rw [evaluation_error table ran]
    exact tables
  · rw [evaluation_ok table ran]
    exact tables

/-- A turn keeps constants where no unit overrides the attributes of names. -/
theorem Machine.Turn.holds {a b : World × Store} (turn : Turn a b)
    (unkept : ¬kept Context.caughtName) (heeds : a.2.Heeds ∨ ∀ name, ¬kept name) :
    b.1.root = a.1.root ∧ a.2.Holds kept a.1.root b.2 := by
  cases turn with
  | step c w s =>
    obtain ⟨launches, holds⟩ := Exec.step_holds c w heeds
    exact ⟨launches.root, holds⟩
  | handle c f w s => exact ⟨rfl, c.handle_holds unkept f w.root s⟩
  | complete call result c w s =>
    obtain ⟨launches, holds⟩ := Exec.holding_rules.complete call result (c, w, s)
    exact ⟨launches.root, holds⟩
  | poll come => exact ⟨rfl, .of_spares (Wait.poll_spares come)⟩
  | invoke f args receiver table w s => exact ⟨rfl, .newCode s _⟩
  | evaluate source table w s => exact ⟨rfl, evaluation_holds source table w w.root s⟩
  | results c w s => exact ⟨rfl, .of_tables (.of_codes (c.results_codes s)) (by
      unfold Context.results
      split <;> rfl)⟩
  | sorted o w s => exact ⟨rfl, .of_tables (.of_codes rfl) rfl⟩
  | launched w s | done w s | clock time w s => exact ⟨rfl, .refl s⟩
  | unit code w s => exact ⟨rfl, .newCode s code⟩
  | table parent name w s => exact ⟨rfl, .of_spares (.newTable s _)⟩

theorem Machine.Turn.grows {a b : World × Store} (turn : Turn a b) : a.2.Grows b.2 :=
  (@holds (fun _ => False) a b turn id (.inr fun _ => id)).2.grows

theorem Machine.Comes.holds {a b : World × Store} (come : Comes a b)
    (unkept : ¬kept Context.caughtName) (heeds : b.2.Heeds) :
    b.1.root = a.1.root ∧ a.2.Holds kept a.1.root b.2 := by
  induction come with
  | refl => exact ⟨rfl, .refl _⟩
  | tail _ turn ih =>
    have heeds := turn.grows.heeds heeds
    obtain ⟨root, before⟩ := ih heeds
    obtain ⟨root', after⟩ := turn.holds unkept (.inl heeds)
    exact ⟨root'.trans root, before.trans (root ▸ after)⟩

/-! ## Constants -/

namespace Exec

variable {c c' : Context} {w w' : World} {s s' : Store} {operand : Operand}

theorem popValue_keeps {r : Except Fault Value} (h : popValue c w s = (((r, c'), w'), s')) :
    w' = w ∧ s' = s := by
  unfold popValue at h
  split at h
  · cases h
    exact ⟨rfl, rfl⟩
  · dsimp only at h
    split at h <;> cases h <;> exact ⟨rfl, rfl⟩

/-- What a declaration of a constant does that has succeeded. -/
theorem declareConstant_ok (h : declareConstant operand c w s = (((.ok (), c'), w'), s')) :
    ∃ name v, operand.asName? = some name ∧ c.stack.back? = some v ∧ w' = w ∧
      c.scope.setConstant name v s = (.ok (), s') := by
  unfold declareConstant nameOf at h
  cases named : operand.asName? with
  | none =>
    rw [named] at h
    cases h
  | some name =>
    rw [named] at h
    simp only [pure_bind] at h
    obtain ⟨v, c₁, w₁, s₁, popped, stored⟩ := bind_ok h
    obtain ⟨stack, top, rfl⟩ := popValue_ok popped
    obtain ⟨rfl, rfl⟩ := popValue_keeps popped
    rcases bound : c.scope.setConstant name v s₁ with ⟨result, s₂⟩
    change (((((c.scope.setConstant name v s₁).1, _), _), (c.scope.setConstant name v s₁).2)) = _
      at stored
    rw [bound] at stored
    cases stored
    exact ⟨name, v, rfl, by simp [top], rfl, bound⟩

/-- Once a constant has been declared, its name is bound to its value in that table for good: in
everything that comes about afterwards, as long as no unit binds the fields of a struct to names,
as a dot import does. Only at the root, and under the name of a caught fault, constants are not
safe. -/
theorem declared_constants_hold
    (declared : declareConstant operand c w s = (((.ok (), c'), w'), s'))
    (there : c.scope.index < s.tables.size) (below : c.scope ≠ w.root) :
    ∃ name v, operand.asName? = some name ∧ c.stack.back? = some v ∧
      (name ≠ Context.caughtName → ∀ later : World × Store, Comes (w', s') later → later.2.Heeds →
        (later.2.table c.scope).binding? name =
          some { value := v, readonly := true, constant := true }) := by
  obtain ⟨name, v, named, top, rfl, bound⟩ := declareConstant_ok declared
  refine ⟨name, v, named, top, fun uncaught later come heeds => ?_⟩
  have locks := TableRef.setConstant_locks name v s there bound
  have holds := (@Machine.Comes.holds (· ≠ Context.caughtName) _ _ come (fun h => h rfl) heeds).2
  exact (holds.locks below uncaught locks).found

/-- A unit that declares a constant and then stores another number under its name. -/
def declaringStore : Store :=
  { codes := #[
      { name := "main"
        instructions := #[⟨.constant, .name "Pi"⟩, ⟨.push, .int 4⟩, ⟨.store, .name "Pi"⟩] }]
    tables := #[{ name := "root" }, { name := "main", parent := some ⟨0⟩, root := some ⟨0⟩ }] }

/-- The context of the unit at its first instruction, with the value on the stack. -/
def declaringContext : Context :=
  { moduleName := "main", code := ⟨0⟩, scope := ⟨1⟩, stack := #[.int 3], pc := 1
    strictness := .strict }

/-- The context and the store when the constant has been declared. -/
def afterDeclaring : Context × Store :=
  let r := declareConstant (.name "Pi") declaringContext {} declaringStore
  (r.1.1.2, r.2)

/-- The store is refused, and the constant is what it was. -/
theorem three_holds :
    (((afterDeclaring.1.run 2 {} afterDeclaring.2).2.2.2.2).table ⟨1⟩).binding? "Pi" =
      some { value := .int 3, readonly := true, constant := true } := by
  have declared : declareConstant (.name "Pi") declaringContext {} declaringStore =
      (((.ok (), afterDeclaring.1), {}), afterDeclaring.2) := rfl
  have heeds : (afterDeclaring.1.run 2 {} afterDeclaring.2).2.2.2.2.Heeds := by
    have codes : (afterDeclaring.1.run 2 {} afterDeclaring.2).2.2.2.2.codes =
        declaringStore.codes := rfl
    intro code mem i within
    rw [codes] at mem
    simp only [declaringStore, List.mem_toArray, List.mem_singleton] at mem
    subst mem
    simp only [List.mem_toArray, List.mem_cons, List.not_mem_nil, or_false] at within
    rcases within with rfl | rfl | rfl <;> rfl
  obtain ⟨name, v, named, top, holds⟩ :=
    declared_constants_hold declared (by decide) (by decide)
  cases named
  cases top
  exact holds (by decide) _ (afterDeclaring.1.run_comes {} afterDeclaring.2 2) heeds

end Exec

end StackScript
