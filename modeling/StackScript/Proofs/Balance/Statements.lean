import StackScript.Proofs.Balance.Expressions
import StackScript.Proofs.Settling.Blocks

/-!
# Statements leave the stack as it was

Between statements nothing is on the stack. Most statements take what their expressions push. Where
a call may leave any number of results, a marker lies below them, and the stack is cut back to it.
Code that was compiled on the side pushes one value wherever it is joined.

Main statements: `assignment_performs`, `expressionStatement_performs`, `goStatement_acts`,
`returnStatement_acts` and `importSpec_idles`.
-/
namespace StackScript

open CompileM

/-! ## Code on the side -/

/-- Code that pushes a value wherever it is joined. -/
def Code.Evaluates (code : Code) : Prop :=
  ∀ σ, code.Carries argumentLimit σ (.above 1 σ)

/-- The container of a target and its index are pushed by their code. -/
def CompileM.Target.Evaluates : Target → Prop
  | .name _ => True
  | .element container index => container.Evaluates ∧ index.Evaluates

/-- The last step of a chain is pushed by its code. -/
def CompileM.Access.Evaluates : Access → Prop
  | .index code => code.Evaluates
  | .field _ => True

namespace Code.Evaluates

variable {code : Code} {op : Opcode} {operand : Operand}

/-- One instruction that pushes a value. -/
theorem one (name : String) (h : Instruction.exchange ⟨op, operand⟩ = some (0, 1)) :
    (Code.push { name := name } ⟨op, operand⟩).Evaluates := fun _ =>
  Code.Laid.emit (.empty rfl) (.exchange h) (by rintro rfl; cases h)

/-- An instruction on the value that code pushes. -/
theorem turn (h : code.Evaluates) (turns : Instruction.exchange ⟨op, operand⟩ = some (1, 1)) :
    (code.push ⟨op, operand⟩).Evaluates := fun σ =>
  Code.Laid.emit (h σ) (.exchange turns) (by rintro rfl; cases turns)

end Code.Evaluates

namespace CompileM

open Compiler (At)

variable {rules : Nested} {k : Nat} {o : Sketch} {σ ρ : Spot} {s t : Nat}

theorem capture_evaluates {step : CompileM Unit} (h : Evaluates step) :
    Lays (At o σ) (capture step) fun code c => code.Evaluates ∧ c.At o σ := capture_lays h

theorem append_evaluates {code : Code} (h : code.Evaluates) : Evaluates (append code) :=
  fun σ => append_emits (h σ)

/-! ## Targets -/

theorem Access.code_evaluates {access : Access} (h : access.Evaluates) : access.code.Evaluates := by
  cases access with
  | index code => exact h
  | field name => exact .one _ rfl

/-- A step of a chain is taken with its container on the stack. -/
theorem Access.take_lays {container : Code} {access : Access} {P : Compiler → Prop}
    (h : container.Evaluates) (last : access.Evaluates) :
    Lays P (access.take container) fun code c => code.Evaluates ∧ P c := by
  cases access with
  | index code =>
    have joins : Lays P (joined container code) fun joint c =>
        (∀ σ, joint.Carries argumentLimit σ (.above 2 σ)) ∧ P c := by
      unfold joined
      cases ok : container.append code with
      | ok joint =>
        exact .pure fun _ before => ⟨fun σ => (h σ).append (last _) (Nat.le_refl _) ok, before⟩
      | error f => exact .refuses (throw_refuses (container.append_ordinary code f ok))
    exact joins.bind fun joint => .pure fun c ⟨two, before⟩ =>
      ⟨fun σ => (two σ).emit (.exchange (k := 2) (m := 1) rfl) nofun, before⟩
  | field name => exact .pure fun c before => ⟨h.turn rfl, before⟩

theorem nextAccess_lays (h : rules.Balances k) :
    Lays (At o σ) (nextAccess rules) fun access c => (∀ a ∈ access, a.Evaluates) ∧ c.At o σ := by
  refine .bind (Emits.quiet (accept_quiet _) _) fun _ => .ite (fun _ => ?_) fun _ =>
    .bind (Emits.quiet (accept_quiet _) _) fun _ => .ite (fun _ => ?_) fun _ => ?_
  · exact (capture_evaluates h.expression).bind fun code => .given fun pushes =>
      .bind (Emits.quiet (expect_quiet _) _) fun _ => .pure fun c here =>
        ⟨fun a mem => by cases mem; exact pushes, here⟩
  · exact .bind (Emits.quiet identifier_quiet _) fun name => .pure fun c here =>
      ⟨fun a mem => by cases mem; trivial, here⟩
  · exact .pure fun c here => ⟨nofun, here⟩

theorem target_lays (h : rules.Balances k) :
    Lays (At o σ) (target rules) fun t c => t.Evaluates ∧ c.At o σ := by
  refine .bind (Emits.quiet (accept_quiet _) _) fun _ => .bind (Emits.quiet identifier_quiet _) fun name =>
    .bind (Emits.quiet (isAnyNext_quiet _) _) fun _ => .ite (fun _ => .pure fun c here => ⟨trivial, here⟩)
      fun _ => ?_
  -- the container that was read so far and the step behind it push their values
  let Chain (_ : Nat) (state : Code × Option Access) (c : Compiler) : Prop :=
    (state.1.Evaluates ∧ ∀ a ∈ state.2, a.Evaluates) ∧ c.At o σ
  refine (Lays.repeatTurns (I := Chain) (fun _ _ ⟨container, pending⟩ => ?_) _).before fun c here =>
    ⟨⟨.one _ rfl, nofun⟩, here⟩
  refine .given fun ⟨pushes, behind⟩ => (nextAccess_lays h).bind fun access => .given fun found => ?_
  cases access with
  | some access =>
    cases pending with
    | some last =>
      exact (Access.take_lays pushes (behind last rfl)).bind fun code => .given fun taken =>
        .pure fun c here => ⟨⟨taken, found⟩, here⟩
    | none => exact .pure fun c here => ⟨⟨pushes, found⟩, here⟩
  | none =>
    cases pending with
    | some last => exact .pure fun c here => ⟨⟨pushes, Access.code_evaluates (behind last rfl)⟩, here⟩
    | none => exact .refuses (fail_refuses _ (by nofun))

theorem targetList_lays (h : rules.Balances k) :
    Lays (At o σ) (targetList rules) fun targets c => (∀ t ∈ targets, t.Evaluates) ∧ c.At o σ := by
  refine (target_lays h).bind fun first => .before (.repeatTurns
    (I := fun _ targets c => (∀ t ∈ targets, Target.Evaluates t) ∧ c.At o σ) (fun _ _ targets => ?_) _)
    fun c ⟨pushes, here⟩ => ⟨fun t mem => by cases List.mem_singleton.1 mem; exact pushes, here⟩
  refine .given fun known => .bind (Emits.quiet (accept_quiet _) _) fun _ => .ite (fun _ => ?_)
    fun _ => .pure fun c here => ⟨known, here⟩
  refine (target_lays h).bind fun next => .given fun pushes => .pure fun c here => ⟨fun t mem => ?_, here⟩
  rcases List.mem_append.1 mem with before | last
  · exact known t before
  · cases List.mem_singleton.1 last
    exact pushes

/-! ## Storing -/

theorem emitLoad_evaluates {t : Target} (h : t.Evaluates) : Evaluates (emitLoad t) := by
  intro σ
  cases t with
  | name name => exact emit_pushes rfl
  | element container index =>
    exact (append_evaluates h.1 _).bind fun _ => (append_evaluates h.2 _).bind fun _ =>
      emit_joins rfl

/-- The name of a target takes the value. -/
theorem storeName_emits (h : Tops σ ρ) (create : Bool) (name : String) :
    Emits σ ρ (emitStore create (.name name)) :=
  .ite (fun _ => h.takes rfl) fun _ => .optional (fun _ => h.keeps rfl) fun _ => h.takes rfl

/-- A target takes the value on top. -/
theorem emitStore_emits {t : Target} (h : t.Evaluates) (create : Bool) :
    Emits (.above 1 σ) σ (emitStore create t) := by
  cases t with
  | name name => exact storeName_emits .above create name
  | element container index =>
    have reads : Emits (.above 3 σ) (.above 4 σ) (emitInt .readStack 2) :=
      emit_emits (.readStack rfl (by decide)) nofun
    have drops : Emits (.above 2 σ) σ (emitInt .drop 2) := emit_exchange (k := 2) (m := 0) rfl
    exact (append_evaluates h.1 _).bind fun _ => (append_evaluates h.2 _).bind fun _ =>
      reads.bind fun _ => .bind (emit_folds rfl) fun _ => drops

/-- Where values are not counted, a target takes what lies on top, be it the marker. -/
theorem emitStore_loose {label : String} (noVoid : label ≠ "void") {target : Target}
    (h : target.Evaluates) (create : Bool) :
    Emits (.loose label s t) (.loose label s t) (emitStore create target) := by
  cases target with
  | name name => exact storeName_emits (.loose noVoid) create name
  | element container index =>
    have reads : Emits (.above 2 (.loose label s t)) (.topped (.above 2 (.loose label s t)))
        (emitInt .readStack 2) := emit_emits .readStack_any nofun
    -- what was read goes with the container and the index
    have stores : Emits (.topped (.above 2 (.loose label s t))) (.loose label s t)
        (emitOp .storeIndex) := by
      refine emit_emits (.of_exchange (k := 3) (m := 1) rfl ?_) nofun
      rintro p ⟨v, q, inside, rfl⟩ - out length tame
      obtain ⟨vs, q, two, -, under, rfl⟩ := Spot.mem_above.1 inside
      refine Spot.above_subset_loose noVoid (Spot.mem_above.2 ⟨out, q, length, tame, under, ?_⟩)
      rw [show 3 = (v :: vs).length by rw [List.length_cons, two], ← List.cons_append, List.drop_left]
    have drops : Emits (.loose label s t) (.loose label s t) (emitInt .drop 2) :=
      emit_loose (k := 2) (m := 0) noVoid rfl
    exact (append_evaluates h.1 _).bind fun _ => (append_evaluates h.2 _).bind fun _ =>
      reads.bind fun _ => stores.bind fun _ => drops

theorem emitStores_loose {label : String} (noVoid : label ≠ "void") {targets : List (Target × Bool)}
    (h : ∀ t ∈ targets, t.1.Evaluates) :
    Emits (.loose label s t) (.loose label s t) (emitStores targets) := by
  induction targets with
  | nil => exact .pure _
  | cons t rest ih =>
    rw [List.forall_mem_cons] at h
    exact (emitStore_loose noVoid h.1 t.2).bind fun _ => ih h.2

theorem emitDropTo_emits (m : Marker) :
    Emits (.loose m.label s t) (.level s t) (emitDropTo m) := emit_emits (.dropToMarker rfl) nofun

theorem emitMarker_emits (m : Marker) : Emits σ (.marked m σ) (emitMarker m) :=
  emit_emits (.marker m) nofun

/-! ## Assignments -/

theorem declareAll_idles (names : List String) : Idles (declareAll names) := by
  intro σ
  induction names with
  | nil => exact .pure _
  | cons name rest ih =>
    exact .ite (fun _ => (declare_idles name σ).bind fun _ => .ite (fun _ =>
      .bind (.quiet atTopLevel_quiet) fun _ => .optional (fun _ => exportName_idles name σ) fun _ => ih)
        fun _ => ih) fun _ => ih

theorem declareTargets_idles (targets : List Target) : Idles (declareTargets targets) := fun _ =>
  .bind (.quiet (targetNames_quiet _)) fun names => .bind (.quiet (areNew_quiet _)) fun _ =>
    .guarded (fail_refuses _ (by nofun)) <| (declareAll_idles names _).bind fun _ => .pure _

/-- Whatever values there are, the marker below them is the end of them. -/
theorem assignSeveral_performs (h : rules.Balances k) {targets : List (Target × Bool)}
    (pushes : ∀ t ∈ targets, t.1.Evaluates) : Performs (assignSeveral rules targets) := by
  intro s t o
  have noVoid : Marker.values.label ≠ "void" := by decide
  have reversed : ∀ t ∈ targets.reverse, t.1.Evaluates := fun t mem =>
    pushes t (List.mem_reverse.1 mem)
  have marked : Spot.marked .values (.level s t) ⊆ .loose Marker.values.label s t :=
    Spot.marked_subset_loose
  have stores : ∀ (count : Nat) (fromCall : Bool), Emits (.loose Marker.values.label s t) (.level s t) (do
      if fromCall then emitStores targets
      else
        if count ≠ targets.length then
          failAbout .invalidAssignment
            (Decimal.ofNat targets.length ++ " targets, " ++ Decimal.ofNat count ++ " values")
        emitStores targets.reverse
      emitDropTo .values) := fun _ _ =>
    .ite (fun _ => (emitStores_loose noVoid pushes).bind fun _ => emitDropTo_emits _) fun _ =>
      .guarded (failAbout_refuses _ _ (by nofun)) <|
        (emitStores_loose noVoid reversed).bind fun _ => emitDropTo_emits _
  have counted (count : Nat) (fromCall : Bool) := (stores count fromCall).mono
    ((Spot.above_mono marked).trans (Spot.above_subset_loose (n := count) noVoid)) subset_rfl
  have called (fromCall : Bool) := (stores 1 fromCall).mono
    (Spot.given_subset_loose noVoid true (by nofun) marked) subset_rfl
  refine (emitMarker_emits .values o).bind fun _ => (expressionList_lays h).bind fun count =>
    .given fun _ => .ite (fun one => ?_) fun _ => (Emits.pure false o).bind fun _ => counted count _ o
  subst one
  exact (requestMultiple_emits o).bind fun _ => called _ o

theorem assignsTo_performs (h : rules.Balances k) (targets : List (Target × Bool)) :
    (∀ t ∈ targets, t.1.Evaluates) → Performs (match targets with
      | [(t, create)] => do
        rules.expression
        emitStore create t
      | all => assignSeveral rules all) := by
  intro pushes s t
  split
  · next target create =>
    exact (h.expression _).bind fun _ => emitStore_emits (pushes _ (List.mem_singleton.2 rfl)) create
  · exact assignSeveral_performs h pushes s t

theorem assignValues_performs (h : rules.Balances k) {targets : List Target}
    (pushes : ∀ t ∈ targets, t.Evaluates) (define : Bool) :
    Performs (assignValues rules targets define) := fun s t => by
  have assigns (new : List Bool) := assignsTo_performs h (targets.zip new)
    (fun t mem => pushes t.1 (List.of_mem_zip mem).1) s t
  exact .ite (fun _ => (declareTargets_idles _ _).bind assigns) fun _ => .bind (.pure _) assigns

theorem combine_idles {targets : List Target} (pushes : ∀ t ∈ targets, t.Evaluates)
    {value : CompileM Unit} (h : Evaluates value) {op : Opcode}
    (joins : Instruction.exchange ⟨op, .none⟩ = some (2, 1)) : Idles (combine targets value op) := by
  intro σ
  unfold combine
  split
  · next t =>
    have pushes := pushes t (List.mem_singleton.2 rfl)
    exact (emitLoad_evaluates pushes _).bind fun _ => (h _).bind fun _ =>
      .bind (emit_joins joins) fun _ => emitStore_emits pushes false
  · exact .refuses (fail_refuses _ (by nofun))

theorem assignment_performs (h : rules.Balances k) : Performs (assignment rules) := by
  refine fun s t o => (targetList_lays h).bind fun targets => .given fun pushes =>
    .bind (Emits.quiet next_quiet _) fun op => ?_
  have one : Evaluates (emitValue (.int 1)) := fun _ => emitValue_pushes nofun
  extract_lets isMark
  split
  · exact combine_idles pushes h.expression rfl _ o
  · exact combine_idles pushes h.expression rfl _ o
  · exact combine_idles pushes h.expression rfl _ o
  · exact combine_idles pushes h.expression rfl _ o
  · exact assignValues_performs h pushes _ s t o
  · exact assignValues_performs h pushes _ s t o
  · exact .ite (fun _ => combine_idles pushes one rfl _ o) fun _ =>
      .ite (fun _ => combine_idles pushes one rfl _ o) fun _ =>
        .bind (Emits.quiet (back_quiet _) _) fun _ => .refuses (fail_refuses _ (by nofun))

/-! ## Declarations -/

theorem group_emits (skipped : List String) {spec : CompileM Unit} (h : Emits σ σ spec) :
    Emits σ σ (group skipped spec) :=
  .bind (.quiet skip_quiet) fun _ => .bind (.quiet (accept_quiet _)) fun _ => .ite (fun _ => h) fun _ =>
    .repeatWhile <| .bind (.quiet (accept_quiet _)) fun _ => .ite (fun _ => .pure _) fun _ =>
      .bind (.quiet atEnd_quiet) fun _ => .guarded (fail_refuses _ (by nofun)) <|
        .bind (.quiet (isAnyNext_quiet _)) fun _ => .ite
          (fun _ => .bind (.quiet skip_quiet) fun _ => .pure _) fun _ => h.bind fun _ => .pure _

/-- As many values are bound as there are names. -/
theorem bindAll_emits (declared : Option Ty) (names : List String) :
    Emits (.above names.length σ) σ (bindAll declared names) := by
  induction names with
  | nil => exact .pure _
  | cons name rest ih =>
    exact (emitDeclared_emits .above _).bind fun _ => (createAndStore_emits .above _).bind fun _ => ih

theorem bindAll_loose {label : String} (noVoid : label ≠ "void") (declared : Option Ty)
    (names : List String) : Emits (.loose label s t) (.loose label s t) (bindAll declared names) := by
  induction names with
  | nil => exact .pure _
  | cons name rest ih =>
    exact (emitDeclared_emits (.loose noVoid) _).bind fun _ =>
      (createAndStore_emits (.loose noVoid) _).bind fun _ => ih

theorem bindZeros_idles (type : Ty) (names : List String) : Idles (bindZeros type names) := by
  intro σ
  induction names with
  | nil => exact .pure _
  | cons name rest ih =>
    exact (emitZero_evaluates _ σ).bind fun _ => (createAndStore_emits .above _).bind fun _ => ih

/-- The results of a call that is asked for all of them lie above a marker, if there are several. -/
theorem given_loose : Spot.given true (.level s t) ⊆ .loose Marker.results.label s t :=
  Spot.given_subset_loose (by decide) true (fun _ => subset_rfl) Spot.level_subset_loose

theorem bindValues_performs (h : rules.Balances k) (names : List String) (declared : Option Ty) :
    Performs (bindValues rules names declared) := by
  intro s t o
  have noVoid : Marker.results.label ≠ "void" := by decide
  refine (expressionList_lays h).bind fun count => .given fun _ => .ite (fun ⟨one, _⟩ => ?_) fun _ =>
    .guarded (fail_refuses _ (by nofun)) fun same => ?_
  · subst one
    exact (requestMultiple_emits o).bind fun _ => .guarded (fail_refuses _ (by nofun)) fun _ =>
      ((bindAll_loose noVoid _ _).mono given_loose subset_rfl o).bind fun _ => emitDropTo_emits _ o
  · rw [not_not.1 same, ← List.length_reverse]
    exact bindAll_emits _ _ o

theorem variableSpec_performs (h : rules.Balances k) : Performs (variableSpec rules) := fun s t => by
  refine .bind (.quiet nameList_quiet) fun names => .bind (.quiet (typeUnless_quiet _))
    fun declared => .bind (.quiet (accept_quiet _)) fun _ => .ite
      (fun _ => bindValues_performs h _ _ s t) fun _ => ?_
  cases declared with
  | some type => exact bindZeros_idles type names _
  | none => exact .refuses (fail_refuses _ (by nofun))

theorem constantSpec_idles (h : rules.Balances k) : Idles (constantSpec rules) := fun σ => by
  refine .bind (.quiet identifier_quiet) fun name => .bind (.quiet (typeUnless_quiet _))
    fun declared => .bind (.quiet (expect_quiet _)) fun _ o =>
      (capture_evaluates h.expression).bind fun code => .given fun pushes =>
        .read fun c => .guarded (failAbout_refuses _ _ (by nofun)) fun _ => ?_
  have declares : Emits σ σ (do
      append code
      emitDeclared declared
      if !(← declare name) then failAbout .duplicateDeclaration name
      if ← atTopLevel then exportName name
      emitName .constant name
      modify fun c => { c with constants := name :: c.constants }) :=
    (append_evaluates pushes _).bind fun _ => (emitDeclared_emits .above _).bind fun _ =>
      (declare_idles name _).bind fun _ => .guarded (failAbout_refuses _ _ (by nofun)) <|
        .bind (.quiet atTopLevel_quiet) fun _ => .optional (fun _ => exportName_idles name _) fun _ =>
          .bind (Tops.above.takes rfl) fun _ => .of_same fun _ => ⟨rfl, rfl, rfl, rfl, rfl⟩
  split
  · exact .bind (Emits.of_same (fun _ => ⟨rfl, rfl, rfl, rfl, rfl⟩) o) fun _ => declares o
  · exact declares o

theorem arrayStatement_idles (h : rules.Balances k) : Idles (arrayStatement rules) := fun _ =>
  .bind (.quiet skip_quiet) fun _ => .bind (.quiet identifier_quiet) fun name =>
    .bind (.quiet (expect_quiet _)) fun _ => (h.expression _).bind fun _ =>
      .bind (.quiet (expect_quiet _)) fun _ => .bind (.quiet (accept_quiet _)) fun _ => .ite
        (fun _ => (h.expression _).bind fun _ => .bind (emit_joins rfl) fun _ =>
          createAndStore_emits .above name)
        fun _ => .bind (emit_turns rfl) fun _ => createAndStore_emits .above name

theorem storeReserved_emits (field : String) {value : CompileM Unit} (h : Evaluates value) :
    Emits (.above 1 σ) (.above 1 σ) (storeReserved field value) :=
  .bind (emitValue_pushes nofun) fun _ => (h _).bind fun _ => emit_folds rfl

/-- What declares a struct type with the fields of its parent and its own. -/
theorem declaresStruct_idles (name : String) (parent : Option String) : Idles (do
    let types := (← get).types
    let inherited := (parent.bind fun p => Association.find? p types).bind Ty.fields?
    let t := (Ty.struct (extendFields (inherited.getD []) (← structFields parseType))).withName name
    addType name t
    modify fun c => { c with structTypes := name :: c.structTypes }
    emitName .load "new"
    emitValue (.type t)
    emitCall 1 {}
    storeReserved "__static" (emitValue (.bool true))
    match parent with
    | some p => storeReserved "__parent" (emitName .load p)
    | none => pure ()
    createAndStore name) := fun σ => by
  have static : Evaluates (emitValue (.bool true)) := fun _ => emitValue_pushes nofun
  have loads (p : String) : Evaluates (emitName .load p) := fun _ => emit_pushes rfl
  refine .read fun c => .bind (.quiet (structFields_quiet parseType_quiet)) fun _ =>
    .bind (.of_same fun _ => ⟨rfl, rfl, rfl, rfl, rfl⟩) fun _ =>
    .bind (.of_same fun _ => ⟨rfl, rfl, rfl, rfl, rfl⟩) fun _ =>
    .bind (emit_pushes rfl) fun _ => .bind (emitValue_pushes nofun) fun _ => emitCall_one.bind fun _ =>
    (storeReserved_emits _ static).bind fun _ => ?_
  cases parent with
  | some p => exact (storeReserved_emits _ (loads p)).bind fun _ => createAndStore_emits .above name
  | none => exact createAndStore_emits .above name

theorem structDeclaration_idles (name : String) : Idles (structDeclaration name) := fun _ =>
  .bind (.quiet (accept_quiet _)) fun _ => .ite
    (fun _ => .bind (.quiet identifier_quiet) fun _ => .bind (.pure _) fun _ =>
      declaresStruct_idles name _ _)
    fun _ => .bind (.pure _) fun _ => declaresStruct_idles name _ _

theorem typeStatement_idles : Idles typeStatement := fun σ => by
  refine .bind (.quiet skip_quiet) fun _ => .bind (.quiet identifier_quiet) fun name =>
    .bind (.quiet (accept_quiet _)) fun _ => ?_
  have declares : ∀ isStruct : Bool, Emits σ σ (do
      if isStruct then structDeclaration name
      else
        let t := (← parseType).withName name
        addType name t
        emitValue (.type t)
        createAndStore name) := fun _ =>
    .ite (fun _ => structDeclaration_idles name σ) fun _ => .bind (.quiet parseType_quiet) fun _ =>
      .bind (.of_same fun _ => ⟨rfl, rfl, rfl, rfl, rfl⟩) fun _ =>
        .bind (emitValue_pushes nofun) fun _ => createAndStore_emits .above name
  exact .ite (fun _ => .bind (.pure _) fun _ => declares _)
    fun _ => .bind (.quiet (isAnyNext_quiet _)) fun _ => declares _

/-! ## Simple statements -/

/-- What an expression leaves is removed down to the marker. -/
theorem expressionStatement_performs (h : rules.Balances k) : Performs (expressionStatement rules) := by
  intro s t
  have noVoid : Marker.call.label ≠ "void" := by decide
  have left : Spot.given true (.marked .call (.level s t)) ⊆ .loose Marker.call.label s t :=
    Spot.given_subset_loose noVoid true (fun same => absurd same (by decide)) Spot.marked_subset_loose
  exact (emitMarker_emits .call).bind fun _ => (h.expression _).bind fun _ =>
    (requestMultiple_emits.mono subset_rfl left).bind fun _ => .read fun _ =>
      .optional (fun _ => emit_loose (k := 1) (m := 0) noVoid rfl) fun _ => emitDropTo_emits _

theorem sendStatement_idles (h : rules.Balances k) : Idles (sendStatement rules) := fun σ => by
  have waits : Emits (.above 2 σ) (.above 1 (.receiving σ)) (emitOp .setThis) :=
    emit_emits (Spot.receiving_above (σ := σ) (n := 1) ▸ .setThis) nofun
  exact (h.expression σ).bind fun _ => .bind (.quiet (expect_quiet _)) fun _ =>
    .bind (emit_emits .dup nofun) fun _ => waits.bind fun _ => .bind (emit_turns rfl) fun _ =>
      (h.expression _).bind fun _ => .bind (emitCall_emits (show 1 ≤ argumentLimit by decide)
        (show false = true → 0 < 1 by nofun) true) fun _ => Tops.above.takes rfl

theorem simpleStatement_performs (h : rules.Balances k) : Performs (simpleStatement rules) := by
  refine fun s t => .bind (.quiet (.of_eq (fun _ _ => rfl) fun _ => .ok _)) fun form => ?_
  cases form with
  | assignment => exact assignment_performs h s t
  | send => exact sendStatement_idles h _
  | expression => exact expressionStatement_performs h s t

theorem printStatement_idles (h : rules.Balances k) : Idles (printStatement rules) := by
  refine fun σ => .bind (.quiet skip_quiet) fun _ => .bind (.quiet atStatementEnd_quiet) fun _ =>
    .ite (fun _ o => (expressionList_lays h).bind fun count => .given fun few => ?_)
      fun _ => emit_keeps rfl
  have prints : Emits (.above count σ) σ (emitInt .print count) :=
    emit_exchange (m := 0) (congrArg (fun n => some (n, 0)) (countOf_ofNat (few.trans_lt (by decide)) 1))
  exact (prints o).bind fun _ => emit_keeps rfl o

/-- The branch past the fault leads behind it. -/
theorem assertStatement_idles (h : rules.Balances k) : Idles (assertStatement rules) := by
  refine fun σ => .bind (.quiet skip_quiet) fun _ => (h.expression σ).bind fun _ o =>
    (emitFixup_lays rfl (.branchIf (.inl rfl))).bind fun holds =>
      .bind (Emits.quiet (accept_quiet _) _) fun _ => ?_
  have text : Emits σ (.above 1 σ) (emitValue (.string "assertion failed")) := emitValue_pushes nofun
  have stops : Lays (At (o.awaiting holds σ) (.above 1 σ)) (do
      emitOp .panic
      patchHere holds) fun _ => At o σ :=
    (emitPanic_emits (ρ := σ) _).bind fun _ => patchHere_lays subset_rfl subset_rfl
  exact .ite (fun _ => (h.expression σ _).bind fun _ => stops) fun _ => (text _).bind fun _ => stops

/-- Code without the call at its end leads to where the call would be made, or past it. -/
theorem withoutLast_lays {code : Code} {operand : Operand} {P : Compiler → Prop}
    (h : code.Carries argumentLimit σ ρ) (last : code.instructions.back? = some ⟨.call, operand⟩) :
    Lays P (withoutLast code) fun rest c => (operand.Callable argumentLimit ∧ ∃ pre,
      Instruction.Goes ⟨.call, operand⟩ pre ρ ∅ ∧ rest.Carries argumentLimit σ (pre ∪ ρ)) ∧ P c := by
  unfold withoutLast
  cases ok : code.remove (code.size - 1) with
  | ok rest => exact .pure fun _ before => ⟨h.withoutCall last ok, before⟩
  | error f => exact .refuses (throw_refuses (code.remove_ordinary _ f ok))

/-- The launcher takes what the call was to take, with the function above its own. -/
theorem launch_lays {operand : Operand} {pre : Spot} (room : o.spare = 1)
    (callable : operand.Callable argumentLimit)
    (goes : Instruction.Goes ⟨.call, operand⟩ pre (.above 1 (.above 1 (.level s t))) ∅) :
    Lays (At o (pre ∪ .above 1 (.above 1 (.level s t)))) (do
      emit .call (callOperand ((callParts operand).1 + 1) ((callParts operand).2 &&& ~~~2))
      emitOp .drop) fun _ => At o (.level s t) := by
  have fits : argumentLimit + 1 < countLimit := by decide
  have few := Nat.succ_le_succ callable.few
  have parts := callParts_callOperand (few.trans_lt fits) ((callParts operand).2 &&& ~~~2)
  refine (emit_lays (.launch callable fits goes) fun _ => ⟨?_, ?_⟩).bind fun _ => Tops.above.takes rfl o
  · rw [parts, room]
    exact few
  · rw [parts]
    exact fun _ => Nat.succ_pos _

theorem goStatement_acts (h : rules.Balances k) : Acts k (goStatement rules) := by
  refine fun o places s t _ => .bind (Emits.quiet skip_quiet _) fun _ =>
    (capture_evaluates h.unary).bind fun code => .given fun pushes => ?_
  split
  · exact .refuses (fail_refuses _ (by nofun))
  · next last found =>
    refine .guarded (failAbout_refuses _ _ (by nofun)) fun call => ?_
    obtain ⟨op, operand⟩ := last
    obtain rfl : op = .call := by simpa using call
    split
    next count flags parts =>
    obtain ⟨rfl, rfl⟩ : (callParts operand).1 = count ∧ (callParts operand).2 = flags := by
      rw [parts]
      exact ⟨rfl, rfl⟩
    have loads : Emits (.level s t) (.above 1 (.level s t)) (emitName .load "$go") := emit_pushes rfl
    exact (loads _).bind fun _ => (withoutLast_lays (pushes _) found).bind fun rest =>
      .given fun ⟨callable, pre, goes, carries⟩ => (append_emits carries _).bind fun _ =>
        launch_lays rfl callable goes

/-! ## Results -/

theorem emitLoads_emits (names : List String) : Emits σ (.above names.length σ) (emitLoads names) := by
  induction names generalizing σ with
  | nil => exact .pure _
  | cons name rest ih =>
    refine .bind (emit_pushes rfl) fun _ => ?_
    have more := ih (σ := .above 1 σ)
    rwa [Spot.above_above] at more

/-- As many values are left as there are results. -/
theorem emitResults_emits (results : List (Code × Ty)) (h : ∀ r ∈ results, r.1.Evaluates) :
    Emits σ (.above results.length σ) (emitResults results) := by
  induction results generalizing σ with
  | nil => exact .pure _
  | cons r rest ih =>
    rw [List.forall_mem_cons] at h
    have more := ih h.2 (σ := .above 1 σ)
    rw [Spot.above_above] at more
    exact (append_evaluates h.1 _).bind fun _ => .optional (fun _ => emit_turns rfl) fun _ => more

theorem createTemps_emits (h : Tops σ σ) (names : List String) : Emits σ σ (names.forM createTemp) := by
  induction names with
  | nil => exact .pure _
  | cons name rest ih => exact (createTemp_emits h name).bind fun _ => ih

/-- Nothing follows the end of a function. -/
theorem leave_emits {n : Nat} {operand : Operand} :
    Emits (.above n (.level s t)) ρ (emit .leave operand) :=
  emitLeave_emits.mono subset_rfl (Set.empty_subset _)

section

variable {places : List (Breakable × Nat × Nat)}

/-- A scope is open around what follows. -/
theorem pushScope_lays (goes : Instruction.Goes ⟨.pushScope, .none⟩ σ ρ ∅) :
    Lays (At (o.within places s t) σ) pushScope fun _ => At (o.within places (s + 1) t) ρ :=
  .bind (emit_emits goes nofun _) fun _ => .modify fun _ here => ⟨fun orderly => orderly.of_same rfl rfl rfl,
    here.laid, here.nest.1, here.nest.2.1, congrArg (· + 1) here.nest.2.2.1, here.nest.2.2.2⟩

/-- A scope is closed. -/
theorem popScope_lays {n : Nat} :
    Lays (At (o.within places (s + 1) t) (.above n (.level (s + 1) t))) popScope fun _ =>
      At (o.within places s t) (.above n (.level s t)) :=
  .bind (emit_emits (.popScope (k := 1) rfl Nat.one_pos) nofun _) fun _ => .modify fun _ here =>
    ⟨fun orderly => orderly.of_same rfl rfl rfl, here.laid, here.nest.1, here.nest.2.1,
      congrArg (· - 1) here.nest.2.2.1, here.nest.2.2.2⟩

end

/-- The results of one call get names, and are left as they are declared. -/
theorem returnCall_acts (declared : List Ty) {value : Code} (h : value.Evaluates) :
    Acts k (returnCall declared value) := by
  intro o places s t _
  have noVoid : Marker.results.label ≠ "void" := by decide
  refine (append_evaluates h _ _).bind fun _ => (requestMultiple_emits.mono subset_rfl given_loose _).bind
    fun _ => .guarded (fail_refuses _ (by nofun)) fun _ => (pushScope_lays .pushScope_loose).bind fun _ =>
      .bind (Emits.quiet (resultNames_quiet _) _) fun names =>
        (createTemps_emits (.loose noVoid) names _).bind fun _ => (emitDropTo_emits .results _).bind fun _ =>
          (emitResults_emits _ (fun r mem => ?_) _).bind fun _ => popScope_lays.bind fun _ => leave_emits _
  obtain ⟨pair, -, rfl⟩ := List.mem_map.1 mem
  exact .one _ rfl

theorem returnValues_acts (declared : List Ty) {values : List Code} (h : ∀ v ∈ values, v.Evaluates) :
    Acts k (returnValues declared values) := by
  have all : Performs (do
      if values.length ≠ declared.length then
        failAbout .invalidReturn
          (Decimal.ofNat values.length ++ " values for " ++ Decimal.ofNat declared.length ++ " results")
      emitResults (values.zip declared)
      emitInt .leave values.length) := fun s t =>
    .guarded (failAbout_refuses _ _ (by nofun)) <| (emitResults_emits _ fun r mem =>
      h r.1 (List.of_mem_zip mem).1).bind fun _ => leave_emits
  rcases values with _ | ⟨value, _ | ⟨other, rest⟩⟩
  · exact .performs all
  · exact .ite (fun _ => returnCall_acts declared (h value (List.mem_singleton.2 rfl)))
      fun _ => .performs all
  · exact .performs all

theorem valueList_lays (h : rules.Balances k) :
    Lays (At o σ) (valueList rules) fun values c => (∀ v ∈ values, v.Evaluates) ∧ c.At o σ := by
  refine .before (.repeatTurns (I := fun _ values c => (∀ v ∈ values, Code.Evaluates v) ∧ c.At o σ)
    (fun _ _ values => ?_) _) fun c here => ⟨nofun, here⟩
  refine .given fun known => (capture_evaluates h.expression).bind fun value => .given fun last =>
    .bind (Emits.quiet (accept_quiet _) _) fun _ => ?_
  have all : ∀ v ∈ values ++ [value], v.Evaluates := by
    intro v mem
    rcases List.mem_append.1 mem with before | new
    · exact known v before
    · cases List.mem_singleton.1 new
      exact last
  exact .ite (fun _ => .pure fun c here => ⟨all, here⟩) fun _ => .pure fun c here => ⟨all, here⟩

theorem appendAll_emits (values : List Code) (h : ∀ v ∈ values, v.Evaluates) :
    Emits σ (.above values.length σ) (values.forM append) := by
  induction values generalizing σ with
  | nil => exact .pure _
  | cons v rest ih =>
    rw [List.forall_mem_cons] at h
    have more := ih h.2 (σ := .above 1 σ)
    rw [Spot.above_above] at more
    exact (append_evaluates h.1 _).bind fun _ => more

theorem returnStatement_acts (h : rules.Balances k) : Acts k (returnStatement rules) := by
  refine .bind (.quiet skip_quiet) fun _ o places s t room => .read fun c => ?_
  extract_lets d
  refine .bind (Emits.quiet atStatementEnd_quiet _) fun _ => .ite
    (fun _ => (emitLoads_emits _ _).bind fun _ => leave_emits _) fun _ => ?_
  refine (valueList_lays h).bind fun values => .given fun known => ?_
  split
  · exact returnValues_acts _ known o places s t room
  · exact (appendAll_emits values known _).bind fun _ => leave_emits _

/-! ## Directives -/

theorem refuseWord_emits {α : Type} : Emits σ ρ (refuseWord : CompileM α) :=
  .bind (.quiet (back_quiet _)) fun _ => .refuses (fail_refuses _ (by nofun))

theorem strictnessDirective_idles : Idles strictnessDirective := fun _ => by
  refine .bind (.quiet next_quiet) fun t => ?_
  extract_lets word
  split
  · exact .bind (.of_same fun _ => ⟨rfl, rfl, rfl, rfl, rfl⟩) fun _ => emit_keeps rfl
  · exact .bind (.quiet (back_quiet _)) fun _ => .refuses (failAbout_refuses _ _ (by nofun))

theorem timerDirective_idles : Idles timerDirective := fun σ => by
  refine .bind (.quiet next_quiet) fun t => ?_
  split
  · exact emit_keeps rfl
  · have stops : Emits σ (.above 1 σ) (emitInt .timer 1) := emit_exchange (k := 0) (m := 1) (by decide)
    exact stops.bind fun _ => Tops.above.takes rfl
  · exact refuseWord_emits

theorem directive_idles (h : rules.Balances k) : Idles (directive rules) := fun σ => by
  refine .bind (.quiet (expect_quiet _)) fun _ => .bind (.quiet current_quiet) fun t =>
    .guarded (fail_refuses _ (by nofun)) <| .bind (.quiet skip_quiet) fun _ => ?_
  split
  · exact strictnessDirective_idles σ
  · exact .bind (.quiet identifier_quiet) fun _ => (h.expression σ).bind fun _ =>
      .bind (emit_turns rfl) fun _ => createAndStore_emits .above _
  · exact .bind (.quiet identifier_quiet) fun _ => (h.expression σ).bind fun _ => Tops.above.takes rfl
  · exact timerDirective_idles σ
  · have call : Emits (.above 3 σ) (.above 1 σ) (emitCall 2 {}) :=
      emitCall_emits (show 2 ≤ argumentLimit by decide) (show false = true → 0 < 2 by nofun) false
    exact .bind (.quiet identifier_quiet) fun _ => .bind (emit_pushes rfl) fun _ =>
      .bind (emitValue_pushes nofun) fun _ => (h.expression _).bind fun _ => call.bind fun _ =>
        Tops.above.takes rfl
  · exact (h.expression σ).bind fun _ => emitPanic_emits
  · exact (h.expression σ).bind fun _ => Tops.above.takes rfl
  · exact refuseWord_emits

/-! ## Imports -/

/-- The unit of a package is balanced where its file can be read. -/
theorem emitPackage_evaluates (h : rules.Balances k) (path name : String) :
    Evaluates (emitPackage rules path name) := by
  refine fun σ o => .readAs fun c orderly => .before ?_ fun _ => And.right
  split
  · exact .bind (Emits.quiet (back_quiet _) _) fun _ => .refuses (failAbout_refuses _ _ (by nofun))
  · next file found =>
    split
    · exact .refuses (failAbout_refuses _ _ (by nofun))
    · next source read =>
      have call : Emits (.above 1 σ) (.above 1 σ) (emitCall 0 {}) :=
        emitCall_emits (show 0 ≤ argumentLimit by decide) (show false = true → 0 < 0 by nofun) false
      have pushes (r : CodeRef) : Emits σ (.above 1 σ) (emitValue (.function r none)) :=
        emitValue_pushes nofun
      exact (h.package _ _ _ (orderly.files _ _ read) σ o).bind fun r => (pushes r o).bind fun _ => call o

theorem importSpec_idles (h : rules.Balances k) : Idles (importSpec rules) := fun σ => by
  refine .bind (.quiet (accept_quiet _)) fun spread => .bind (.quiet importPath_quiet)
    fun ⟨path, name⟩ => .bind (.quiet skip_quiet) fun _ => .read fun c => ?_
  have binds : Emits (.above 1 σ) σ (bindPackage name) :=
    .bind (.quiet (isDeclaredHere_quiet name)) fun _ =>
      .ite (fun _ => Tops.above.takes rfl) fun _ => createAndStore_emits .above name
  exact .bind (.of_same fun _ => ⟨rfl, rfl, rfl, rfl, rfl⟩) fun _ => .ite (fun _ => .pure _) fun _ =>
    .ite (fun _ => .ite (fun _ => .bind (emit_pushes rfl) fun _ => Tops.above.takes rfl) fun _ => .pure _)
      fun _ => (emitPackage_evaluates h _ _ _).bind fun _ =>
        .ite (fun _ => Tops.above.takes rfl) fun _ => binds

theorem packageStatement_idles : Idles packageStatement := fun _ =>
  .bind (.quiet skip_quiet) fun _ => .bind (.quiet identifier_quiet) fun _ =>
    .of_same fun _ => ⟨rfl, rfl, rfl, rfl, rfl⟩

end CompileM

end StackScript
