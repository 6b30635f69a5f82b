import StackScript.Proofs.Settling.Assignments

/-!
# Declarations, results and imports are steady

Statements that hold no statements of their own. The value of a constant, the call behind `go` and
the values of a `return` are compiled on the side and joined.

Main statements: `constantSpec_steady`, `goStatement_steady`, `returnStatement_steady`,
`directive_steady` and `importStatement_steady`.
-/
namespace StackScript.CompileM

variable {rules : Nested} {o : Outline}

/-! ## Declarations -/

theorem group_steady (skipped : List String) {spec : CompileM Unit} (h : Steady spec) :
    Steady (group skipped spec) :=
  .bind (.quiet skip_quiet) fun _ => .bind (.quiet (accept_quiet _)) fun _ => .ite h <|
    .repeatWhile <| .bind (.quiet (accept_quiet _)) fun _ => .ite (.pure _) <|
      .bind (.quiet atEnd_quiet) fun _ => .guarded (fail_refuses _ (by nofun)) <|
        .bind (.quiet (isAnyNext_quiet _)) fun _ => .ite
          (.bind (.quiet skip_quiet) fun _ => .pure _) (h.bind fun _ => .pure _)

theorem bindAll_steady (declared : Option Ty) (names : List String) :
    Steady (bindAll declared names) := by
  induction names with
  | nil => exact .pure _
  | cons name rest ih =>
    exact (emitDeclared_steady _).bind fun _ => (createAndStore_steady _).bind fun _ => ih

theorem bindZeros_steady (t : Ty) (names : List String) : Steady (bindZeros t names) := by
  induction names with
  | nil => exact .pure _
  | cons name rest ih =>
    exact (emitZero_steady _).bind fun _ => (createAndStore_steady _).bind fun _ => ih

theorem bindValues_steady (h : rules.Steady) (names : List String) (declared : Option Ty) :
    Steady (bindValues rules names declared) :=
  (expressionList_steady h).bind fun _ => .ite
    (requestMultiple_steady.bind fun _ => .guarded (fail_refuses _ (by nofun)) <|
      (bindAll_steady _ _).bind fun _ => emitDropTo_steady _)
    (.guarded (fail_refuses _ (by nofun)) (bindAll_steady _ _))

theorem variableSpec_steady (h : rules.Steady) : Steady (variableSpec rules) := by
  refine .bind (.quiet nameList_quiet) fun names => .bind (.quiet (typeUnless_quiet _))
    fun declared => .bind (.quiet (accept_quiet _)) fun _ => .ite (bindValues_steady h _ _) ?_
  cases declared with
  | some t => exact bindZeros_steady t names
  | none => exact .refuses (fail_refuses _ (by nofun))

theorem constantSpec_steady (h : rules.Steady) : Steady (constantSpec rules) := by
  refine .bind (.quiet identifier_quiet) fun name => .bind (.quiet (typeUnless_quiet _))
    fun declared => .bind (.quiet (expect_quiet _)) fun _ o =>
      (capture_leads h.expression).bind fun code => .enough fun units _ settled =>
        .read (fun _ _ => rfl) fun c => .guarded (failAbout_refuses _ _ (by nofun)) fun _ => ?_
  have declares : Steady (do
      emitDeclared declared
      if !(← declare name) then failAbout .duplicateDeclaration name
      if ← atTopLevel then exportName name
      emitName .constant name
      modify fun c => { c with constants := name :: c.constants }) :=
    (emitDeclared_steady _).bind fun _ => (declare_steady name).bind fun _ =>
      .guarded (failAbout_refuses _ _ (by nofun)) <| .bind (.quiet atTopLevel_quiet) fun _ =>
        .optional (exportName_steady name) fun _ => .bind (emitName_steady rfl) fun _ =>
          .of_same (fun _ => rfl) (fun _ => rfl) (fun _ _ => rfl) fun _ => .ok _
  split
  · rename_i v value
    refine recordsConstant_leads (o := o.having units) settled ?_ declared
    unfold literalValue? at value
    split at value <;> cases value
    assumption
  · exact (append_leads (o := o.having units) settled).bind fun _ => .steady declares

theorem arrayStatement_steady (h : rules.Steady) : Steady (arrayStatement rules) :=
  .bind (.quiet skip_quiet) fun _ => .bind (.quiet identifier_quiet) fun name =>
    .bind (.quiet (expect_quiet _)) fun _ => h.expression.bind fun _ =>
      .bind (.quiet (expect_quiet _)) fun _ => .bind (.quiet (accept_quiet _)) fun _ => .ite
        (h.expression.bind fun _ => .bind (emitInt_steady rfl) fun _ => createAndStore_steady name)
        (.bind (emitInt_steady rfl) fun _ => createAndStore_steady name)

theorem storeReserved_steady (field : String) {value : CompileM Unit} (h : Steady value) :
    Steady (storeReserved field value) :=
  .bind (emitValue_steady rfl) fun _ => h.bind fun _ => emitOp_steady rfl

/-- What declares a struct type with the fields of its parent and its own. -/
theorem declaresStruct_steady (name : String) (parent : Option String) : Steady (do
    let types := (← get).types
    let inherited := (parent.bind fun p => Association.find? p types).bind Ty.fields?
    let t := (Ty.struct (extendFields (inherited.getD []) (← structFields parseType))).withName name
    addType name t
    modify fun c => { c with structTypes := name :: c.structTypes }
    emitName .load "new"
    emitValue (.type t)
    emitCall 1 {}
    storeReserved "__static" (emitValue (.bool true))
    match parent with
    | some p => storeReserved "__parent" (emitName .load p)
    | none => pure ()
    createAndStore name) := by
  refine .read (fun _ _ => rfl) fun c => .bind (.quiet (structFields_quiet parseType_quiet)) fun _ =>
    .bind (.of_same (fun _ => rfl) (fun _ => rfl) (fun _ _ => rfl) fun _ => .ok _) fun _ =>
    .bind (.of_same (fun _ => rfl) (fun _ => rfl) (fun _ _ => rfl) fun _ => .ok _) fun _ =>
    .bind (emitName_steady rfl) fun _ => .bind (emitValue_steady rfl) fun _ =>
    (emitCall_steady _ _).bind fun _ =>
    (storeReserved_steady _ (emitValue_steady rfl)).bind fun _ => ?_
  cases parent with
  | some p => exact (storeReserved_steady _ (emitName_steady rfl)).bind fun _ =>
      createAndStore_steady name
  | none => exact createAndStore_steady name

theorem structDeclaration_steady (name : String) : Steady (structDeclaration name) :=
  .bind (.quiet (accept_quiet _)) fun _ => .ite
    (.bind (.quiet identifier_quiet) fun _ => .bind (.pure _) (declaresStruct_steady name))
    (.bind (.pure _) (declaresStruct_steady name))

theorem typeStatement_steady : Steady typeStatement := by
  refine .bind (.quiet skip_quiet) fun _ => .bind (.quiet identifier_quiet) fun name =>
    .bind (.quiet (accept_quiet _)) fun _ => ?_
  have declares : ∀ isStruct : Bool, Steady (do
      if isStruct then structDeclaration name
      else
        let t := (← parseType).withName name
        addType name t
        emitValue (.type t)
        createAndStore name) := fun _ =>
    .ite (structDeclaration_steady name) <| .bind (.quiet parseType_quiet) fun _ =>
      .bind (.of_same (fun _ => rfl) (fun _ => rfl) (fun _ _ => rfl) fun _ => .ok _) fun _ =>
        .bind (emitValue_steady rfl) fun _ => createAndStore_steady name
  exact .ite (.bind (.pure _) fun _ => declares _)
    (.bind (.quiet (isAnyNext_quiet _)) fun _ => declares _)

/-! ## Simple statements -/

theorem expressionStatement_steady (h : rules.Steady) : Steady (expressionStatement rules) :=
  (emitMarker_steady _).bind fun _ => h.expression.bind fun _ => requestMultiple_steady.bind
    fun _ => .read (fun _ _ => rfl) fun _ => .optional (emitOp_steady rfl) fun _ => emitDropTo_steady _

theorem sendStatement_steady (h : rules.Steady) : Steady (sendStatement rules) :=
  h.expression.bind fun _ => .bind (.quiet (expect_quiet _)) fun _ => .bind (emitOp_steady rfl) fun _ =>
    .bind (emitOp_steady rfl) fun _ => .bind (emitName_steady rfl) fun _ => h.expression.bind fun _ =>
      (emitCall_steady _ _).bind fun _ => emitOp_steady rfl

theorem simpleStatement_steady (h : rules.Steady) : Steady (simpleStatement rules) := by
  refine .bind (.quiet (.of_eq (fun _ _ => rfl) fun _ => .ok _)) fun form => ?_
  cases form with
  | assignment => exact assignment_steady h
  | send => exact sendStatement_steady h
  | expression => exact expressionStatement_steady h

theorem printStatement_steady (h : rules.Steady) : Steady (printStatement rules) :=
  .bind (.quiet skip_quiet) fun _ => .bind (.quiet atStatementEnd_quiet) fun _ => .ite
    ((expressionList_steady h).bind fun _ => .bind (emitInt_steady rfl) fun _ => emitOp_steady rfl)
    (emitOp_steady rfl)

/-- The branch past the fault gets its target. -/
theorem assertStatement_steady (h : rules.Steady) : Steady (assertStatement rules) := by
  refine .bind (.quiet skip_quiet) fun _ => h.expression.bind fun _ o =>
    (emitFixup_leads rfl).bind fun holds => .bind (.steady (.quiet (accept_quiet _))) fun _ => ?_
  have stops : Leads (Compiler.Fits (o.awaiting holds)) (do
      emitOp .panic
      patchHere holds) fun _ => Compiler.Fits o :=
    .bind (.steady (emitOp_steady rfl)) fun _ => patchHere_leads
  exact .ite (fun _ => .bind (.steady h.expression) fun _ => stops) fun _ =>
    .bind (.steady (emitValue_steady rfl)) fun _ => stops

theorem withoutLast_leads {code : Code} {P : Compiler → Prop} {base limit : Nat}
    (h : code.Settled base limit []) {last : Instruction} (found : code.instructions.back? = some last)
    (call : last.op = .call) :
    Leads P (withoutLast code) fun rest c => rest.Settled base limit [] ∧ P c := by
  unfold withoutLast
  cases ok : code.remove (code.size - 1) with
  | ok rest => exact .pure fun _ before => ⟨h.withoutCall found call ok, before⟩
  | error f => exact .refuses (throw_refuses (code.remove_ordinary _ f ok))

theorem goStatement_steady (h : rules.Steady) : Steady (goStatement rules) := by
  refine .bind (.quiet skip_quiet) fun _ o =>
    (capture_leads h.unary).bind fun code => .enough fun units _ settled => ?_
  split
  · exact .refuses (fail_refuses _ (by nofun))
  · rename_i last found
    refine .guarded (failAbout_refuses _ _ (by nofun)) fun call => ?_
    split
    have calls : ∀ count flags, Steady (do
        emit .call (callOperand count flags)
        emitOp .drop) := fun count flags => by
      refine .bind (emit_steady rfl ?_) fun _ => emitOp_steady rfl
      unfold callOperand
      split <;> rfl
    exact .bind (.steady (emitName_steady rfl)) fun _ =>
      (withoutLast_leads settled found (by simpa using call)).bind fun _ => .given fun settled =>
        (append_leads settled).bind fun _ => .steady (calls _ _)

/-! ## Results -/

theorem emitLoads_steady (names : List String) : Steady (emitLoads names) := by
  induction names with
  | nil => exact .pure _
  | cons name rest ih => exact .bind (emitName_steady rfl) fun _ => ih

theorem emitResults_leads {results : List (Code × Ty)}
    (h : ∀ r ∈ results, r.1.Settled o.base o.units []) :
    Leads (Compiler.Fits o) (emitResults results) fun _ => Compiler.Fits o := by
  induction results with
  | nil => exact .pure fun _ => id
  | cons r rest ih =>
    rw [List.forall_mem_cons] at h
    exact (append_leads h.1).bind fun _ => .ite
      (fun _ => .bind (.steady (emitTyped_steady rfl)) fun _ => ih h.2) fun _ => ih h.2

theorem resultNames_quiet (count : Nat) : Quiet (resultNames count) := by
  induction count with
  | zero => exact .pure _
  | succ count ih => exact (tempName_quiet _).bind fun _ => ih.bind fun _ => .pure _

theorem createTemps_steady (names : List String) : Steady (names.forM createTemp) := by
  induction names with
  | nil => exact .pure _
  | cons name rest ih => exact (createTemp_steady name).bind fun _ => ih

theorem returnCall_leads (declared : List Ty) {value : Code}
    (settled : value.Settled o.base o.units []) :
    Leads (Compiler.Fits o) (returnCall declared value) fun _ => Compiler.Fits o := by
  refine (append_leads settled).bind fun _ => .bind (.steady requestMultiple_steady) fun _ =>
    .guarded (fail_refuses _ (by nofun)) fun _ => .bind (.steady pushScope_steady) fun _ =>
      .bind (.steady (.quiet (resultNames_quiet _))) fun names =>
        .bind (.steady (createTemps_steady names)) fun _ =>
          .bind (.steady (emitDropTo_steady _)) fun _ => .bind (emitResults_leads fun r mem => ?_)
            fun _ => .bind (.steady popScope_steady) fun _ => .steady (emitInt_steady rfl)
  obtain ⟨pair, -, rfl⟩ := List.mem_map.1 mem
  exact settled_push .empty _ _ rfl rfl

theorem returnValues_leads (declared : List Ty) {values : List Code}
    (settled : ∀ v ∈ values, v.Settled o.base o.units []) :
    Leads (Compiler.Fits o) (returnValues declared values) fun _ => Compiler.Fits o := by
  have all : Leads (Compiler.Fits o) (do
      if values.length ≠ declared.length then
        failAbout .invalidReturn
          (Decimal.ofNat values.length ++ " values for " ++ Decimal.ofNat declared.length ++ " results")
      emitResults (values.zip declared)
      emitInt .leave values.length) fun _ => Compiler.Fits o :=
    .guarded (failAbout_refuses _ _ (by nofun)) fun _ => (emitResults_leads fun r mem =>
      settled r.1 (List.of_mem_zip mem).1).bind fun _ => .steady (emitInt_steady rfl)
  rcases values with _ | ⟨value, _ | ⟨other, rest⟩⟩
  · exact all
  · exact .ite (fun _ => returnCall_leads declared (settled value (List.mem_singleton.2 rfl)))
      fun _ => all
  · exact all

theorem valueList_leads (h : rules.Steady) :
    Leads (Compiler.Fits o) (valueList rules) fun values => Compiler.FitsWith o fun units =>
      ∀ v ∈ values, v.Settled o.base units [] := by
  refine .before (.repeatTurns (I := fun values => Compiler.FitsWith o fun units =>
    ∀ v ∈ values, Code.Settled o.base units [] v) (fun values => ?_) _) fun c fits =>
      ⟨o.units, Nat.le_refl _, nofun, fits⟩
  refine .some fun units => .given fun more => .given fun settled =>
    (capture_leads (o := o.having units) h.expression).bind fun value => .some fun units' =>
      .given fun more' => .given fun last => .bind (.steady (.quiet (accept_quiet _))) fun _ => ?_
  have all : ∀ v ∈ values ++ [value], v.Settled o.base units' [] := by
    intro v mem
    rcases List.mem_append.1 mem with before | new
    · exact (settled v before).mono more'
    · cases List.mem_singleton.1 new
      exact last
  exact .ite (fun _ => .pure fun c fits => ⟨units', more.trans more', all, fits⟩)
    fun _ => .pure fun c fits => ⟨units', more.trans more', all, fits⟩

theorem returnStatement_steady (h : rules.Steady) : Steady (returnStatement rules) := by
  refine .bind (.quiet skip_quiet) fun _ => .read (fun _ _ => rfl) fun c => ?_
  extract_lets d
  refine .bind (.quiet atStatementEnd_quiet) fun _ => .ite
    ((emitLoads_steady _).bind fun _ => emitInt_steady rfl) fun o => ?_
  refine (valueList_leads h).bind fun values => .enough fun units _ settled => ?_
  split
  · exact returnValues_leads _ settled
  · have joins : ∀ values : List Code, (∀ v ∈ values, v.Settled o.base units []) →
        Leads (Compiler.Fits (o.having units)) (values.forM append) fun _ =>
          Compiler.Fits (o.having units) := by
      intro values settled
      induction values with
      | nil => exact .pure fun _ => id
      | cons v rest ih =>
        rw [List.forall_mem_cons] at settled
        exact (append_leads settled.1).bind fun _ => ih settled.2
    exact (joins values settled).bind fun _ => .steady (emitInt_steady rfl)

/-! ## Directives -/

theorem refuseWord_leads {α : Type} {P : Compiler → Prop} {Q : α → Compiler → Prop} :
    Leads P (refuseWord : CompileM α) Q :=
  .bind (.of_quiet (back_quiet _)) fun _ => .refuses (fail_refuses _ (by nofun))

theorem strictnessDirective_steady : Steady strictnessDirective := by
  refine .bind (.quiet next_quiet) fun t => ?_
  extract_lets word
  split
  · exact .bind (.of_same (fun _ => rfl) (fun _ => rfl) (fun _ _ => rfl) fun _ => .ok _) fun _ =>
      emit_steady rfl rfl
  · exact .bind (.quiet (back_quiet _)) fun _ => .refuses (failAbout_refuses _ _ (by nofun))

theorem timerDirective_steady : Steady timerDirective := by
  refine .bind (.quiet next_quiet) fun t => ?_
  split
  · exact emitInt_steady rfl
  · exact .bind (emitInt_steady rfl) fun _ => emitOp_steady rfl
  · exact fun o => refuseWord_leads

theorem onValue_steady (h : rules.Steady) {op : Opcode} (goesOn : op.isBranch = false) :
    Steady (onValue rules op) :=
  h.expression.bind fun _ => emitOp_steady goesOn

theorem directive_steady (h : rules.Steady) : Steady (directive rules) := by
  refine .bind (.quiet (expect_quiet _)) fun _ => .bind (.quiet current_quiet) fun t =>
    .guarded (fail_refuses _ (by nofun)) <| .bind (.quiet skip_quiet) fun _ => ?_
  split
  · exact strictnessDirective_steady
  · exact .bind (.quiet identifier_quiet) fun _ => h.expression.bind fun _ =>
      .bind (emitName_steady rfl) fun _ => createAndStore_steady _
  · exact .bind (.quiet identifier_quiet) fun _ => h.expression.bind fun _ => emitName_steady rfl
  · exact timerDirective_steady
  · exact .bind (.quiet identifier_quiet) fun _ => .bind (emitName_steady rfl) fun _ =>
      .bind (emitValue_steady rfl) fun _ => h.expression.bind fun _ => (emitCall_steady _ _).bind
        fun _ => emitOp_steady rfl
  · exact onValue_steady h rfl
  · exact onValue_steady h rfl
  · exact fun o => refuseWord_leads

/-! ## Imports -/

theorem namedPath_quiet (path : String) :
    Quiet (match (FilePath.stem? path).filter (· != "") with
      | some name => Pure.pure (path, name)
      | none => fail .invalidImport : CompileM (String × String)) := by
  split
  · exact .pure _
  · exact .refuses (fail_refuses _ (by nofun))

theorem importPath_quiet : Quiet importPath := by
  refine current_quiet.bind fun t => ?_
  split
  · exact .bind (.pure _) namedPath_quiet
  · exact (spell_quiet t).bind namedPath_quiet
  · exact .refuses ((fail_refuses _ (by nofun)).bind _)

theorem emitPackage_steady (h : rules.Steady) (path name : String) :
    Steady (emitPackage rules path name) := by
  refine .read (fun _ _ => rfl) fun c => ?_
  split
  · exact .bind (.quiet (back_quiet _)) fun _ => .refuses (failAbout_refuses _ _ (by nofun))
  · split
    · exact .refuses (failAbout_refuses _ _ (by nofun))
    · exact (h.package _ _ _).bind fun r o own there => (emitFunction_leads own there).bind
        fun _ => .steady (emitCall_steady _ _)

theorem importSpec_steady (h : rules.Steady) : Steady (importSpec rules) := by
  refine .bind (.quiet (accept_quiet _)) fun spread => .bind (.quiet importPath_quiet)
    fun ⟨path, name⟩ => .bind (.quiet skip_quiet) fun _ => .read (fun _ _ => rfl) fun c => ?_
  have binds : Steady (bindPackage name) := .bind (.quiet (isDeclaredHere_quiet name)) fun _ =>
    .ite (emitName_steady rfl) (createAndStore_steady name)
  exact .bind (.of_same (fun _ => rfl) (fun _ => rfl) (fun _ _ => rfl) fun _ => .ok _) fun _ =>
    .ite (.pure _) <|
      .ite (.ite (.bind (emitName_steady rfl) fun _ => emitOp_steady rfl) (.pure _)) <|
        (emitPackage_steady h _ _).bind fun _ => .ite (emitOp_steady rfl) binds

theorem packageStatement_steady : Steady packageStatement :=
  .bind (.quiet skip_quiet) fun _ => .bind (.quiet identifier_quiet) fun _ =>
    .of_same (fun _ => rfl) (fun _ => rfl) (fun _ _ => rfl) fun _ => .ok _

end StackScript.CompileM
