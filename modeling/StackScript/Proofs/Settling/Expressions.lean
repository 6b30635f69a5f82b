import StackScript.Proofs.Parameters.Emitting

/-!
# Expressions are steady

The branches that an expression emits are patched within it. A function in an expression is a unit
of its own, whose statements leave no branch behind.

Main statements: `functionBody_makes` (the unit of a function is settled), `expressionWith_steady`
and `assignment_steady`.
-/
namespace StackScript

open CompileM

namespace CompileM

/-- A step that finishes a unit. -/
def Makes (m : CompileM CodeRef) : Prop := ∀ o : Outline, Leads (Compiler.Fits o) m fun r =>
  Compiler.FitsWith o fun units => o.base ≤ r.index ∧ r.index < units

end CompileM

/-- Rules by which expressions are steady, statements leave branches to the loops they stand in
only, and packages are finished units. They are those of the constructs of a source. -/
structure Nested.Steady (rules : Nested) : Prop where
  known : ∃ imports depth, rules = rulesTo (packageTo imports) depth
  expression : CompileM.Steady rules.expression
  unary : CompileM.Steady rules.unary
  statement : SteadyWithin rules.statement
  ifStatement : SteadyWithin rules.ifStatement
  package : ∀ name source directory, Makes (rules.package name source directory)

namespace CompileM

variable {rules : Nested} {o : Outline}

/-! ## Calls and names -/

/-- Asking the last call for every result. -/
theorem requestMultiple_steady : Steady requestMultiple := by
  refine fun o => .readAs (fun _ _ => rfl) fun d => ?_
  extract_lets code
  have known : ∀ c, (c = d ∧ c.Fits o) → c.draft.code = code ∧ c.Fits o := by
    rintro c ⟨rfl, fits⟩
    exact ⟨rfl, fits⟩
  have same : Leads (fun c => c = d ∧ c.Fits o) (Pure.pure false) fun _ => Compiler.Fits o :=
    .pure fun _ => And.right
  split
  · rename_i i last
    refine .ite (fun call => ?_) fun _ => same
    split
    refine .bind (.before (editCode_leads (P := (· = code)) (·.emitAt_ordinary _ _ _) ?_ ?_) known)
      fun _ => .pure fun _ => id
    · rintro _ _ _ _ rfl _ size h emitted
      have found := last
      rw [Array.back?_eq_getElem?] at found
      have ⟨after, same⟩ := Code.Settled.emitAt h found (eq_of_beq call) (.plain rfl rfl) emitted
      exact ⟨after, size.trans_eq same.symm⟩
    · rintro _ _ _ _ rfl h emitted
      exact h.emitAt last (eq_of_beq call) emitted
  · exact same

theorem atLine_steady : Steady atLine := by
  refine .bind (.quiet current_quiet) fun _ => .read (fun _ _ => rfl) fun _ => .ite ?_ (.pure _)
  exact .bind (emitInt_steady rfl) fun _ => .modifyDraft (fun _ => rfl) fun _ => rfl

theorem declare_steady (name : String) : Steady (declare name) := by
  refine .read (fun _ _ => rfl) fun c => ?_
  split
  · exact .ite (.pure _) <| .bind (.modifyDraft (fun _ => rfl) fun _ => rfl) fun _ => .pure _
  · exact .pure _

theorem exportName_steady (name : String) : Steady (exportName name) :=
  .of_same (fun _ => rfl) (fun _ => rfl) (fun _ _ => rfl) fun _ => .ok _

theorem pushScope_leads :
    Leads (Compiler.Fits o) pushScope fun _ => Compiler.Fits (o.reaching (o.size + 1)) := by
  refine .bind (emit_leads fun _ _ _ _ => .plain rfl rfl) fun _ => .steady ?_
  exact .modifyDraft (fun _ => rfl) fun _ => rfl

theorem pushScope_steady : Steady pushScope := fun _ => pushScope_leads.after fun _ _ => longer

theorem popScope_steady : Steady popScope :=
  .bind (emitInt_steady rfl) fun _ => .modifyDraft (fun _ => rfl) fun _ => rfl

theorem createAndStore_steady (name : String) : Steady (createAndStore name) :=
  .ite (emitOp_steady rfl) <| (declare_steady name).bind fun _ =>
    .guarded (failAbout_refuses _ _ (by nofun)) <| .bind (.quiet atTopLevel_quiet) fun _ =>
      .optional (exportName_steady name) fun _ =>
        .bind (emitName_steady rfl) fun _ => emitName_steady rfl

theorem createTemp_steady (name : String) : Steady (createTemp name) :=
  .bind (emitName_steady rfl) fun _ => emitName_steady rfl

/-- A unit that is added is there for a function. -/
theorem addCode_leads {code : Code} (done : code.Done o.base o.units) :
    Leads (Compiler.Fits o) (addCode code) fun r =>
      Compiler.FitsWith o fun units => o.base ≤ r.index ∧ r.index < units := by
  intro c fits
  refine ⟨⟨⟨#[code], by simpa using done.ready.inert, fun codes size => ?_⟩, .ok _⟩, fun r c' run => ?_⟩
  · simp only [addCode, bind_of_ok (get_eq _)]
    rw [← Array.push_eq_append, Compiler.over, size]
    rfl
  cases run
  have more : c.codes.size ≤ (c.codes.push code).size := by simp
  have there : c.codes.size < (c.codes.push code).size := by simp
  refine ⟨_, fits.units.trans more, ⟨fits.base, there⟩, fits.settled.mono more, fits.kept,
    fun u found own there => ?_, fits.base.trans more, Nat.le_refl _, fits.size, fits.loops⟩
  rw [Array.getElem?_push] at there
  split at there
  · cases there
    exact { done with ready := done.ready.mono (fits.units.trans more) }
  · have before := fits.finished u found own there
    exact { before with ready := before.ready.mono more }

/-! ## Types -/

theorem constantZero_plain {t : Ty} {zero : Value} (h : constantZero t = some zero) :
    (Operand.value zero).isPlain = true := by
  unfold constantZero at h
  split at h
  · cases h
    unfold Value.zeroScalar
    split <;> rfl
  · split at h <;> cases h <;> rfl

theorem emitZero_steady (t : Ty) : Steady (emitZero t) := by
  unfold emitZero
  split
  · rename_i zero
    exact emitValue_steady (constantZero_plain zero)
  · refine .bind (emitName_steady rfl) fun _ => .read (fun _ _ => rfl) fun _ => ?_
    split
    · exact .bind (emitName_steady rfl) fun _ => emitCall_steady _ _
    · exact .bind (emitValue_steady rfl) fun _ => emitCall_steady _ _

theorem emitTypeCheck_steady (t : Ty) : Steady (emitTypeCheck t) := by
  refine .ite (.pure _) (.ite (emitOp_steady rfl) (.read (fun _ _ => rfl) fun c => ?_))
  exact emitTyped_steady (by split <;> rfl)

theorem emitDeclared_steady (declared : Option Ty) : Steady (emitDeclared declared) := by
  unfold emitDeclared
  split
  · exact .ite (.pure _) (emitTyped_steady rfl)
  · exact .pure _

/-! ## Functions -/

theorem bindParameter_steady (index : Nat) (p : Parameter) : Steady (bindParameter index p) :=
  .bind (emitName_steady rfl) fun _ => .bind (emitValue_steady rfl) fun _ =>
    .bind (emitOp_steady rfl) fun _ => (emitTypeCheck_steady _).bind fun _ => createAndStore_steady _

theorem bindRest_steady (index : Nat) (p : Parameter) : Steady (bindRest index p) :=
  .bind (emitName_steady rfl) fun _ => .bind (emitValue_steady rfl) fun _ =>
    .bind (emitName_steady rfl) fun _ => .bind (emitName_steady rfl) fun _ =>
      (emitCall_steady _ _).bind fun _ => .bind (emitOp_steady rfl) fun _ =>
        .optional (emitTypeCheck_steady _) fun _ => createAndStore_steady _

theorem bindParameters_steady (variadic : Bool) (index : Nat) (ps : List Parameter) :
    Steady (bindParameters variadic index ps) := by
  induction ps generalizing index with
  | nil => exact .pure _
  | cons p rest ih =>
    cases rest with
    | nil => exact .ite (bindRest_steady _ _) (bindParameter_steady _ _)
    | cons => exact (bindParameter_steady _ _).bind fun _ => ih _

theorem bindResults_steady (results : List (String × Ty)) : Steady (bindResults results) := by
  induction results with
  | nil => exact .pure _
  | cons result rest ih =>
    exact (emitZero_steady _).bind fun _ => (createAndStore_steady _).bind fun _ => ih

theorem bindReceiver_steady (receiver : Receiver) : Steady (bindReceiver receiver) :=
  .bind (emitOp_steady rfl) fun _ => .optional (emitOp_steady rfl) fun _ => createAndStore_steady _

theorem statementsUntilClose_steady (h : rules.Steady) :
    SteadyWithin (statementsUntilClose rules) :=
  .repeatWhile <| .bind (.quiet (accept_quiet _)) fun _ => .ite (.pure _) <|
    .bind (.quiet atEnd_quiet) fun _ => .guarded (fail_refuses _ (by nofun)) <|
      h.statement.bind fun _ => .pure _

theorem emitArgCheck_steady (name : String) (s : Signature) : Steady (emitArgCheck name s) :=
  emit_steady rfl rfl

/-- A compiler that writes the prologue of a function. -/
def Begins (o : Outline) (is : List Instruction) (names : List String) (strict : Bool)
    (c : Compiler) : Prop := c.Fits (o.within []) ∧ c.Drafts is names strict

theorem Begins.leads {α : Type} {m : CompileM α} {is js : List Instruction}
    {names names' : List String} {strict : Bool} (h : Steady m)
    (k : Yields (Compiler.Drafts is names strict) m fun _ => Compiler.Drafts js names' strict) :
    Leads (Begins o is names strict) m fun _ => Begins o js names' strict :=
  (Leads.steady h).both k

/-- The code of a function starts with its prologue. -/
theorem compileBody_leads (h : rules.Steady) (name : String) (receiver : Option Receiver)
    (settled : o.waiting = []) (free : o.kept = []) (strict : Bool) :
    Leads (Begins o [] [] strict) (compileBody rules name receiver) fun d c =>
      c.Fits (o.within []) ∧ d.Enters strict c.draft.code := by
  refine (Begins.leads (.quiet signature_quiet) (.quiet signature_quiet fun _ => .moved)).bind fun s =>
    (Begins.leads (.quiet (isNext_quiet _)) (.quiet (isNext_quiet _) fun _ => .moved)).bind fun _ =>
      .guarded (failAbout_refuses _ _ (by nofun)) fun _ => ?_
  let d : Declaration :=
    { name := name, parameters := s.parameters, returns := s.returns, variadic := s.variadic
      receiver := receiver.map Receiver.name }
  let names := s.parameters.map Parameter.name
  have begins : Leads (Begins o [] [] strict) (modifyDraft fun d =>
      { d with returns := some s.returns, namedResults := s.namedResults }) fun _ =>
        Begins o [] [] strict :=
    Begins.leads (.modifyDraft (fun _ => rfl) fun _ => rfl)
      (.of_same (fun _ => rfl) (fun _ => rfl) fun _ => rfl)
  refine begins.bind fun _ => ((Leads.steady atLine_steady).both atLine_yields).bind fun _ => ?_
  refine .before (.some fun line => .some fun last => ?_) fun c ⟨fits, line, last, drafts⟩ =>
    (⟨line, last, fits, drafts⟩ : ∃ line last, Begins o (lineCode line last) [] strict c)
  let prologue := d.prologue strict line last receiver
  have finish : Leads (Begins o prologue (names ++ receiver.toList.map Receiver.name) strict) (do
      bindResults (s.namedResults.zip s.returns)
      expect "\x7b"
      statementsUntilClose rules
      emitInt .leave 0
      Pure.pure d) fun d c => c.Fits (o.within []) ∧ d.Enters strict c.draft.code := by
    refine .before (.given fun distinct => ?_) fun c begun =>
      ⟨begun.2.distinct, begun.1.hold settled begun.2 (.prologue d strict line last receiver)⟩
    have steady {m : CompileM Unit} (h : SteadyWithin m) := h (o.holding prologue) []
    refine (steady (bindResults_steady _).within).bind fun _ =>
      (steady (.quiet (expect_quiet _))).bind fun _ =>
        (steady (statementsUntilClose_steady h)).bind fun _ =>
          (steady (Steady.within (emitInt_steady rfl))).bind fun _ => .pure fun c fits =>
            ⟨fits.forget free, line, last, receiver, rfl, fits.held, distinct⟩
  refine (Begins.leads (emitArgCheck_steady _ _) (emitArgCheck_yields d s rfl rfl)).bind fun _ =>
    (Begins.leads (bindParameters_steady _ _ _) (bindParameters_yields _ _ _)).bind fun _ => ?_
  cases receiver with
  | some r =>
    exact (Begins.leads (bindReceiver_steady r) (bindReceiver_yields r)).bind fun _ => finish
  | none =>
    refine finish.before fun c begun => ?_
    have whole : prologue = lineCode line last ++ [d.checkArity] ++
        parametersCode strict s.variadic 0 s.parameters := List.append_nil _
    rw [whole]
    exact (List.append_nil names).symm ▸ begun

/-- A compiler that begins a draft of its own. -/
def beginDraft (name : String) (c : Compiler) : Compiler :=
  { c with draft := { code := { name := name }, lastLine := c.draft.lastLine }, noStructLiteral := false }

theorem inDraft_eq {α : Type} (step : CompileM α) (name : String) (c : Compiler) :
    inDraft name step c =
      ((step (beginDraft name c)).1.map fun a => (a, (step (beginDraft name c)).2.draft),
        { (step (beginDraft name c)).2 with draft := c.draft, noStructLiteral := c.noStructLiteral }) := by
  unfold inDraft beginDraft
  dsimp only
  rcases step _ with ⟨_ | _, after⟩ <;> rfl

/-- What is known of a draft where it begins. -/
def ownOutline (base units : Nat) : Outline :=
  { base := base, units := units, size := 0, waiting := [], kept := []
    loops := fun _ => True, opens := leaving }

theorem beginDraft_begins {base : Nat} {c : Compiler} (finished : Finished base c.codes)
    (low : base ≤ c.codes.size) (name : String) :
    Begins (ownOutline base c.codes.size) [] [] (c.strictness == .strict) (beginDraft name c) :=
  ⟨⟨.empty, .nothing _ _, finished, low, Nat.le_refl _, Nat.zero_le _, rfl, nofun⟩,
    rfl, rfl, .nil, rfl⟩

/-- The code of a draft of its own is settled, for all loops in it have ended. -/
theorem inDraft_leads {α : Type} {step : CompileM α}
    (h : ∀ own strict, own.waiting = [] → own.kept = [] → Leads (Begins own [] [] strict) step
      fun _ => Compiler.Fits (own.within [])) (name : String) :
    Leads (Compiler.Fits o) (inDraft name step) fun (_, inner) =>
      Compiler.FitsWith o fun units => inner.code.Settled o.base units [] := by
  intro c fits
  obtain ⟨⟨⟨more, inert, same⟩, ordinary⟩, leads⟩ :=
    h (ownOutline o.base c.codes.size) _ rfl rfl _ (beginDraft_begins fits.finished fits.base name)
  refine ⟨⟨⟨more, inert, fun codes size => ?_⟩, ?_⟩, fun (a, inner) c' run => ?_⟩
  · have same : step (beginDraft name (c.over codes)) = _ := same codes size
    rw [inDraft_eq, inDraft_eq, same]
    rfl
  · rw [inDraft_eq]
    exact ordinary.map _
  rw [inDraft_eq] at run
  rcases ran : step (beginDraft name c) with ⟨_ | _, c₁⟩ <;> rw [ran] at run <;> cases run
  have after := leads _ _ ran
  have none : c₁.draft.loops = [] := List.map_eq_nil_iff.1 after.loops.1
  have settled := after.settled
  rw [none] at settled
  exact ⟨c₁.codes.size, fits.units.trans after.units, settled,
    fits.settled.mono after.units, fits.kept, after.finished, after.base, Nat.le_refl _,
    fits.size, fits.loops⟩

/-- A function starts with the prologue that its declaration asks for at the level at which it is
compiled. -/
theorem functionBody_enters (h : rules.Steady) {name : String} {receiver : Option Receiver}
    {c c' : Compiler} {r : CodeRef} {function : Code}
    (run : functionBody rules name receiver c = (.ok r, c')) (found : c'.codes[r.index]? = some function) :
    ∃ d, function.declaration = some d ∧ d.Enters (c.strictness == .strict) function := by
  obtain ⟨⟨d, inner⟩, c₁, drafted, added⟩ := bind_ok run
  cases added
  rw [Array.getElem?_push_size] at found
  cases found
  have none : Finished c.codes.size c.codes := fun u code low there => by
    rw [Array.getElem?_eq_none low] at there
    cases there
  have leads := (compileBody_leads h name receiver rfl rfl _ _
    (beginDraft_begins none (Nat.le_refl _) name)).2
  rw [inDraft_eq] at drafted
  rcases ran : compileBody rules name receiver (beginDraft name c) with ⟨_ | _, c₂⟩ <;>
    rw [ran] at drafted <;> cases drafted
  have enters := (leads _ _ ran).2
  refine ⟨d, (Code.close_keeps _).2.1, ?_⟩
  exact Declaration.Enters.close enters

theorem functionBody_makes (h : rules.Steady) (name : String) (receiver : Option Receiver) :
    Makes (functionBody rules name receiver) := by
  intro o c fits
  have body (own : Outline) (strict : Bool) (settled : own.waiting = []) (free : own.kept = []) :=
    (compileBody_leads (o := own) h name receiver settled free strict).after fun _ _ => And.left
  -- The unit that is added knows the run that it comes of.
  have drafted : Yields (· = c) (inDraft name (compileBody rules name receiver)) fun a c₁ =>
      inDraft name (compileBody rules name receiver) c = (.ok a, c₁) := by
    rintro _ rfl a c₁ run
    exact run
  refine ((inDraft_leads body name).both drafted).bind (fun ⟨declaration, inner⟩ => ?_) c ⟨fits, rfl⟩
  refine .before (.some fun units => .given fun more => .given fun settled => ?_)
    fun c₁ ⟨⟨units, more, settled, fits⟩, run⟩ => (⟨units, more, settled, fits, run⟩ : ∃ units,
      o.units ≤ units ∧ inner.code.Settled o.base units [] ∧ c₁.Fits (o.having units) ∧
        inDraft name (compileBody rules name receiver) c = (.ok (declaration, inner), c₁))
  refine .readAs (fun _ _ => rfl) fun c₁ => ?_
  let code := { inner.code with
    declaration := some declaration, package := some (c₁.package.getD c₁.moduleName) }
  have unit : code.Settled o.base units [] := settled.of_same rfl fun _ => id
  refine .before (.given fun prepared => (addCode_leads (o := o.having units)
    ⟨unit.all_ready.close, prepared, unit.recorded⟩).after
      fun r c ⟨units', more', there, fits⟩ => ⟨units', more.trans more', there, fits⟩)
    fun c₂ ⟨same, fits, run⟩ => (⟨?_, fits⟩ : code.close.Prepared ∧ c₂.Fits (o.having units))
  subst same
  intro d declared lexical
  have added : functionBody rules name receiver c = (.ok ⟨c₂.codes.size⟩,
      { c₂ with codes := c₂.codes.push code.close }) := (bind_of_ok run).trans rfl
  have found : (c₂.codes.push code.close)[c₂.codes.size]? = some code.close :=
    Array.getElem?_push_size
  obtain ⟨d', same, enters⟩ := functionBody_enters h added found
  obtain rfl : d' = d := Option.some.inj (same.symm.trans declared)
  obtain ⟨imports, depth, rfl⟩ := h.known
  exact ⟨c.strictness, ⟨imports, depth, name, receiver, c, _, _, added, found, rfl⟩, enters⟩

/-- The steps behind a function that has been compiled have a unit for it. -/
theorem Makes.bind {m : CompileM CodeRef} {f : CodeRef → CompileM Unit} (h : Makes m)
    (next : ∀ r o, o.base ≤ r.index → r.index < o.units →
      Leads (Compiler.Fits o) (f r) fun _ => Compiler.Fits o) : Steady (m >>= f) := fun o =>
  (h o).bind fun r => .enough fun units _ there => next r (o.having units) there.1 there.2

/-- A function that has been compiled is pushed. -/
theorem Makes.push {m : CompileM CodeRef} (h : Makes m) (env : Option TableRef) :
    Steady (m >>= fun r => emitValue (.function r env)) :=
  h.bind fun _ _ own there => emitFunction_leads own there

theorem functionLiteral_steady (h : rules.Steady) : Steady (functionLiteral rules) :=
  .bind (.quiet receiverBinding_quiet) fun receiver =>
    .bind (.of_same (fun _ => rfl) (fun _ => rfl) (fun _ _ => rfl) fun _ => .ok _) fun _ =>
      .read (fun _ _ => rfl) fun _ => (functionBody_makes h _ receiver).push none

theorem methodDeclaration_steady (h : rules.Steady) : Steady (methodDeclaration rules) := by
  refine .bind (.quiet skip_quiet) fun _ => .bind (.quiet (expect_quiet _)) fun _ =>
    .bind (.quiet identifier_quiet) fun receiver => .bind (.quiet (accept_quiet _)) fun shared =>
    .bind (.quiet identifier_quiet) fun typeName => .bind (.quiet (expect_quiet _)) fun _ =>
    .read (fun _ _ => rfl) fun c => ?_
  have store : Steady (do
      let name ← identifier
      let code ← functionBody rules (typeName ++ "." ++ name) (some ⟨receiver, shared⟩)
      emitName .load typeName
      emitValue (.string name)
      emitValue (.function code none)
      emitOp .storeIndex
      emitOp .drop) := by
    refine .bind (.quiet identifier_quiet) fun name => (functionBody_makes h _ _).bind
      fun r o own there => ?_
    exact .bind (.steady (emitName_steady rfl)) fun _ => .bind (.steady (emitValue_steady rfl))
      fun _ => (emitFunction_leads own there).bind fun _ => .bind (.steady (emitOp_steady rfl))
      fun _ => .steady (emitOp_steady rfl)
  exact .ite (.bind (.quiet (back_quiet _)) fun _ => .refuses ((fail_refuses _ (by nofun)).bind _)) store

theorem namedFunction_steady (h : rules.Steady) : Steady (namedFunction rules) := by
  refine .bind (.quiet skip_quiet) fun _ => .bind (.quiet identifier_quiet) fun name =>
    .bind (.quiet receiverBinding_quiet) fun receiver => (functionBody_makes h _ _).bind
      fun r o own there => (emitFunction_leads own there).bind fun _ => .steady ?_
  refine .bind (.quiet atTopLevel_quiet) fun top => (declare_steady name).bind fun new => ?_
  have stores : Steady (do
      emitName .store name
      if top = true ∧ name = "main" then modify fun c => { c with hasMain := true }) :=
    .bind (emitName_steady rfl) fun _ =>
      .ite (.of_same (fun _ => rfl) (fun _ => rfl) (fun _ _ => rfl) fun _ => .ok _) (.pure _)
  exact .ite (.ite ((exportName_steady name).bind fun _ => .bind (emitName_steady rfl) fun _ => stores)
    (.bind (emitName_steady rfl) fun _ => stores)) stores

/-! ## Literals -/

section

variable {part : CompileM Unit}

theorem listUntil_steady (closing : String) (h : Steady part) : Steady (listUntil closing part) :=
  .repeatTurns (fun count => .bind (.quiet (accept_quiet _)) fun _ => .ite (.pure _) <|
    .bind (.quiet atEnd_quiet) fun _ => .guarded (fail_refuses _ (by nofun)) <|
      have again : Steady (part >>= fun _ => Pure.pure (Turn.again (count + 1)) :
          CompileM (Turn Nat Nat)) := h.bind fun _ => .pure _
      .ite (.bind (.quiet (expect_quiet _)) fun _ => .bind (.quiet (accept_quiet _)) fun _ =>
        .ite (.pure _) again) again) _

theorem pairs_steady (h : Steady part) : Steady (pairs part) :=
  .bind (.quiet (expect_quiet _)) fun _ => (listUntil_steady _ h).withLiterals _

end

theorem elementList_steady (h : rules.Steady) (opening closing : String) :
    Steady (elementList rules opening closing) :=
  .bind (.quiet (expect_quiet _)) fun _ => (listUntil_steady _ h.expression).withLiterals _

theorem literalKey_steady (h : rules.Steady) : Steady (literalKey rules) :=
  .bind (.quiet current_quiet) fun t => .bind (.quiet (peek_quiet _)) fun _ =>
    .ite (.bind (.quiet skip_quiet) fun _ => .bind (.quiet (spell_quiet t)) fun _ =>
      emitValue_steady rfl) h.expression

theorem structLiteral_steady (h : rules.Steady) : Steady (structLiteral rules) :=
  .bind (pairs_steady <| (literalKey_steady h).bind fun _ => .bind (.quiet (expect_quiet _))
    fun _ => h.expression) fun _ => emitInt_steady rfl

theorem mapLiteral_steady (h : rules.Steady) (t : Ty) : Steady (mapLiteral rules t) :=
  .bind (pairs_steady <| h.expression.bind fun _ => .bind (.quiet (expect_quiet _))
    fun _ => h.expression) fun _ => emit_steady rfl rfl

theorem entryValue_steady (h : rules.Steady) (position : Nat) : Steady (do
    rules.expression
    emitOp .storeIndex
    Pure.pure (Turn.again (position + 1)) : CompileM (Turn Nat Unit)) :=
  h.expression.bind fun _ => .bind (emitOp_steady rfl) fun _ => .pure _

theorem typedEntry_steady (h : rules.Steady) (fields : List String) (position : Nat) : Steady (do
    if (← current).isIdentifier && (← peek 2).is ":" then
      literalKey rules
      expect ":"
    else
      match fields[position]? with
      | some field => emitValue (.string field)
      | none => fail .invalidField
    rules.expression
    emitOp .storeIndex
    Pure.pure (Turn.again (position + 1)) : CompileM (Turn Nat Unit)) := by
  have value := entryValue_steady h position
  refine .bind (.quiet current_quiet) fun _ => .bind (.quiet (peek_quiet _)) fun _ => .ite
    ((literalKey_steady h).bind fun _ => .bind (.quiet (expect_quiet _)) fun _ => value) ?_
  split
  · exact .bind (emitValue_steady rfl) fun _ => value
  · exact .refuses ((fail_refuses _ (by nofun)).bind _)

theorem typedEntries_steady (h : rules.Steady) (fields : List String) :
    Steady (typedEntries rules fields) := by
  refine .bind (.quiet (expect_quiet _)) fun _ => .withLiterals (.repeatTurns (fun position => ?_) _) _
  have entry := typedEntry_steady h fields position
  exact .bind (.quiet (accept_quiet _)) fun _ => .ite (.pure _) <|
    .bind (.quiet atEnd_quiet) fun _ => .guarded (fail_refuses _ (by nofun)) <|
      .ite (.bind (.quiet (expect_quiet _)) fun _ => .bind (.quiet (accept_quiet _)) fun _ =>
        .ite (.pure _) entry) entry

theorem typedStructLiteral_steady (h : rules.Steady) (name : String) :
    Steady (typedStructLiteral rules name) :=
  .bind (emitName_steady rfl) fun _ => .bind (emitName_steady rfl) fun _ =>
    (emitCall_steady _ _).bind fun _ => .bind (.quiet (.of_eq (fun _ _ => rfl) fun _ => .ok _)) fun _ =>
      typedEntries_steady h _

theorem arrayPrimary_steady (h : rules.Steady) : Steady (arrayPrimary rules) :=
  .bind (.quiet (.of_eq (fun _ _ => rfl) fun _ => .ok _)) fun _ => .ite
    (.bind (.quiet parseType_quiet) fun _ => .bind (.quiet (isNext_quiet _)) fun _ => .ite
      ((elementList_steady h _ _).bind fun _ => emit_steady rfl rfl) (emitValue_steady rfl))
    ((elementList_steady h _ _).bind fun _ => emitInt_steady rfl)

/-! ## Primaries -/

theorem reservedPrimary_steady (h : rules.Steady) (word : String) :
    Steady (reservedPrimary rules word) := by
  unfold reservedPrimary
  split
  · exact .bind (.quiet skip_quiet) fun _ => emitValue_steady rfl
  · exact .bind (.quiet skip_quiet) fun _ => functionLiteral_steady h
  · exact .bind (.quiet parseType_quiet) fun _ => .bind (.quiet (isNext_quiet _)) fun _ =>
      .ite (mapLiteral_steady h _) (emitValue_steady rfl)
  · exact .bind (.quiet parseType_quiet) fun _ => emitValue_steady rfl
  · exact .bind (.quiet parseType_quiet) fun _ => emitValue_steady rfl
  · exact .bind (.quiet parseType_quiet) fun _ => emitValue_steady rfl
  · exact .refuses (fail_refuses _ (by nofun))

theorem identifierPrimary_steady (h : rules.Steady) : Steady (identifierPrimary rules) :=
  .bind (.quiet identifier_quiet) fun name => .bind (.quiet (isNext_quiet _)) fun _ => .ite
    (.bind (.quiet (expect_quiet _)) fun _ => h.expression.bind fun _ =>
      .bind (.quiet (expect_quiet _)) fun _ => emitOp_steady rfl)
    (.read (fun _ _ => rfl) fun _ => .ite (typedStructLiteral_steady h name) (emitName_steady rfl))

theorem numberPrimary_steady (t : Token) {value : Option Value}
    (plain : ∀ v ∈ value, (Operand.value v).isPlain = true) : Steady (numberPrimary t value) := by
  refine .bind (.quiet skip_quiet) fun _ => ?_
  cases value with
  | some v => exact emitValue_steady (plain v rfl)
  | none => exact .refuses (failAbout_refuses _ _ (by nofun))

theorem parenthesized_steady (h : rules.Steady) : Steady (parenthesized rules) :=
  .bind (.quiet skip_quiet) fun _ => (h.expression.withLiterals _).bind fun _ =>
    .quiet (expect_quiet _)

theorem primary_steady (h : rules.Steady) : Steady (primary rules) := by
  refine .bind (.quiet current_quiet) fun t => ?_
  split
  · refine numberPrimary_steady t fun v mem => ?_
    obtain ⟨n, -, rfl⟩ := Option.map_eq_some_iff.1 mem
    rfl
  · refine numberPrimary_steady t fun v mem => ?_
    obtain ⟨n, -, rfl⟩ := Option.map_eq_some_iff.1 mem
    rfl
  · exact .bind (.quiet skip_quiet) fun _ => emitValue_steady rfl
  · exact .bind (.quiet skip_quiet) fun _ => emitValue_steady rfl
  · exact identifierPrimary_steady h
  · exact reservedPrimary_steady h _
  · exact .ite (parenthesized_steady h) <| .ite (arrayPrimary_steady h) <|
      .ite (structLiteral_steady h) <| .refuses (fail_refuses _ (by nofun))
  · exact .refuses (fail_refuses _ (by nofun))

/-! ## Accesses and calls -/

theorem sliceEnd_steady (h : rules.Steady) : Steady (sliceEnd rules) :=
  .bind (.quiet (isNext_quiet _)) fun _ => .ite
    (.bind (emitName_steady rfl) fun _ => .bind (emitInt_steady rfl) fun _ => emitCall_steady _ _)
    h.expression

theorem indexOrSlice_steady (h : rules.Steady) : Steady (indexOrSlice rules) := by
  refine .bind (.quiet (expect_quiet _)) fun _ => .withLiterals
    (.bind (.quiet (isNext_quiet _)) fun _ => ?_) _
  have behind : Steady (do
      if ← accept ":" then
        sliceEnd rules
        expect "]"
        emitOp .loadSlice
      else
        expect "]"
        emitOp .loadIndex) :=
    .bind (.quiet (accept_quiet _)) fun _ => .ite
      ((sliceEnd_steady h).bind fun _ => .bind (.quiet (expect_quiet _)) fun _ => emitOp_steady rfl)
      (.bind (.quiet (expect_quiet _)) fun _ => emitOp_steady rfl)
  exact .ite (.bind (emitValue_steady rfl) fun _ => behind) (h.expression.bind fun _ => behind)

theorem arguments_steady (h : rules.Steady) : Steady (arguments rules) := by
  refine .bind (.quiet (expect_quiet _)) fun _ => .withLiterals (.repeatTurns (fun taken => ?_) _) _
  have argument : Steady (do
      rules.expression
      let spread ← accept "..."
      if spread then emitOp .flatten
      if ← atEnd then fail (.missing ")")
      Pure.pure (Turn.again (taken.1 + 1, spread)) : CompileM (Turn (Nat × Bool) (Nat × Bool))) :=
    h.expression.bind fun _ => .bind (.quiet (accept_quiet _)) fun _ =>
      .optional (emitOp_steady rfl) fun _ => .bind (.quiet atEnd_quiet) fun _ =>
        .guarded (fail_refuses _ (by nofun)) (.pure _)
  exact .bind (.quiet (accept_quiet _)) fun _ => .ite (.pure _) <|
    .ite (.bind (.quiet (expect_quiet _)) fun _ => .bind (.quiet (accept_quiet _)) fun _ =>
      .ite (.pure _) (.guarded (fail_refuses _ (by nofun)) argument)) (.guarded (fail_refuses _ (by nofun)) argument)

theorem memberAccess_steady (h : rules.Steady) : Steady (memberAccess rules) := by
  refine .bind (.quiet next_quiet) fun t => .bind (.quiet identifier_quiet) fun name =>
    .bind (.quiet sameLine_quiet) fun _ => .bind (.quiet (isNext_quiet _)) fun _ => ?_
  have reads : Steady (emitName (if t.is "->" then .classMember else .member) name) :=
    emitName_steady (by split <;> rfl)
  exact .ite (.bind (emitOp_steady rfl) fun _ => .bind (emitOp_steady rfl) fun _ => reads.bind fun _ =>
    (arguments_steady h).bind fun _ => emitCall_steady _ _) reads

theorem reference_steady (h : rules.Steady) : Steady (reference rules) :=
  (primary_steady h).bind fun _ => .repeatWhile <| .bind (.quiet sameLine_quiet) fun _ =>
    .bind (.quiet (isNext_quiet _)) fun _ => .ite ((indexOrSlice_steady h).bind fun _ => .pure _) <|
      .bind (.quiet (isNext_quiet _)) fun _ => .ite
        ((arguments_steady h).bind fun _ => (emitCall_steady _ _).bind fun _ => .pure _) <|
        .bind (.quiet (isAnyNext_quiet _)) fun _ => .ite
          ((memberAccess_steady h).bind fun _ => .pure _) (.pure _)

/-! ## Operators -/

theorem unaryWith_steady (h : rules.Steady) : Steady (unaryWith rules) :=
  .bind (.quiet (isAnyNext_quiet _)) fun _ => .ite
    (.bind (.quiet skip_quiet) fun _ => h.unary.bind fun _ => emitOp_steady rfl) <|
    .bind (.quiet (accept_quiet _)) fun _ => .ite
      (h.unary.bind fun _ => .bind (emitOp_steady rfl) fun _ => .bind (emitOp_steady rfl) fun _ =>
        .bind (emitName_steady rfl) fun _ => emitCall_steady _ _) <|
      .bind (.quiet (isAnyNext_quiet _)) fun _ => .ite
        (.bind (.quiet skip_quiet) fun _ => h.unary) (reference_steady h)

theorem operator_quiet (operators : List String) : Quiet (operator operators) := by
  refine sameLine_quiet.bind fun _ => .ite (.pure _) (.read (fun _ _ => rfl) fun c => ?_)
  extract_lets cursor
  split
  · exact skip_quiet.bind fun _ => .pure _
  · exact .pure _

theorem leftChain_steady (operators : List String) {operand : CompileM Unit}
    {apply : String → CompileM Unit} (first : Steady operand) (more : ∀ op, Steady (apply op)) :
    Steady (leftChain operators operand apply) := by
  refine first.bind fun _ => .repeatWhile (.bind (.quiet (operator_quiet _)) fun op => ?_)
  cases op with
  | some op => exact (more op).bind fun _ => .pure _
  | none => exact .pure _

theorem multiplicativeOp_steady (op : String) : Steady (multiplicativeOp op) := by
  unfold multiplicativeOp
  split
  all_goals first | exact emitOp_steady rfl | exact .bind (emitOp_steady rfl) fun _ => emitOp_steady rfl

theorem multiplicative_steady (h : rules.Steady) : Steady (multiplicative rules) :=
  leftChain_steady _ (unaryWith_steady h) fun op => (unaryWith_steady h).bind fun _ =>
    multiplicativeOp_steady op

theorem additive_steady (h : rules.Steady) : Steady (additive rules) :=
  leftChain_steady _ (multiplicative_steady h) fun op => (multiplicative_steady h).bind fun _ =>
    emitOp_steady (by unfold additiveOp; split <;> rfl)

theorem relation_steady (h : rules.Steady) : Steady (relation rules) :=
  leftChain_steady _ (additive_steady h) fun op => (additive_steady h).bind fun _ =>
    emitOp_steady (by unfold relationOp; split <;> rfl)

/-- Both branches of a short circuit get their targets. -/
theorem shortCircuit_steady (decides : Bool) {right : CompileM Unit} (h : Steady right) :
    Steady (shortCircuit decides right) := by
  have joins : Steady (emitOp (if decides then .or else .and)) :=
    emitOp_steady (by cases decides <;> rfl)
  have branches : (if decides then .branchTrue else .branchFalse : Opcode).isBranch = true := by
    cases decides <;> rfl
  exact fun o => .bind (.steady (emitOp_steady rfl)) fun _ => (emitFixup_leads branches).bind fun short =>
    .bind (.steady h) fun _ => .bind (.steady joins) fun _ => (emitFixup_leads rfl).bind fun finish =>
      patchHere_under.bind fun _ => .bind (.steady (emitOp_steady rfl)) fun _ =>
        .bind (.steady (emitValue_steady rfl)) fun _ => patchHere_leads

theorem logicalAnd_steady (h : rules.Steady) : Steady (logicalAnd rules) :=
  leftChain_steady _ (relation_steady h) fun _ => shortCircuit_steady _ (relation_steady h)

theorem logicalOr_steady (h : rules.Steady) : Steady (logicalOr rules) :=
  leftChain_steady _ (logicalAnd_steady h) fun _ => shortCircuit_steady _ (logicalAnd_steady h)

/-- Both branches of a choice get their targets. -/
theorem expressionWith_steady (h : rules.Steady) : Steady (expressionWith rules) := by
  refine (logicalOr_steady h).bind fun _ => .bind (.quiet sameLine_quiet) fun _ =>
    .bind (.quiet (isNext_quiet _)) fun _ => .ite (.bind (.quiet skip_quiet) fun _ o => ?_)
      (.pure _)
  exact (emitFixup_leads rfl).bind fun otherwise => .bind (.steady h.expression) fun _ =>
    .bind (.steady (.quiet (expect_quiet _))) fun _ => (emitFixup_leads rfl).bind fun finish =>
      patchHere_under.bind fun _ => .bind (.steady h.expression) fun _ => patchHere_leads

theorem condition_steady (h : rules.Steady) : Steady (condition rules) := h.expression.inHead

theorem expressionList_steady (h : rules.Steady) : Steady (expressionList rules) :=
  .repeatTurns (fun _ => h.expression.bind fun _ => .bind (.quiet (accept_quiet _)) fun _ =>
    .ite (.pure _) (.pure _)) _

end CompileM

end StackScript
