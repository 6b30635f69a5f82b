import StackScript.Proofs.Balance.Laying

/-!
# Expressions push one value

The code of an expression leaves one value more on the stack, on every way through it. A function in
an expression is a unit of its own, which is balanced if its statements are.

Main statements: `functionBody_idles` (the unit of a function is balanced) and
`expressionWith_evaluates`.
-/
namespace StackScript

open CompileM

/-- Rules by which expressions push one value, statements leave the stack as it was, and packages are
balanced units. Statements open so many scopes at most, one in another. -/
structure Nested.Balances (rules : Nested) (k : Nat) : Prop where
  few : k < countLimit
  expression : Evaluates rules.expression
  unary : Evaluates rules.unary
  statement : Acts k rules.statement
  ifStatement : Acts k rules.ifStatement
  package : ∀ name source directory, Held source → Idles (rules.package name source directory)

namespace CompileM

open Compiler (At)

variable {rules : Nested} {k : Nat} {o : Sketch} {σ ρ : Spot}

/-! ## Names and types -/

theorem atLine_idles : Idles atLine := fun _ =>
  .bind (.quiet current_quiet) fun _ => .read fun _ => .ite (fun _ => .bind (emit_keeps rfl) fun _ =>
    .of_same fun _ => ⟨rfl, rfl, rfl, rfl, rfl⟩) fun _ => .pure _

theorem declare_idles (name : String) : Idles (declare name) := by
  refine fun _ => .read fun c => ?_
  split
  · exact .ite (fun _ => .pure _) fun _ =>
      .bind (.of_same fun _ => ⟨rfl, rfl, rfl, rfl, rfl⟩) fun _ => .pure _
  · exact .pure _

theorem exportName_idles (name : String) : Idles (exportName name) := fun _ =>
  .of_same fun _ => ⟨rfl, rfl, rfl, rfl, rfl⟩

theorem createAndStore_emits (h : Tops σ ρ) (name : String) : Emits σ ρ (createAndStore name) :=
  .ite (fun _ => h.takes rfl) fun _ => (declare_idles name σ).bind fun _ =>
    .guarded (failAbout_refuses _ _ (by nofun)) <| .bind (.quiet atTopLevel_quiet) fun _ =>
      .optional (fun _ => exportName_idles name σ) fun _ =>
        .bind (h.keeps rfl) fun _ => h.takes rfl

theorem createTemp_emits (h : Tops σ ρ) (name : String) : Emits σ ρ (createTemp name) :=
  .bind (h.keeps rfl) fun _ => h.takes rfl

theorem constantZero_unmarked {t : Ty} {zero : Value} (h : constantZero t = some zero) (m : Marker) :
    zero ≠ .marker m := by
  rintro rfl
  unfold constantZero at h
  split at h
  · injection h with same
    unfold Value.zeroScalar at same
    split at same <;> cases same
  · split at h <;> cases h

/-- A call with one argument. -/
theorem emitCall_one : Emits (.above 2 σ) (.above 1 σ) (emitCall 1 {}) :=
  emitCall_emits (show 1 ≤ argumentLimit by decide) (show false = true → 0 < 1 by nofun) false

theorem emitZero_evaluates (t : Ty) : Evaluates (emitZero t) := by
  intro σ
  unfold emitZero
  split
  · next zero found => exact emitValue_pushes (constantZero_unmarked found)
  · refine .bind (emit_pushes rfl) fun _ => .read fun _ => ?_
    split
    · exact .bind (emit_pushes rfl) fun _ => emitCall_one
    · exact .bind (emitValue_pushes fun _ same => by cases same) fun _ => emitCall_one

theorem emitTypeCheck_emits (t : Ty) : Emits (.above 1 σ) (.above 1 σ) (emitTypeCheck t) := by
  refine .ite (fun _ => .pure _) fun _ => .ite (fun _ => emit_turns rfl) fun _ => .read fun c => ?_
  exact emit_turns (by split <;> rfl)

theorem emitDeclared_emits (h : Tops σ ρ) (declared : Option Ty) : Emits σ σ (emitDeclared declared) := by
  unfold emitDeclared
  split
  · exact .ite (fun _ => .pure _) fun _ => h.turns rfl
  · exact .pure _

/-! ## Functions -/

theorem bindParameter_idles (index : Nat) (p : Parameter) : Idles (bindParameter index p) := fun _ =>
  .bind (emit_pushes rfl) fun _ => .bind (emitValue_pushes nofun) fun _ =>
    .bind (emit_joins rfl) fun _ => (emitTypeCheck_emits _).bind fun _ =>
      createAndStore_emits .above _

theorem bindRest_idles (index : Nat) (p : Parameter) : Idles (bindRest index p) := fun _ =>
  .bind (emit_pushes rfl) fun _ => .bind (emitValue_pushes nofun) fun _ =>
    .bind (emit_pushes rfl) fun _ => .bind (emit_pushes rfl) fun _ =>
      emitCall_one.bind fun _ => .bind (emit_folds rfl) fun _ =>
        .optional (fun _ => emitTypeCheck_emits _) fun _ => createAndStore_emits .above _

theorem bindParameters_idles (variadic : Bool) (index : Nat) (ps : List Parameter) :
    Idles (bindParameters variadic index ps) := by
  intro σ
  induction ps generalizing index with
  | nil => exact .pure _
  | cons p rest ih =>
    cases rest with
    | nil => exact .ite (fun _ => bindRest_idles _ _ _) fun _ => bindParameter_idles _ _ _
    | cons => exact (bindParameter_idles _ _ _).bind fun _ => ih _

theorem bindResults_idles (results : List (String × Ty)) : Idles (bindResults results) := by
  intro σ
  induction results with
  | nil => exact .pure _
  | cons result rest ih =>
    exact (emitZero_evaluates _ _).bind fun _ => (createAndStore_emits .above _).bind fun _ => ih

theorem bindReceiver_idles (receiver : Receiver) : Idles (bindReceiver receiver) := fun _ =>
  .bind (emit_pushes rfl) fun _ => .optional (fun _ => emit_turns rfl) fun _ =>
    createAndStore_emits .above _

theorem statementsUntilClose_acts (h : rules.Balances k) : Acts k (statementsUntilClose rules) :=
  .repeatWhile <| .bind (.quiet (accept_quiet _)) fun _ => .ite (fun _ => .pure _) fun _ =>
    .bind (.quiet atEnd_quiet) fun _ => .guarded (fail_refuses _ (by nofun)) <|
      h.statement.bind fun _ => .pure _

/-- The end of a function gives the values that lie on the stack. -/
theorem emitLeave_emits {n s t : Nat} {operand : Operand} :
    Emits (.above n (.level s t)) ∅ (emit .leave operand) := by
  refine emit_emits (fun p mem => ⟨fun v taken => ?_, nofun, nofun⟩) nofun
  obtain ⟨vs, _, -, tame, rfl, rfl⟩ := Spot.mem_above.1 mem
  exact tame v (by simpa using List.mem_of_mem_take taken)

/-- Nothing is left to do where the body of a function ends. -/
theorem compileBody_lays (h : rules.Balances k) (name : String) (receiver : Option Receiver) :
    Lays (At .begun (.level 0 0)) (compileBody rules name receiver) fun _ => At .begun ∅ := by
  have room : Room k [] 0 0 := ⟨(Nat.zero_add _).trans_lt h.few, fun _ mem => by cases mem⟩
  refine .bind (Emits.quiet signature_quiet _) fun s => .bind (Emits.quiet (isNext_quiet _) _) fun _ =>
    .guarded (failAbout_refuses _ _ (by nofun)) fun _ =>
    .bind (Emits.of_same (fun _ => ⟨rfl, rfl, rfl, rfl, rfl⟩) _) fun _ => (atLine_idles _ _).bind fun _ =>
    .bind (emit_keeps rfl _) fun _ => (bindParameters_idles _ _ _ _ _).bind fun _ => ?_
  have ends (d : Declaration) : Lays (At .begun (.level 0 0)) (do
      bindResults (s.namedResults.zip s.returns)
      expect "\x7b"
      statementsUntilClose rules
      emitInt .leave 0
      Pure.pure d) fun _ => At .begun ∅ :=
    (bindResults_idles _ _ _).bind fun _ => .bind (Emits.quiet (expect_quiet _) _) fun _ =>
      (statementsUntilClose_acts h _ _ _ _ room).bind fun _ =>
        (emitLeave_emits (n := 0) _).bind fun _ => .pure fun _ => id
  cases receiver with
  | some r => exact (bindReceiver_idles r _ _).bind fun _ => ends _
  | none => exact ends _

/-- The unit of a function is balanced. -/
theorem functionBody_idles (h : rules.Balances k) (name : String) (receiver : Option Receiver) :
    Idles (functionBody rules name receiver) := fun _ _ =>
  (inDraft_lays (compileBody_lays h name receiver) name).bind fun (declaration, inner) =>
    .given fun carries => .read fun c => by
      have unit : Code.Carries (argumentLimit + 1) (.level 0 0) ∅ { inner.code with
          declaration := some declaration
          package := some (c.package.getD c.moduleName) } := carries.of_same rfl
      exact addCode_emits unit.close_balanced.1 _

theorem functionLiteral_evaluates (h : rules.Balances k) : Evaluates (functionLiteral rules) := fun _ =>
  .bind (.quiet receiverBinding_quiet) fun receiver =>
    .bind (.of_same fun _ => ⟨rfl, rfl, rfl, rfl, rfl⟩) fun _ => .read fun _ =>
      (functionBody_idles h _ receiver _).bind fun _ => emitValue_pushes nofun

theorem methodDeclaration_idles (h : rules.Balances k) : Idles (methodDeclaration rules) := fun σ => by
  refine .bind (.quiet skip_quiet) fun _ => .bind (.quiet (expect_quiet _)) fun _ =>
    .bind (.quiet identifier_quiet) fun receiver => .bind (.quiet (accept_quiet _)) fun shared =>
    .bind (.quiet identifier_quiet) fun typeName => .bind (.quiet (expect_quiet _)) fun _ =>
    .read fun c => ?_
  have store : Emits σ σ (do
      let name ← identifier
      let code ← functionBody rules (typeName ++ "." ++ name) (some ⟨receiver, shared⟩)
      emitName .load typeName
      emitValue (.string name)
      emitValue (.function code none)
      emitOp .storeIndex
      emitOp .drop) :=
    .bind (.quiet identifier_quiet) fun name => (functionBody_idles h _ _ _).bind fun _ =>
      .bind (emit_pushes rfl) fun _ => .bind (emitValue_pushes nofun) fun _ =>
        .bind (emitValue_pushes nofun) fun _ => .bind (emit_folds rfl) fun _ => Tops.above.takes rfl
  exact .ite (fun _ => .bind (.quiet (back_quiet _)) fun _ =>
    .refuses ((fail_refuses _ (by nofun)).bind _)) fun _ => store

theorem namedFunction_idles (h : rules.Balances k) : Idles (namedFunction rules) := fun σ => by
  refine .bind (.quiet skip_quiet) fun _ => .bind (.quiet identifier_quiet) fun name =>
    .bind (.quiet receiverBinding_quiet) fun receiver => (functionBody_idles h _ _ _).bind fun _ =>
    .bind (emitValue_pushes nofun) fun _ => .bind (.quiet atTopLevel_quiet) fun top =>
    (declare_idles name _).bind fun new => ?_
  have stores : Emits (.above 1 σ) σ (do
      emitName .store name
      if top = true ∧ name = "main" then modify fun c => { c with hasMain := true }) :=
    .bind (Tops.above.takes rfl) fun _ =>
      .ite (fun _ => .of_same fun _ => ⟨rfl, rfl, rfl, rfl, rfl⟩) fun _ => .pure _
  exact .ite (fun _ => .optional (fun _ => exportName_idles name _) fun _ =>
    .bind (emit_keeps rfl) fun _ => stores) fun _ => stores

/-! ## Literals -/

/-- What a count of parts says as an operand. -/
theorem countOf_ofNat {count : Nat} (less : count < countLimit) (default : Nat) :
    Exec.countOf (.int (Int64.ofNat count)) default = count := by
  change (Int64.ofNat count).toInt.toNat = count
  rw [toInt_ofNat less, Int.toNat_natCast]

theorem parts_int {count : Nat} (few : count ≤ argumentLimit) :
    (Exec.countAndPart (.int (Int64.ofNat count))).1 = count :=
  countOf_ofNat (few.trans_lt (by decide)) 0

theorem parts_tuple {count : Nat} (few : count ≤ argumentLimit) (part : Operand) :
    (Exec.countAndPart (.tuple [.int (Int64.ofNat count), part])).1 = count :=
  countOf_ofNat (few.trans_lt (by decide)) 0

theorem emitArray_emits {operand : Operand} {count : Nat}
    (reads : (Exec.countAndPart operand).1 = count) :
    Emits (.above count σ) (.above 1 σ) (emit .array operand) :=
  emit_exchange (congrArg (fun n => some (n, 1)) reads)

theorem emitStruct_emits {operand : Operand} {count : Nat}
    (reads : (Exec.countAndPart operand).1 = count) :
    Emits (.above (count * 2) σ) (.above 1 σ) (emit .struct operand) :=
  emit_exchange (congrArg (fun n => some (n * 2, 1)) reads)

/-- A list leaves the values of its parts, and is no longer than the source. -/
theorem listUntil_lays (closing : String) {part : CompileM Unit} {n : Nat}
    (h : ∀ σ, Emits σ (.above n σ) part) :
    Lays (At o σ) (listUntil closing part) fun count c =>
      count ≤ argumentLimit ∧ c.At o (.above (count * n) σ) := by
  refine .before (.repeatTurns (I := fun k count c => count ≤ k ∧ c.At o (.above (count * n) σ))
    (fun k few count => .given fun le => ?_) 0) fun c here => ⟨Nat.le_refl _, by rwa [Nat.zero_mul]⟩
  have stop : Lays (At o (.above (count * n) σ)) (Pure.pure (Turn.done count) : CompileM (Turn Nat Nat))
      (AfterTurn (fun count c => count ≤ k + 1 ∧ c.At o (.above (count * n) σ)) fun count c =>
        count ≤ argumentLimit ∧ c.At o (.above (count * n) σ)) :=
    .pure fun _ here => ⟨le.trans few.le, here⟩
  have again : Lays (At o (.above (count * n) σ)) (do
      part
      Pure.pure (Turn.again (count + 1)) : CompileM (Turn Nat Nat))
      (AfterTurn (fun count c => count ≤ k + 1 ∧ c.At o (.above (count * n) σ)) fun count c =>
        count ≤ argumentLimit ∧ c.At o (.above (count * n) σ)) := by
    refine (h _ o).bind fun _ => .pure fun c here => ⟨Nat.succ_le_succ le, ?_⟩
    rwa [Spot.above_above, Nat.add_comm, ← Nat.succ_mul] at here
  exact .bind (Emits.quiet (accept_quiet _) _) fun _ => .ite (fun _ => stop) fun _ =>
    .bind (Emits.quiet atEnd_quiet _) fun _ => .guarded (fail_refuses _ (by nofun)) fun _ =>
      .ite (fun _ => .bind (Emits.quiet (expect_quiet _) _) fun _ =>
        .bind (Emits.quiet (accept_quiet _) _) fun _ => .ite (fun _ => stop) fun _ => again)
        fun _ => again

/-- Lists that stand in brackets. -/
theorem bracketed_lays (opening closing : String) {part : CompileM Unit} {n : Nat}
    (h : ∀ σ, Emits σ (.above n σ) part) :
    Lays (At o σ) (do
      expect opening
      withLiterals false (listUntil closing part)) fun count c =>
        count ≤ argumentLimit ∧ c.At o (.above (count * n) σ) :=
  .bind (Emits.quiet (expect_quiet _) _) fun _ => (listUntil_lays closing h).withLiterals
    (fun _ _ same here => here.of_same same) (fun _ _ _ same there => there.imp_right (·.of_same same)) _

theorem elementList_lays (h : rules.Balances k) (opening closing : String) :
    Lays (At o σ) (elementList rules opening closing) fun count c =>
      count ≤ argumentLimit ∧ c.At o (.above count σ) :=
  (bracketed_lays opening closing h.expression).after fun count _ there => by
    rwa [Nat.mul_one] at there

theorem literalKey_evaluates (h : rules.Balances k) : Evaluates (literalKey rules) := fun σ =>
  .bind (.quiet current_quiet) fun t => .bind (.quiet (peek_quiet _)) fun _ =>
    .ite (fun _ => .bind (.quiet skip_quiet) fun _ => .bind (.quiet (spell_quiet t)) fun _ =>
      emitValue_pushes nofun) fun _ => h.expression σ

/-- A key and its value. -/
theorem pair_emits {key value : CompileM Unit} (hk : Evaluates key) (hv : Evaluates value) (σ : Spot) :
    Emits σ (.above 2 σ) (do
      key
      expect ":"
      value) :=
  (hk _).bind fun _ => .bind (.quiet (expect_quiet _)) fun _ => hv _

theorem structLiteral_evaluates (h : rules.Balances k) : Evaluates (structLiteral rules) := fun _ o =>
  (bracketed_lays _ _ (pair_emits (literalKey_evaluates h) h.expression)).bind fun _ =>
    .given fun few => emitStruct_emits (parts_int few) o

theorem mapLiteral_evaluates (h : rules.Balances k) (t : Ty) : Evaluates (mapLiteral rules t) := fun _ o =>
  (bracketed_lays _ _ (pair_emits h.expression h.expression)).bind fun _ =>
    .given fun few => emitStruct_emits (parts_tuple few _) o

/-- An entry of an instance is stored under its name. -/
theorem typedEntry_emits (h : rules.Balances k) (fields : List String) (position : Nat) :
    Emits (.above 1 σ) (.above 1 σ) (do
      if (← current).isIdentifier && (← peek 2).is ":" then
        literalKey rules
        expect ":"
      else
        match fields[position]? with
        | some field => emitValue (.string field)
        | none => fail .invalidField
      rules.expression
      emitOp .storeIndex
      Pure.pure (Turn.again (position + 1)) : CompileM (Turn Nat Unit)) := by
  have value : Emits (.above 2 σ) (.above 1 σ) (do
      rules.expression
      emitOp .storeIndex
      Pure.pure (Turn.again (position + 1)) : CompileM (Turn Nat Unit)) :=
    (h.expression _).bind fun _ => .bind (emit_folds rfl) fun _ => .pure _
  refine .bind (.quiet current_quiet) fun _ => .bind (.quiet (peek_quiet _)) fun _ => .ite (fun _ =>
    (literalKey_evaluates h _).bind fun _ => .bind (.quiet (expect_quiet _)) fun _ => value) fun _ => ?_
  split
  · exact .bind (emitValue_pushes nofun) fun _ => value
  · exact .refuses ((fail_refuses _ (by nofun)).bind _)

theorem typedEntries_emits (h : rules.Balances k) (fields : List String) :
    Emits (.above 1 σ) (.above 1 σ) (typedEntries rules fields) := by
  refine .bind (.quiet (expect_quiet _)) fun _ => .withLiterals (.repeatTurns (fun position => ?_) _) _
  have entry := typedEntry_emits (σ := σ) h fields position
  exact .bind (.quiet (accept_quiet _)) fun _ => .ite (fun _ => .pure _) fun _ =>
    .bind (.quiet atEnd_quiet) fun _ => .guarded (fail_refuses _ (by nofun)) <|
      .ite (fun _ => .bind (.quiet (expect_quiet _)) fun _ => .bind (.quiet (accept_quiet _)) fun _ =>
        .ite (fun _ => .pure _) fun _ => entry) fun _ => entry

theorem typedStructLiteral_evaluates (h : rules.Balances k) (name : String) :
    Evaluates (typedStructLiteral rules name) := fun _ =>
  .bind (emit_pushes rfl) fun _ => .bind (emit_pushes rfl) fun _ =>
    emitCall_one.bind fun _ => .bind (.quiet (.of_eq (fun _ _ => rfl) fun _ => .ok _)) fun _ =>
      typedEntries_emits h _

theorem arrayPrimary_evaluates (h : rules.Balances k) : Evaluates (arrayPrimary rules) := fun _ =>
  .bind (.quiet (.of_eq (fun _ _ => rfl) fun _ => .ok _)) fun _ => .ite
    (fun _ => .bind (.quiet parseType_quiet) fun _ => .bind (.quiet (isNext_quiet _)) fun _ => .ite
      (fun _ o => (elementList_lays h _ _).bind fun _ => .given fun few =>
        emitArray_emits (parts_tuple few _) o)
      fun _ => emitValue_pushes nofun)
    fun _ o => (elementList_lays h _ _).bind fun _ => .given fun few =>
      emitArray_emits (parts_int few) o

/-! ## Primaries -/

theorem reservedPrimary_evaluates (h : rules.Balances k) (word : String) :
    Evaluates (reservedPrimary rules word) := by
  intro σ
  unfold reservedPrimary
  split
  · exact .bind (.quiet skip_quiet) fun _ => emitValue_pushes nofun
  · exact .bind (.quiet skip_quiet) fun _ => functionLiteral_evaluates h _
  · exact .bind (.quiet parseType_quiet) fun _ => .bind (.quiet (isNext_quiet _)) fun _ =>
      .ite (fun _ => mapLiteral_evaluates h _ _) fun _ => emitValue_pushes nofun
  · exact .bind (.quiet parseType_quiet) fun _ => emitValue_pushes nofun
  · exact .bind (.quiet parseType_quiet) fun _ => emitValue_pushes nofun
  · exact .bind (.quiet parseType_quiet) fun _ => emitValue_pushes nofun
  · exact .refuses (fail_refuses _ (by nofun))

theorem emitPanic_emits : Emits σ ρ (emitOp .panic) :=
  (emit_emits .panic nofun).mono subset_rfl (Set.empty_subset _)

theorem identifierPrimary_evaluates (h : rules.Balances k) : Evaluates (identifierPrimary rules) :=
  fun _ => .bind (.quiet identifier_quiet) fun name => .bind (.quiet (isNext_quiet _)) fun _ => .ite
    (fun _ => .bind (.quiet (expect_quiet _)) fun _ => (h.expression _).bind fun _ =>
      .bind (.quiet (expect_quiet _)) fun _ => emitPanic_emits)
    fun _ => .read fun _ => .ite (fun _ => typedStructLiteral_evaluates h name _) fun _ =>
      emit_pushes rfl

theorem numberPrimary_evaluates (t : Token) {value : Option Value}
    (noMarker : ∀ v ∈ value, ∀ m, v ≠ .marker m) : Evaluates (numberPrimary t value) := fun _ => by
  refine .bind (.quiet skip_quiet) fun _ => ?_
  cases value with
  | some v => exact emitValue_pushes (noMarker v rfl)
  | none => exact .refuses (failAbout_refuses _ _ (by nofun))

theorem parenthesized_evaluates (h : rules.Balances k) : Evaluates (parenthesized rules) := fun _ =>
  .bind (.quiet skip_quiet) fun _ => (Emits.withLiterals (h.expression _) _).bind fun _ =>
    .quiet (expect_quiet _)

theorem primary_evaluates (h : rules.Balances k) : Evaluates (primary rules) := fun σ => by
  refine .bind (.quiet current_quiet) fun t => ?_
  split
  · refine numberPrimary_evaluates t (fun v mem => ?_) σ
    obtain ⟨n, -, rfl⟩ := Option.map_eq_some_iff.1 mem
    nofun
  · refine numberPrimary_evaluates t (fun v mem => ?_) σ
    obtain ⟨n, -, rfl⟩ := Option.map_eq_some_iff.1 mem
    nofun
  · exact .bind (.quiet skip_quiet) fun _ => emitValue_pushes nofun
  · exact .bind (.quiet skip_quiet) fun _ => emitValue_pushes nofun
  · exact identifierPrimary_evaluates h σ
  · exact reservedPrimary_evaluates h _ σ
  · exact .ite (fun _ => parenthesized_evaluates h σ) fun _ => .ite (fun _ => arrayPrimary_evaluates h σ)
      fun _ => .ite (fun _ => structLiteral_evaluates h σ) fun _ => .refuses (fail_refuses _ (by nofun))
  · exact .refuses (fail_refuses _ (by nofun))

/-! ## Accesses and calls -/

/-- An open bound is the length of the container, which lies below the lower bound. -/
theorem sliceEnd_emits (h : rules.Balances k) : Emits (.above 2 σ) (.above 3 σ) (sliceEnd rules) :=
  .bind (.quiet (isNext_quiet _)) fun _ => .ite (fun _ => .bind (ρ := .above 3 σ) (emit_pushes rfl) fun _ =>
    .bind (ρ := .above 4 σ) (emit_emits (.readStack rfl (by decide)) nofun) fun _ => emitCall_one)
    fun _ => h.expression _

theorem indexOrSlice_emits (h : rules.Balances k) :
    Emits (.above 1 σ) (.above 1 σ) (indexOrSlice rules) := by
  refine .bind (.quiet (expect_quiet _)) fun _ => .withLiterals
    (.bind (.quiet (isNext_quiet _)) fun _ => ?_) _
  have behind : Emits (.above 2 σ) (.above 1 σ) (do
      if ← accept ":" then
        sliceEnd rules
        expect "]"
        emitOp .loadSlice
      else
        expect "]"
        emitOp .loadIndex) :=
    .bind (.quiet (accept_quiet _)) fun _ => .ite
      (fun _ => (sliceEnd_emits h).bind fun _ => .bind (.quiet (expect_quiet _)) fun _ => emit_folds rfl)
      fun _ => .bind (.quiet (expect_quiet _)) fun _ => emit_joins rfl
  exact .ite (fun _ => .bind (emitValue_pushes nofun) fun _ => behind) fun _ =>
    (h.expression _).bind fun _ => behind

/-- What is known while the arguments of a call are read. -/
def Passed (o : Sketch) (σ : Spot) (most : Nat) (taken : Nat × Bool) (c : Compiler) : Prop :=
  (taken.1 ≤ most ∧ (taken.2 = true → 0 < taken.1)) ∧ c.At o (.args taken.1 taken.2 σ)

/-- Another argument, perhaps spread. -/
theorem argument_lays (h : rules.Balances k) {count most : Nat} (le : count ≤ most) :
    Lays (At o (.above count σ)) (do
      rules.expression
      let spread ← accept "..."
      if spread then emitOp .flatten
      if ← atEnd then fail (.missing ")")
      Pure.pure (Turn.again (count + 1, spread)) : CompileM (Turn (Nat × Bool) (Nat × Bool)))
      (AfterTurn (Passed o σ (most + 1)) (Passed o σ argumentLimit)) := by
  refine (h.expression _ o).bind fun _ => .bind (Emits.quiet (accept_quiet _) _) fun spread => ?_
  have ends : Lays (At o (.args (count + 1) spread σ)) (do
      if ← atEnd then fail (.missing ")")
      Pure.pure (Turn.again (count + 1, spread)) : CompileM (Turn (Nat × Bool) (Nat × Bool)))
      (AfterTurn (Passed o σ (most + 1)) (Passed o σ argumentLimit)) :=
    .bind (Emits.quiet atEnd_quiet _) fun _ => .guarded (fail_refuses _ (by nofun)) fun _ =>
      .pure fun _ here => ⟨⟨Nat.succ_le_succ le, fun _ => Nat.succ_pos count⟩, here⟩
  cases spread with
  | true => exact (emit_emits .flatten nofun o).bind fun _ => ends
  | false => exact ends

/-- The arguments of a call lie on the stack, the items of the last one if it was spread. -/
theorem arguments_lays (h : rules.Balances k) :
    Lays (At o σ) (arguments rules) (Passed o σ argumentLimit) := by
  refine .bind (Emits.quiet (expect_quiet _) _) fun _ => .withLiterals (P := At o σ) (.before
    (.repeatTurns (I := Passed o σ) (fun k few (count, spread) => ?_) (0, false))
    fun c here => ⟨⟨Nat.le_refl _, nofun⟩, here⟩) (fun _ _ same here => here.of_same same)
    (fun _ _ _ same there => there.imp_right (·.of_same same)) _
  refine .given fun ⟨le, positive⟩ => ?_
  have stop : Lays (At o (.args count spread σ))
      (Pure.pure (Turn.done (count, spread)) : CompileM (Turn (Nat × Bool) (Nat × Bool)))
      (AfterTurn (Passed o σ (k + 1)) (Passed o σ argumentLimit)) :=
    .pure fun _ here => ⟨⟨le.trans few.le, positive⟩, here⟩
  have again : Lays (At o (.args count spread σ)) (do
      if spread then fail .unexpectedToken
      rules.expression
      let spread ← accept "..."
      if spread then emitOp .flatten
      if ← atEnd then fail (.missing ")")
      Pure.pure (Turn.again (count + 1, spread)) : CompileM (Turn (Nat × Bool) (Nat × Bool)))
      (AfterTurn (Passed o σ (k + 1)) (Passed o σ argumentLimit)) := by
    refine .guarded (fail_refuses _ (by nofun)) fun single => ?_
    obtain rfl : spread = false := Bool.eq_false_iff.2 single
    exact argument_lays h le
  exact .bind (Emits.quiet (accept_quiet _) _) fun _ => .ite (fun _ => stop) fun _ =>
    .ite (fun _ => .bind (Emits.quiet (expect_quiet _) _) fun _ =>
      .bind (Emits.quiet (accept_quiet _) _) fun _ => .ite (fun _ => stop) fun _ => again) fun _ => again

theorem memberAccess_emits (h : rules.Balances k) :
    Emits (.above 1 σ) (.above 1 σ) (memberAccess rules) := by
  refine .bind (.quiet next_quiet) fun t => .bind (.quiet identifier_quiet) fun name =>
    .bind (.quiet sameLine_quiet) fun _ => .bind (.quiet (isNext_quiet _)) fun _ => ?_
  have reads (σ : Spot) : Emits (.above 1 σ) (.above 1 σ)
      (emitName (if t.is "->" then .classMember else .member) name) := emit_turns (by split <;> rfl)
  -- the receiver waits below the member that is called
  have waits : Emits (.above 2 σ) (.above 1 (.receiving σ)) (emitOp .setThis) :=
    emit_emits (Spot.receiving_above (σ := σ) (n := 1) ▸ .setThis) nofun
  exact .ite (fun _ => .bind (emit_emits .dup nofun) fun _ => waits.bind fun _ => (reads _).bind fun _ o =>
    (arguments_lays h).bind fun (_, _) => .given fun ⟨few, positive⟩ => emitCall_emits few positive true o)
    fun _ => reads σ

theorem reference_evaluates (h : rules.Balances k) : Evaluates (reference rules) := fun σ =>
  (primary_evaluates h σ).bind fun _ => .repeatWhile <| .bind (.quiet sameLine_quiet) fun _ =>
    .bind (.quiet (isNext_quiet _)) fun _ => .ite
      (fun _ => (indexOrSlice_emits h).bind fun _ => .pure _) fun _ =>
      .bind (.quiet (isNext_quiet _)) fun _ => .ite
        (fun _ o => (arguments_lays h).bind fun (_, _) => .given fun ⟨few, positive⟩ =>
          (emitCall_emits (σ := σ) few positive false o).bind fun _ => .pure fun _ => id) fun _ =>
        .bind (.quiet (isAnyNext_quiet _)) fun _ => .ite
          (fun _ => (memberAccess_emits h).bind fun _ => .pure _) fun _ => .pure _

/-! ## Operators -/

theorem unaryWith_evaluates (h : rules.Balances k) : Evaluates (unaryWith rules) := fun σ =>
  .bind (.quiet (isAnyNext_quiet _)) fun _ => .ite
    (fun _ => .bind (.quiet skip_quiet) fun _ => (h.unary σ).bind fun _ => emit_turns rfl) fun _ =>
    .bind (.quiet (accept_quiet _)) fun _ => .ite
      (fun _ => (h.unary σ).bind fun _ => .bind (emit_emits .dup nofun) fun _ =>
        .bind (ρ := .above 1 (.receiving σ))
          (emit_emits (Spot.receiving_above (σ := σ) (n := 1) ▸ .setThis) nofun) fun _ =>
        .bind (emit_turns rfl) fun _ =>
        emitCall_emits (show 0 ≤ argumentLimit by decide) (show false = true → 0 < 0 by nofun) true)
      fun _ => .bind (.quiet (isAnyNext_quiet _)) fun _ => .ite
        (fun _ => .bind (.quiet skip_quiet) fun _ => h.unary σ) fun _ => reference_evaluates h σ

theorem leftChain_evaluates (operators : List String) {operand : CompileM Unit}
    {apply : String → CompileM Unit} (first : Evaluates operand)
    (more : ∀ op σ, Emits (.above 1 σ) (.above 1 σ) (apply op)) :
    Evaluates (leftChain operators operand apply) := by
  refine fun σ => (first σ).bind fun _ => .repeatWhile (.bind (.quiet (operator_quiet _)) fun op => ?_)
  cases op with
  | some op => exact (more op σ).bind fun _ => .pure _
  | none => exact .pure _

theorem multiplicativeOp_emits (op : String) :
    Emits (.above 2 σ) (.above 1 σ) (multiplicativeOp op) := by
  unfold multiplicativeOp
  split
  all_goals first | exact emit_joins rfl | exact .bind (emit_turns rfl) fun _ => emit_joins rfl

theorem multiplicative_evaluates (h : rules.Balances k) : Evaluates (multiplicative rules) :=
  leftChain_evaluates _ (unaryWith_evaluates h) fun op _ => (unaryWith_evaluates h _).bind fun _ =>
    multiplicativeOp_emits op

theorem additive_evaluates (h : rules.Balances k) : Evaluates (additive rules) :=
  leftChain_evaluates _ (multiplicative_evaluates h) fun op _ => (multiplicative_evaluates h _).bind fun _ =>
    emit_joins (by unfold additiveOp; split <;> rfl)

theorem relation_evaluates (h : rules.Balances k) : Evaluates (relation rules) :=
  leftChain_evaluates _ (additive_evaluates h) fun op _ => (additive_evaluates h _).bind fun _ =>
    emit_joins (by unfold relationOp; split <;> rfl)

/-- Either way one value is left: what the left operand decides, or what both are joined to. -/
theorem shortCircuit_emits (decides : Bool) {right : CompileM Unit} (h : Evaluates right) :
    Emits (.above 1 σ) (.above 1 σ) (shortCircuit decides right) := by
  have joins : Emits (.above 2 σ) (.above 1 σ) (emitOp (if decides then .or else .and)) :=
    emit_joins (by cases decides <;> rfl)
  have branches : (if decides then .branchTrue else .branchFalse : Opcode) = .branchTrue ∨
      (if decides then .branchTrue else .branchFalse : Opcode) = .branchFalse := by
    cases decides <;> simp
  have isBranch : (if decides then .branchTrue else .branchFalse : Opcode).isBranch = true := by
    cases decides <;> rfl
  have decided : Emits σ (.above 1 σ) (emitValue (.bool decides)) := emitValue_pushes nofun
  exact fun o => .bind (emit_emits .dup nofun o) fun _ =>
    (emitFixup_lays isBranch (.branchIf branches)).bind fun _ =>
    .bind (h (.above 1 σ) _) fun _ => .bind (joins _) fun _ => (emitFixup_lays rfl .branch).bind fun _ =>
      (patchUnder_lays (Set.empty_subset _) subset_rfl).bind fun _ =>
        .bind (Tops.above.takes rfl _) fun _ => (decided _).bind fun _ =>
          patchHere_lays subset_rfl subset_rfl

theorem logicalAnd_evaluates (h : rules.Balances k) : Evaluates (logicalAnd rules) :=
  leftChain_evaluates _ (relation_evaluates h) fun _ _ => shortCircuit_emits _ (relation_evaluates h)

theorem logicalOr_evaluates (h : rules.Balances k) : Evaluates (logicalOr rules) :=
  leftChain_evaluates _ (logicalAnd_evaluates h) fun _ _ =>
    shortCircuit_emits _ (logicalAnd_evaluates h)

/-- Either choice leaves one value. -/
theorem expressionWith_evaluates (h : rules.Balances k) : Evaluates (expressionWith rules) := by
  refine fun σ => (logicalOr_evaluates h σ).bind fun _ => .bind (.quiet sameLine_quiet) fun _ =>
    .bind (.quiet (isNext_quiet _)) fun _ => .ite (fun _ => .bind (.quiet skip_quiet) fun _ o => ?_)
      fun _ => .pure _
  exact (emitFixup_lays rfl (.branchIf (.inr rfl))).bind fun _ => .bind (h.expression σ _) fun _ =>
    .bind (Emits.quiet (expect_quiet _) _) fun _ => (emitFixup_lays rfl .branch).bind fun _ =>
      (patchUnder_lays (Set.empty_subset _) subset_rfl).bind fun _ =>
        .bind (h.expression σ _) fun _ => patchHere_lays subset_rfl subset_rfl

theorem condition_evaluates (h : rules.Balances k) : Evaluates (condition rules) :=
  fun σ => (h.expression σ).inHead

/-- The values of a list of expressions lie on the stack. -/
theorem expressionList_lays (h : rules.Balances k) :
    Lays (At o σ) (expressionList rules) fun count c =>
      count ≤ argumentLimit ∧ c.At o (.above count σ) := by
  refine .before (.repeatTurns (I := fun k count c => count ≤ k ∧ c.At o (.above count σ))
    (fun k few count => .given fun le => ?_) 0) fun c here => ⟨Nat.le_refl _, here⟩
  have le : count + 1 ≤ k + 1 := Nat.succ_le_succ le
  exact (h.expression _ o).bind fun _ => .bind (Emits.quiet (accept_quiet _) _) fun _ => .ite
    (fun _ => .pure fun _ here => ⟨le, here⟩) fun _ => .pure fun _ here => ⟨le.trans few, here⟩

end CompileM

end StackScript
