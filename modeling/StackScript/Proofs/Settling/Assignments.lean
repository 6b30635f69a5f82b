import StackScript.Compiler.Statement
import StackScript.Proofs.Settling.Expressions

/-!
# Assignments and declarations are steady

The targets of an assignment, the value of a constant, the call of a `go` and the values of a
`return` are compiled on the side. They are settled there, and stay settled where they are joined.
The value of a constant is recorded before the instructions that declare it are emitted. Until they
are, the draft is one of which an outline is true, with instructions behind it.

Main statements: `assignment_steady`, `goStatement_steady`, `returnStatement_steady`,
`importSpec_steady` and `recordsConstant_leads` (when its declaration is complete, a constant that
is recorded is declared).
-/
namespace StackScript

open CompileM

/-- Code on the side that is settled. -/
def CompileM.Target.Settled (base limit : Nat) : Target → Prop
  | .name _ => True
  | .element container index =>
    container.Settled base limit [] ∧ index.Settled base limit []

/-- The code of the last step of a chain is settled. -/
def CompileM.Access.Settled (base limit : Nat) : Access → Prop
  | .index code => code.Settled base limit []
  | .field _ => True

theorem CompileM.Target.Settled.mono {base limit limit' : Nat} {t : Target}
    (h : t.Settled base limit) (units : limit ≤ limit') : t.Settled base limit' := by
  cases t with
  | name => exact h
  | element =>
    exact ⟨h.1.mono units, h.2.mono units⟩

theorem CompileM.Access.Settled.mono {base limit limit' : Nat} {access : Access}
    (h : access.Settled base limit) (units : limit ≤ limit') : access.Settled base limit' := by
  cases access with
  | index => exact Code.Settled.mono h units
  | field => exact h

namespace CompileM

variable {rules : Nested} {o : Outline}

/-! ## Targets -/

/-- Code of one plain instruction behind settled code. -/
theorem settled_push {code : Code} {base limit : Nat} (h : code.Settled base limit []) (op : Opcode)
    (operand : Operand) (goesOn : op.isBranch = false)
    (plain : operand.isPlain = true) :
    (code.push ⟨op, operand⟩).Settled base limit [] :=
  h.push (List.Subset.refl _) (.inl ⟨.plain goesOn plain, List.Subset.refl _⟩)

theorem joined_leads {code other : Code} {P : Compiler → Prop} {base limit : Nat}
    (h : code.Settled base limit []) (settled : other.Settled base limit []) :
    Leads P (joined code other) fun joint c => joint.Settled base limit [] ∧ P c := by
  unfold joined
  cases ok : code.append other with
  | ok joint => exact .pure fun _ before => ⟨(h.append settled ok).1, before⟩
  | error f => exact .refuses (throw_refuses (code.append_ordinary other f ok))

theorem Access.code_settled {base limit : Nat} {access : Access} (h : access.Settled base limit) :
    access.code.Settled base limit [] := by
  cases access with
  | index code => exact h
  | field name => exact settled_push .empty _ _ rfl rfl

theorem Access.take_leads {container : Code} {access : Access} {P : Compiler → Prop}
    {base limit : Nat} (h : container.Settled base limit []) (settled : access.Settled base limit) :
    Leads P (access.take container) fun code c => code.Settled base limit [] ∧ P c := by
  cases access with
  | index code =>
    exact (joined_leads h settled).bind fun joint => .pure fun c ⟨joins, before⟩ =>
      ⟨settled_push joins _ _ rfl rfl, before⟩
  | field name => exact .pure fun c before => ⟨settled_push h _ _ rfl rfl, before⟩

theorem nextAccess_leads (h : rules.Steady) :
    Leads (Compiler.Fits o) (nextAccess rules) fun access => Compiler.FitsWith o fun units =>
      ∀ a ∈ access, a.Settled o.base units := by
  have index : Leads (Compiler.Fits o) (capture rules.expression >>= fun code => do
        expect "]"
        pure (some (.index code))) fun access => Compiler.FitsWith o fun units =>
      ∀ a ∈ access, Access.Settled o.base units a :=
    (capture_leads h.expression).bind fun code => .some fun units => .given fun more =>
      .given fun settled => .bind (.steady (.quiet (expect_quiet _))) fun _ => .pure fun c fits =>
        ⟨units, more, fun a mem => by cases mem; exact settled, fits⟩
  refine .bind (.steady (.quiet (accept_quiet _))) fun _ => .ite (fun _ => index) fun _ =>
    .bind (.steady (.quiet (accept_quiet _))) fun _ => .ite (fun _ => ?_) fun _ => ?_
  · exact .bind (.steady (.quiet identifier_quiet)) fun name => .pure fun c fits =>
      ⟨o.units, Nat.le_refl _, fun a mem => by cases mem; trivial, fits⟩
  · exact .pure fun c fits => ⟨o.units, Nat.le_refl _, nofun, fits⟩

theorem target_leads (h : rules.Steady) :
    Leads (Compiler.Fits o) (target rules) fun t => Compiler.FitsWith o (t.Settled o.base ·) := by
  refine .bind (.steady (.quiet (accept_quiet _))) fun _ =>
    .bind (.steady (.quiet identifier_quiet)) fun name =>
    .bind (.steady (.quiet (isAnyNext_quiet _))) fun _ => .ite
      (fun _ => .pure fun c fits => ⟨o.units, Nat.le_refl _, trivial, fits⟩) fun _ => ?_
  -- the container that was read so far and the step behind it are settled
  let Chain (state : Code × Option Access) : Compiler → Prop := Compiler.FitsWith o fun units =>
    state.1.Settled o.base units [] ∧ ∀ a ∈ state.2, a.Settled o.base units
  have start : ∀ c, Compiler.Fits o c →
      Chain (Code.push { name := "container" } ⟨.load, .name name⟩, none) c := fun c fits =>
    ⟨o.units, Nat.le_refl _, ⟨settled_push .empty _ _ rfl rfl, nofun⟩, fits⟩
  refine (Leads.repeatTurns (I := Chain) (fun ⟨container, pending⟩ => ?_) _).before start
  refine .some fun units => .given fun more => .given fun ⟨settled, behind⟩ =>
    (nextAccess_leads (o := o.having units) h).bind fun access => .some fun units' =>
      .given fun more' => .given fun found => ?_
  have settled := settled.mono more'
  have behind := fun a mem => (behind a mem).mono more'
  have more := more.trans more'
  cases access with
  | some access =>
    cases pending with
    | some last =>
      exact (Access.take_leads settled (behind last rfl)).bind fun code => .given fun taken =>
        .pure fun c fits => ⟨units', more, ⟨taken, found⟩, fits⟩
    | none => exact .pure fun c fits => ⟨units', more, ⟨settled, found⟩, fits⟩
  | none =>
    cases pending with
    | some last =>
      exact .pure fun c fits =>
        ⟨units', more, ⟨settled, Access.code_settled (behind last rfl)⟩, fits⟩
    | none => exact .refuses (fail_refuses _ (by nofun))

theorem targetList_leads (h : rules.Steady) :
    Leads (Compiler.Fits o) (targetList rules) fun targets => Compiler.FitsWith o fun units =>
      ∀ t ∈ targets, t.Settled o.base units := by
  refine (target_leads h).bind fun first => .before (.repeatTurns (I := fun targets =>
    Compiler.FitsWith o fun units => ∀ t ∈ targets, Target.Settled o.base units t)
    (fun targets => ?_) _) fun c ⟨units, more, settled, fits⟩ =>
      ⟨units, more, fun t mem => by cases List.mem_singleton.1 mem; exact settled, fits⟩
  refine .some fun units => .given fun more => .given fun settled =>
    .bind (.steady (.quiet (accept_quiet _))) fun _ => .ite (fun _ => ?_) fun _ => ?_
  · refine (target_leads (o := o.having units) h).bind fun t => .some fun units' =>
      .given fun more' => .given fun last => .pure fun c fits =>
        ⟨units', more.trans more', fun t mem => ?_, fits⟩
    rcases List.mem_append.1 mem with before | new
    · exact (settled t before).mono more'
    · cases List.mem_singleton.1 new
      exact last
  · exact .pure fun c fits => ⟨units, more, settled, fits⟩

/-! ## Storing -/

theorem emitLoad_leads {t : Target} (h : t.Settled o.base o.units) :
    Leads (Compiler.Fits o) (emitLoad t) fun _ => Compiler.Fits o := by
  cases t with
  | name name => exact .steady (emitName_steady rfl)
  | element container index =>
    exact (append_leads h.1).bind fun _ => (append_leads h.2).bind fun _ =>
      .steady (emitOp_steady rfl)

theorem emitStore_leads {t : Target} (h : t.Settled o.base o.units) (create : Bool) :
    Leads (Compiler.Fits o) (emitStore create t) fun _ => Compiler.Fits o := by
  cases t with
  | name name =>
    exact .steady <| .ite (emitOp_steady rfl) <| .optional (emitName_steady rfl) fun _ =>
      emitName_steady rfl
  | element container index =>
    exact (append_leads h.1).bind fun _ => (append_leads h.2).bind fun _ =>
      .bind (.steady (emitInt_steady rfl)) fun _ => .bind (.steady (emitOp_steady rfl)) fun _ =>
        .steady (emitInt_steady rfl)

theorem emitStores_leads {targets : List (Target × Bool)}
    (h : ∀ t ∈ targets, t.1.Settled o.base o.units) :
    Leads (Compiler.Fits o) (emitStores targets) fun _ => Compiler.Fits o := by
  induction targets with
  | nil => exact .pure fun _ => id
  | cons t rest ih =>
    rw [List.forall_mem_cons] at h
    exact (emitStore_leads h.1 t.2).bind fun _ => ih h.2

theorem targetNames_quiet (targets : List Target) : Quiet (targetNames targets) := by
  induction targets with
  | nil => exact .pure _
  | cons t rest ih =>
    cases t with
    | name name => exact ih.bind fun _ => .pure _
    | element => exact .refuses (fail_refuses _ (by nofun))

theorem areNew_quiet (names : List String) : Quiet (areNew names) := by
  induction names with
  | nil => exact .pure _
  | cons name rest ih =>
    exact (isDeclaredHere_quiet name).bind fun _ => ih.bind fun _ => .pure _

theorem declareAll_steady (names : List String) : Steady (declareAll names) := by
  induction names with
  | nil => exact .pure _
  | cons name rest ih =>
    exact .ite ((declare_steady name).bind fun _ => .ite (.bind (.quiet atTopLevel_quiet) fun _ =>
      .optional (exportName_steady name) fun _ => ih) ih) ih

theorem declareTargets_steady (targets : List Target) : Steady (declareTargets targets) :=
  .bind (.quiet (targetNames_quiet _)) fun names => .bind (.quiet (areNew_quiet _)) fun _ =>
    .guarded (fail_refuses _ (by nofun)) <| (declareAll_steady names).bind fun _ => .pure _

theorem assignSeveral_leads (h : rules.Steady) {targets : List (Target × Bool)}
    (settled : ∀ t ∈ targets, t.1.Settled o.base o.units) :
    Leads (Compiler.Fits o) (assignSeveral rules targets) fun _ => Compiler.Fits o := by
  have reversed : ∀ t ∈ targets.reverse, t.1.Settled o.base o.units := fun t mem =>
    settled t (List.mem_reverse.1 mem)
  have stores : ∀ (count : Nat) (fromCall : Bool), Leads (Compiler.Fits o) (do
      if fromCall then emitStores targets
      else
        if count ≠ targets.length then
          failAbout .invalidAssignment
            (Decimal.ofNat targets.length ++ " targets, " ++ Decimal.ofNat count ++ " values")
        emitStores targets.reverse
      emitDropTo .values) fun _ => Compiler.Fits o := fun _ _ =>
    .ite (fun _ => (emitStores_leads settled).bind fun _ => .steady (emitDropTo_steady _)) fun _ =>
      .guarded (failAbout_refuses _ _ (by nofun)) fun _ => (emitStores_leads reversed).bind fun _ =>
        .steady (emitDropTo_steady _)
  exact .bind (.steady (emitMarker_steady _)) fun _ =>
    .bind (.steady (expressionList_steady h)) fun count => .ite
      (fun _ => .bind (.steady requestMultiple_steady) fun _ => stores count _)
      fun _ => .bind (.steady (.pure _)) fun _ => stores count _

theorem assignsTo_leads (h : rules.Steady) {targets : List (Target × Bool)}
    (settled : ∀ t ∈ targets, t.1.Settled o.base o.units) :
    Leads (Compiler.Fits o) (match targets with
      | [(t, create)] => do
        rules.expression
        emitStore create t
      | all => assignSeveral rules all) fun _ => Compiler.Fits o := by
  split
  · rename_i t create
    have settled := settled (t, create) (List.mem_singleton.2 rfl)
    exact .bind (.steady h.expression) fun _ => emitStore_leads settled create
  · exact assignSeveral_leads h settled

theorem assignValues_leads (h : rules.Steady) {targets : List Target}
    (settled : ∀ t ∈ targets, t.Settled o.base o.units) (define : Bool) :
    Leads (Compiler.Fits o) (assignValues rules targets define) fun _ => Compiler.Fits o := by
  have assigns (new : List Bool) := assignsTo_leads h (o := o)
    fun (t : Target × Bool) (mem : t ∈ targets.zip new) => settled t.1 (List.of_mem_zip mem).1
  exact .ite (fun _ => .bind (.steady (declareTargets_steady _)) assigns) fun _ =>
    .bind (.steady (.pure _)) assigns

theorem combine_leads {targets : List Target} (settled : ∀ t ∈ targets, t.Settled o.base o.units)
    {value : CompileM Unit} (h : Steady value) (op : Opcode) (goesOn : op.isBranch = false) :
    Leads (Compiler.Fits o) (combine targets value op) fun _ => Compiler.Fits o := by
  unfold combine
  split
  · rename_i t
    have settled := settled t (List.mem_singleton.2 rfl)
    exact (emitLoad_leads settled).bind fun _ => .bind (.steady h) fun _ =>
      .bind (.steady (emitOp_steady goesOn)) fun _ => emitStore_leads settled false
  · exact .refuses (fail_refuses _ (by nofun))

theorem assignment_steady (h : rules.Steady) : Steady (assignment rules) := by
  refine fun o => (targetList_leads h).bind fun targets => .enough fun units _ settled =>
    .bind (.steady (.quiet next_quiet)) fun op => ?_
  have one : Steady (emitValue (.int 1)) := emitValue_steady rfl
  extract_lets isMark
  split
  · exact combine_leads settled h.expression _ rfl
  · exact combine_leads settled h.expression _ rfl
  · exact combine_leads settled h.expression _ rfl
  · exact combine_leads settled h.expression _ rfl
  · exact assignValues_leads h settled _
  · exact assignValues_leads h settled _
  · exact .ite (fun _ => combine_leads settled one _ rfl) fun _ =>
      .ite (fun _ => combine_leads settled one _ rfl) fun _ =>
        .bind (.steady (.quiet (back_quiet _))) fun _ => .refuses (fail_refuses _ (by nofun))

end CompileM

/-! ## Recording constants -/

/-- The same compiler with other code in its draft. -/
def Compiler.drafting (code : Code) (c : Compiler) : Compiler :=
  { c with draft := { c.draft with code := code } }

/-- An outline is true but for instructions at the end of the draft and a constant that is recorded
with it. -/
inductive Compiler.Writes (o : Outline) (name : String) (v : Value) (is : List Instruction)
    (c : Compiler) : Prop
  | intro (before : Code) (fits : (c.drafting before).Fits o)
      (instructions : c.draft.code.instructions = before.instructions ++ is.toArray)
      (constants : ∀ e ∈ c.draft.code.constants, e = (name, v) ∨ e ∈ before.constants)

variable {o : Outline} {c c' : Compiler} {name : String} {v : Value} {is : List Instruction}

/-- Changes that concern neither code nor loops. -/
theorem Compiler.Writes.of_same (h : c.Writes o name v is) (code : c'.draft.code = c.draft.code)
    (loops : c'.draft.loops = c.draft.loops) (codes : c'.codes = c.codes) : c'.Writes o name v is := by
  obtain ⟨before, fits, instructions, constants⟩ := h
  exact ⟨before, fits.of_same rfl loops codes, code ▸ instructions, code ▸ constants⟩

/-- Instructions that are ready at the end of the draft, and constants that are declared in it. -/
theorem Compiler.Fits.extended {before : Code} (h : (c.drafting before).Fits o)
    (ready : ∀ i ∈ is, ∀ size, i.Settled o.base c.codes.size size)
    (instructions : c.draft.code.instructions = before.instructions ++ is.toArray)
    (constants : ∀ e ∈ c.draft.code.constants,
      c.draft.code.Declares e.1 e.2 ∨ e ∈ before.constants) : c.Fits o := by
  have size : c.draft.code.size = before.size + is.length := by simp [Code.size, instructions]
  have there {a : Nat} {i : Instruction} (found : before.instructions[a]? = some i) :
      c.draft.code.instructions[a]? = some i := by
    rw [instructions, Array.getElem?_append_left (Array.getElem?_eq_some_iff.1 found).1, found]
  have settled := h.settled
  refine { h with settled := ⟨fun a i found => ?_, ?_, fun e mem => ?_⟩, kept := ?_, size := ?_ }
  · rw [instructions, Array.getElem?_append] at found
    rw [size]
    split at found
    · exact (settled.ready a i found).imp_right fun settled =>
        settled.mono (Nat.le_refl _) (Nat.le_add_right _ _)
    · exact .inr (ready i (List.mem_toArray.1 (Array.mem_of_getElem? found)) _)
  · exact settled.branches_edited (fun a i found _ => ⟨i, there found, rfl⟩) (List.Subset.refl _)
  · rcases constants e mem with declares | before
    · exact declares
    · exact (settled.constants e before).edited fun _ _ found _ _ => there found
  · refine h.kept.edited (Nat.le_add_right _ _ |>.trans_eq size.symm) (fun p mem => ?_) h.kept.settled
    exact (there (h.kept.found p mem)).trans (h.kept.found p mem).symm
  · exact h.size.trans (Nat.le_add_right _ _ |>.trans_eq size.symm)

namespace CompileM

theorem recordConstant_leads : Leads (Compiler.Fits o) (recordConstant name v) fun _ =>
    Compiler.Writes o name v [] :=
  .modify (fun _ _ => rfl) fun c fits => ⟨c.draft.code, fits.of_same rfl rfl rfl, by simp,
    fun _ => Association.mem_insert⟩

theorem emit_writes {op : Opcode} {operand : Operand} :
    Leads (Compiler.Writes o name v is) (emit op operand) fun _ =>
      Compiler.Writes o name v (is ++ [⟨op, operand⟩]) := by
  refine fun c ⟨before, fits, instructions, constants⟩ =>
    ⟨editCode_extends (·.emit_ordinary op operand) c, fun a c' run => ?_⟩
  obtain ⟨code, emitted, rfl⟩ := editCode_ok run
  unfold Code.emit at emitted
  split at emitted <;> cases emitted
  exact ⟨before, fits, by simp [Code.push, instructions], constants⟩

/-- The value of the constant alone. -/
theorem append_writes {code : Code} {base limit : Nat} (settled : code.Settled base limit [])
    (literal : code.instructions.toList = [⟨.push, .value v⟩]) :
    Leads (Compiler.Writes o name v []) (append code) fun _ =>
      Compiler.Writes o name v [⟨.push, .value v⟩] := by
  -- code that only pushes declares no constant
  have none : code.constants = [] := by
    refine List.eq_nil_iff_forall_not_mem.2 fun e mem => ?_
    obtain ⟨declared, pc, placed⟩ := settled.constants e mem
    have last : ⟨.constant, .name e.1⟩ ∈ constantCode declared e.1 e.2 := by simp [constantCode]
    obtain ⟨j, found⟩ := List.getElem?_of_mem last
    have mem := Array.mem_def.1 (Array.mem_of_getElem? (placed j _ found))
    rw [literal] at mem
    cases List.mem_singleton.1 mem
  rintro c ⟨before, fits, instructions, constants⟩
  refine ⟨editCode_extends (·.append_ordinary code) c, fun a c' run => ?_⟩
  obtain ⟨joint, joined, rfl⟩ := editCode_ok run
  refine ⟨before, fits, ?_, fun e mem => ?_⟩
  · change joint.instructions = _
    rw [Code.append_instructions joined, instructions, ← Array.toList_inj]
    simp only [Array.toList_append, Array.toList_map, literal, List.append_nil]
    rfl
  · rcases Code.append_constants joined mem with own | others
    · exact constants e own
    · rw [none] at others
      cases others

theorem emitDeclared_writes (declared : Option Ty) :
    Leads (Compiler.Writes o name v is) (emitDeclared declared) fun _ =>
      Compiler.Writes o name v (is ++ declaredCode declared) := by
  cases declared with
  | none => exact .pure fun c writes => (List.append_nil is).symm ▸ writes
  | some t =>
    simp only [emitDeclared, declaredCode]
    cases t.isInterface with
    | true => exact .pure fun c writes => (List.append_nil is).symm ▸ writes
    | false => exact emit_writes

theorem declare_writes (other : String) : Leads (Compiler.Writes o name v is) (declare other) fun _ =>
    Compiler.Writes o name v is := by
  refine .read (fun _ _ => rfl) fun c => ?_
  split
  · exact .ite (fun _ => .pure fun _ => id) fun _ =>
      .bind (.modify (fun _ _ => rfl) fun _ writes => by
        exact writes.of_same rfl rfl rfl) fun _ => .pure fun _ => id
  · exact .pure fun _ => id

/-- The instructions that declare a constant are ready. -/
theorem constantCode_ready {base limit size : Nat} {declared : Option Ty}
    (h : Instruction.Settled base limit size ⟨.push, .value v⟩) :
    ∀ i ∈ constantCode declared name v, ∀ size, i.Settled base limit size := by
  intro i mem size
  rcases List.mem_append.1 mem with mem | mem
  · rcases List.mem_append.1 mem with mem | mem
    · cases List.mem_singleton.1 mem
      exact ⟨nofun, h.function, h.inert⟩
    · cases declared with
      | none => cases mem
      | some t =>
        rw [declaredCode] at mem
        split at mem
        · cases mem
        · cases List.mem_singleton.1 mem
          exact .plain rfl rfl
  · cases List.mem_singleton.1 mem
    exact .plain rfl rfl

/-- When its declaration is complete, a constant that is recorded is declared. -/
theorem recordsConstant_leads {code : Code} (settled : code.Settled o.base o.units [])
    (literal : code.instructions.toList = [⟨.push, .value v⟩]) (declared : Option Ty) :
    Leads (Compiler.Fits o) (do
      recordConstant name v
      append code
      emitDeclared declared
      if !(← declare name) then failAbout .duplicateDeclaration name
      if ← atTopLevel then exportName name
      emitName .constant name
      modify fun c => { c with constants := name :: c.constants }) fun _ => Compiler.Fits o := by
  have first : code.instructions[0]? = some ⟨.push, .value v⟩ := by
    rw [← Array.getElem?_toList, literal]
    rfl
  have ready : ∀ i ∈ constantCode declared name v, ∀ size, i.Settled o.base o.units size :=
    constantCode_ready ((settled.ready 0 _ first).resolve_left List.not_mem_nil)
  have ends : Leads (Compiler.Writes o name v ([⟨.push, .value v⟩] ++ declaredCode declared)) (do
      emitName .constant name
      modify fun c => { c with constants := name :: c.constants }) fun _ => Compiler.Fits o := by
    refine emit_writes.bind fun _ => .modify (fun _ _ => rfl) fun c writes => ?_
    obtain ⟨before, fits, instructions, constants⟩ := writes
    refine (fits.extended (fun i mem size => ?_) instructions fun e mem => ?_).of_same rfl rfl rfl
    · exact (ready i mem size).mono fits.units (Nat.le_refl _)
    · refine (constants e mem).imp_left ?_
      rintro rfl
      refine ⟨declared, before.size, fun j i found => ?_⟩
      rw [instructions, Code.size, Array.getElem?_append_right (Nat.le_add_right _ _),
        Nat.add_sub_cancel_left, List.getElem?_toArray]
      exact found
  refine recordConstant_leads.bind fun _ => (append_writes settled literal).bind fun _ =>
    (emitDeclared_writes declared).bind fun _ => (declare_writes name).bind fun _ =>
      .guarded (failAbout_refuses _ _ (by rintro ⟨⟩)) fun _ =>
        .bind (.read (fun _ _ => rfl) fun _ => .pure fun _ => id) fun _ => .ite (fun _ => ?_) fun _ => ends
  exact .bind (.modify (fun _ _ => rfl) fun _ writes => by
        exact writes.of_same rfl rfl rfl) fun _ => ends

end CompileM

end StackScript
