import StackScript.Proofs.Settling.Declarations

/-!
# Statements within loops

A statement may leave branches behind: those of `break` and `continue`, which wait for the end of
the loop or switch that they leave. Every other branch of a statement is patched by it, and the end
of a loop or switch patches those that wait for it.

Main statements: `closeLoop_leads`, `loopControl_steady` and `statementWith_steady`.
-/
namespace StackScript

/-! ## Noting branches -/

namespace OpenLoop

variable (isBreak : Bool) (fixup : Nat) (loops : List OpenLoop)

theorem noteBranch_kind :
    (noteBranch isBreak fixup loops).map kind = loops.map kind := by
  induction loops with
  | nil => rfl
  | cons l outer ih =>
    rw [noteBranch]
    split
    · cases isBreak <;> rfl
    · rw [List.map_cons, ih, List.map_cons]

/-- Nothing is noted as a `continue` of a switch. -/
theorem noteBranch_switch {loops : List OpenLoop}
    (h : ∀ l ∈ loops, l.kind = .switch → l.continues = []) :
    ∀ l ∈ noteBranch isBreak fixup loops, l.kind = .switch → l.continues = [] := by
  induction loops with
  | nil => exact nofun
  | cons l outer ih =>
    rw [List.forall_mem_cons] at h
    rw [noteBranch]
    split
    · rename_i left
      rw [List.forall_mem_cons]
      refine ⟨fun switch => ?_, h.2⟩
      cases isBreak with
      | true => exact h.1 switch
      | false =>
        have loop : l.kind = .loop := by simpa [isLeftBy] using left
        have : l.kind = .switch := switch
        rw [loop] at this
        cases this
    · exact List.forall_mem_cons.2 ⟨h.1, ih h.2⟩

/-- A branch that has been noted waits, with all those before. -/
theorem leaving_noteBranch {loops : List OpenLoop}
    (found : (loops.find? (isLeftBy isBreak)).isSome = true) (a : Nat) :
    a ∈ leaving (noteBranch isBreak fixup loops) ↔ a = fixup ∨ a ∈ leaving loops := by
  induction loops with
  | nil => cases found
  | cons l outer ih =>
    rw [noteBranch]
    cases left : l.isLeftBy isBreak with
    | true => cases isBreak <;> simp [leaving] <;> grind
    | false =>
      have rest := ih (by simpa [List.find?_cons, left] using found)
      rw [if_neg (by simp)]
      simp only [leaving, List.flatMap_cons, List.mem_append] at rest ⊢
      tauto

end OpenLoop

/-- The branches of a switch wait between two clauses. -/
def Outline.clauses (o : Outline) (s : CompileM.OpenSwitch) : Outline :=
  ((o.awaitingAll s.ends).awaitingAll s.fallInto.toList).awaitingAll s.pending

namespace CompileM

variable {rules : Nested} {o : Outline} {kinds : List Breakable} {α : Type}

/-! ## Branches of statements -/

theorem Leads.within {m : CompileM α} (h : SteadyWithin m) :
    Leads (Compiler.Fits (o.within kinds)) m fun _ => Compiler.Fits (o.within kinds) := h o kinds

theorem emitFixup_within {op : Opcode} (branch : op.isBranch = true) :
    Leads (Compiler.Fits (o.within kinds)) (emitFixup op) fun a =>
      Compiler.Fits ((o.awaiting a).within kinds) := emitFixup_leads branch

theorem patchHere_within {a : Nat} :
    Leads (Compiler.Fits ((o.awaiting a).within kinds)) (patchHere a) fun _ =>
      Compiler.Fits (o.within kinds) := patchHere_leads (o := o.within kinds)

theorem patchHere_within_under {a b : Nat} :
    Leads (Compiler.Fits (((o.awaiting a).awaiting b).within kinds)) (patchHere a) fun _ =>
      Compiler.Fits ((o.awaiting b).within kinds) := patchHere_under (o := o.within kinds)

/-! ## Blocks -/

theorem block_steady (h : rules.Steady) : SteadyWithin (block rules) :=
  .bind (.quiet (expect_quiet _)) fun _ => .bind pushScope_steady.within fun _ =>
    (statementsUntilClose_steady h).bind fun _ => popScope_steady.within

/-- The branch of a failed condition leads to what follows the body. -/
theorem elseClause_leads (h : rules.Steady) (otherwise : Nat) :
    Leads (Compiler.Fits ((o.awaiting otherwise).within kinds)) (elseClause rules otherwise)
      fun _ => Compiler.Fits (o.within kinds) := by
  refine .bind (.steady (.quiet (accept_quiet _))) fun _ => .ite (fun _ => ?_) fun _ =>
    patchHere_within
  refine (emitFixup_within rfl).bind fun finish => patchHere_within_under.bind fun _ =>
    .bind (.steady (.quiet (isNext_quiet _))) fun _ => .ite (fun _ => ?_) fun _ => ?_
  · exact .bind (.within h.ifStatement) fun _ => patchHere_within
  · exact .bind (.within (block_steady h)) fun _ => patchHere_within

theorem headContains_quiet (text : String) : Quiet (headContains text) := .of_eq (fun _ _ => rfl) fun _ => .ok _

theorem ifWith_steady (h : rules.Steady) {simple : CompileM Unit} (head : Steady simple) :
    SteadyWithin (ifWith rules simple) := by
  refine .bind (.quiet skip_quiet) fun _ => .bind (.quiet (headContains_quiet _))
    fun startsScope => ?_
  have rest : SteadyWithin (do
      condition rules
      let otherwise ← emitFixup .branchFalse
      block rules
      elseClause rules otherwise
      if startsScope then popScope) := fun o kinds =>
    .bind (.steady (condition_steady h)) fun _ => (emitFixup_within rfl).bind fun otherwise =>
      .bind (.within (block_steady h)) fun _ => (elseClause_leads h otherwise).bind fun _ =>
        .steady (.ite popScope_steady (.pure _))
  exact .ite (.bind pushScope_steady.within fun _ => .bind head.inHead.within fun _ =>
    .bind (.quiet (expect_quiet _)) fun _ => rest) rest

/-! ## Loops and switches as targets of `break` -/

theorem openLoop_leads (kind : Breakable) :
    Leads (Compiler.Fits (o.within kinds)) (openLoop kind) fun _ =>
      Compiler.Fits (o.within (kind :: kinds)) := by
  refine .modify (fun _ _ => rfl) fun c fits =>
    ⟨?_, ?_, fits.finished, fits.base, fits.units, fits.size, ?_⟩
  · exact fits.settled
  · exact fits.kept
  · obtain ⟨same, switches⟩ := fits.loops
    exact ⟨congrArg (kind :: ·) same, List.forall_mem_cons.2 ⟨fun _ => rfl, switches⟩⟩

theorem patchAll_within {fixups : List Nat} {target : Nat} (positive : 0 < target) :
    Leads (Compiler.Fits ((o.awaitingAll fixups).within kinds)) (patchAll fixups target) fun _ =>
      Compiler.Fits (o.within kinds) := patchAll_leads (o := o.within kinds) positive

/-- The address of the next instruction is not the start where an instruction stands before it. -/
theorem mark_positive (begun : 0 < o.size) :
    Leads (Compiler.Fits o) mark fun a c => 0 < a ∧ c.Fits o :=
  mark_leads.after fun _ _ ⟨reached, fits⟩ =>
    ⟨begun.trans_le reached, fits.weaken (Nat.le_refl _) reached⟩

theorem mark_within {fixups : List Nat} (begun : 0 < o.size) :
    Leads (Compiler.Fits ((o.awaitingAll fixups).within kinds)) mark fun a c =>
      0 < a ∧ c.Fits ((o.awaitingAll fixups).within kinds) :=
  mark_positive (o := (o.awaitingAll fixups).within kinds) begun

/-- The end of a loop or switch patches the branches that wait for it. -/
theorem closeLoop_leads {kind : Breakable} {next : Option Nat} (begun : 0 < o.size)
    (target : ∀ a ∈ next, 0 < a) (loop : next = none → kind = .switch) :
    Leads (Compiler.Fits (o.within (kind :: kinds))) (closeLoop next) fun _ =>
      Compiler.Fits (o.within kinds) := by
  refine .readAs (fun _ _ => rfl) fun d => ?_
  cases loops : d.draft.loops with
  | nil =>
    rintro c ⟨rfl, fits⟩
    have same : c.draft.loops.map OpenLoop.kind = kind :: kinds := fits.loops.1
    rw [loops] at same
    cases same
  | cons l outer =>
    have known : ∀ c, (c = d ∧ c.Fits (o.within (kind :: kinds))) →
        (l.kind = kind ∧ (l.kind = .switch → l.continues = [])) ∧
          c.draft.loops = l :: outer ∧ c.Fits (o.within (kind :: kinds)) := by
      rintro c ⟨rfl, fits⟩
      obtain ⟨same, switches⟩ := fits.loops
      rw [loops] at same switches
      exact ⟨⟨(List.cons.inj same).1, (List.forall_mem_cons.1 switches).1⟩, loops, fits⟩
    refine .before (.given fun ⟨is, switch⟩ => ?_) known
    have waiting : (o.waiting ++ leaving (l :: outer)).Perm
        (l.continues ++ (l.breaks ++ o.waiting) ++ leaving outer) := by
      simp only [leaving, List.flatMap_cons, ← List.append_assoc]
      refine List.Perm.append_right _ ?_
      rw [List.append_assoc, List.append_assoc]
      refine List.perm_append_comm.trans ?_
      rw [List.append_assoc]
      exact (List.perm_append_comm_assoc _ _ _)
    have left : Leads (fun c => c.draft.loops = l :: outer ∧ c.Fits (o.within (kind :: kinds)))
        (modifyDraft fun d => { d with loops := outer }) fun _ =>
          Compiler.Fits (((o.awaitingAll l.breaks).awaitingAll l.continues).within kinds) := by
      refine .modify (fun _ _ => rfl) fun c ⟨loops, fits⟩ => ?_
      obtain ⟨same, switches⟩ := fits.loops
      have settled := fits.settled
      have kept := fits.kept
      rw [loops] at same switches settled kept
      exact ⟨settled.reorder fun _ => waiting.mem_iff, kept.mono waiting.symm.subset, fits.finished,
        fits.base, fits.units, fits.size, (List.cons.inj same).2, (List.forall_mem_cons.1 switches).2⟩
    have breaks : Leads (Compiler.Fits ((o.awaitingAll l.breaks).within kinds))
        (do patchAll l.breaks (← mark)) fun _ => Compiler.Fits (o.within kinds) :=
      (mark_within begun).bind fun _ => .given patchAll_within
    refine left.bind fun _ => ?_
    cases next with
    | some next =>
      have continues : Leads (Compiler.Fits (((o.awaitingAll l.breaks).awaitingAll
          l.continues).within kinds)) (patchAll l.continues next) fun _ =>
          Compiler.Fits ((o.awaitingAll l.breaks).within kinds) := patchAll_within (target next rfl)
      exact continues.bind fun _ => breaks
    | none =>
      rw [switch (is.trans (loop rfl))]
      exact breaks

/-! ## Loops -/

theorem loopCondition_leads (h : rules.Steady) (clauses : Bool) :
    Leads (Compiler.Fits o) (loopCondition rules clauses) fun exit =>
      Compiler.Fits (o.awaitingAll exit.toList) := by
  have test : ∀ absent : Bool, Leads (Compiler.Fits o) (do
      if absent then pure none
      else
        condition rules
        pure (some (← emitFixup .branchFalse))) fun exit =>
          Compiler.Fits (o.awaitingAll exit.toList) := fun absent =>
    .ite (fun _ => .pure fun _ => id) fun _ => .bind (.steady (condition_steady h)) fun _ =>
      (emitFixup_leads rfl).bind fun _ => .pure fun _ => id
  exact .bind (.steady (.quiet (isNext_quiet _))) fun _ => .ite
    (fun _ => .bind (.steady (.pure _)) test)
    fun _ => .bind (.steady (.quiet (isNext_quiet _))) fun _ => .bind (.steady (.pure _)) test

theorem postClause_leads {simple : CompileM Unit} (h : Steady simple) (clauses : Bool) :
    Leads (Compiler.Fits o) (postClause simple clauses) fun post => Compiler.FitsWith o fun units =>
      ∀ code ∈ post, code.Settled o.base units [] := by
  have none : Leads (Compiler.Fits o) (pure none : CompileM (Option Code)) fun post =>
      Compiler.FitsWith o fun units => ∀ code ∈ post, code.Settled o.base units [] :=
    .pure fun c fits => ⟨o.units, Nat.le_refl _, nofun, fits⟩
  refine .ite (fun _ => .bind (.steady (.quiet (expect_quiet _))) fun _ =>
    .bind (.steady (.quiet (isNext_quiet _))) fun _ => .ite (fun _ => none) fun _ => ?_) fun _ => none
  exact (capture_leads h.inHead).bind fun code => .pure fun c ⟨units, more, settled, fits⟩ =>
    ⟨units, more, fun _ mem => by cases mem; exact settled, fits⟩

/-- Behind the body of a loop stand the post clause, where `continue` leads, and the way back to
the top. -/
theorem countedEnd_leads {top : Nat} {exit : List Nat} {post : Option Code} (positive : 0 < top)
    (passed : top ≤ o.size) (settled : ∀ code ∈ post, code.Settled o.base o.units []) :
    Leads (Compiler.Fits ((o.awaitingAll exit).within (.loop :: kinds))) (do
      let next ← mark
      match post with
      | some code => append code
      | none => pure ()
      emit .branch (.address top)
      patchAll exit (← mark)
      closeLoop (some next)) fun _ => Compiler.Fits (o.within kinds) := by
  have begun : 0 < o.size := positive.trans_le passed
  refine (mark_within begun).bind fun next => .given fun reached => ?_
  have ends : Leads (Compiler.Fits ((o.awaitingAll exit).within (.loop :: kinds))) (do
      emit .branch (.address top)
      patchAll exit (← mark)
      closeLoop (some next)) fun _ => Compiler.Fits (o.within kinds) :=
    (emitBranch_leads (o := (o.awaitingAll exit).within (.loop :: kinds)) positive passed).bind
      fun _ => (mark_within begun).bind fun _ => .given fun here => (patchAll_within here).bind
        fun _ => closeLoop_leads begun (fun _ mem => by cases mem; exact reached) nofun
  cases post with
  | some code =>
    exact (append_leads (o := (o.awaitingAll exit).within (.loop :: kinds)) (settled code rfl)).bind
      fun _ => ends
  | none => exact ends

theorem countedLoop_leads (h : rules.Steady) {simple : CompileM Unit} (head : Steady simple)
    (begun : 0 < o.size) :
    Leads (Compiler.Fits (o.within kinds)) (countedLoop rules simple) fun _ =>
      Compiler.Fits (o.within kinds) := by
  refine .bind (.steady (.quiet (headContains_quiet _))) fun clauses => ?_
  have loop : Leads (Compiler.Fits (o.within kinds)) (do
      let top ← mark
      let exit ← loopCondition rules clauses
      let post ← postClause simple clauses
      openLoop .loop
      block rules
      let next ← mark
      match post with
      | some code => append code
      | none => pure ()
      emit .branch (.address top)
      patchAll exit.toList (← mark)
      closeLoop (some next)) fun _ => Compiler.Fits (o.within kinds) := by
    refine mark_leads.bind fun top => .given fun reached => ?_
    refine (loopCondition_leads h clauses).bind fun exit => (postClause_leads head clauses).bind
      fun post => .some fun units => .given fun more => .given fun settled => ?_
    let inside := ((o.reaching top).having units).awaitingAll exit.toList
    have entered : Leads (Compiler.Fits (inside.within kinds)) (openLoop .loop) fun _ =>
        Compiler.Fits (inside.within (.loop :: kinds)) := openLoop_leads _
    refine (entered.bind fun _ => .bind (.within (block_steady h)) fun _ =>
      countedEnd_leads (begun.trans_le reached) (Nat.le_refl _) settled).after ?_
    exact fun _ _ fits => fits.weaken more reached
  refine .ite (fun _ => .bind (.steady (.quiet (isNext_quiet _))) fun _ => ?_) fun _ => loop
  exact .ite (fun _ => .bind (.steady head.inHead) fun _ => .bind (.steady (.quiet (expect_quiet _)))
    fun _ => loop) fun _ => .bind (.steady (.quiet (expect_quiet _))) fun _ => loop

theorem rangeHead_quiet : Quiet rangeHead := by
  refine (isNext_quiet _).bind fun _ => .ite (.pure _) <| identifier_quiet.bind fun key =>
    (accept_quiet _).bind fun _ => ?_
  have rest : ∀ names, Quiet (do
      if ← accept ":=" then pure ⟨names, true⟩
      else
        expect "="
        pure ⟨names, false⟩ : CompileM RangeHead) := fun _ =>
    (accept_quiet _).bind fun _ => .ite (.pure _) ((expect_quiet _).bind fun _ => .pure _)
  exact .ite (identifier_quiet.bind fun _ => .bind (.pure _) rest) (.bind (.pure _) rest)

theorem rangeNames_quiet : Quiet rangeNames :=
  (tempName_quiet _).bind fun _ => (tempName_quiet _).bind fun _ => (tempName_quiet _).bind fun _ =>
    (tempName_quiet _).bind fun _ => .pure _

theorem bindRange_steady (h : rules.Steady) (names : RangeNames) :
    Steady (bindRange rules names) :=
  (condition_steady h).bind fun _ => (createTemp_steady _).bind fun _ =>
    (emitLoads_steady _).bind fun _ => (emitCall_steady _ _).bind fun _ =>
    (createTemp_steady _).bind fun _ => (emitLoads_steady _).bind fun _ =>
    (emitCall_steady _ _).bind fun _ => (createTemp_steady _).bind fun _ =>
    .bind (emitValue_steady rfl) fun _ => createTemp_steady _

theorem declareVariables_steady (names : List String) : Steady (declareVariables names) := by
  induction names with
  | nil => exact .pure _
  | cons name rest ih =>
    exact .ite ((declare_steady name).bind fun _ => .bind (emitValue_steady rfl) fun _ =>
      (createTemp_steady name).bind fun _ => ih) ih

theorem storeVariable_steady (name : Option String) {value : CompileM Unit} (h : Steady value) :
    Steady (storeVariable name value) := by
  cases name with
  | some name => exact .ite (h.bind fun _ => emitName_steady rfl) (.pure _)
  | none => exact .pure _

theorem updateVariables_steady (names : RangeNames) (loopNames : List String) :
    Steady (updateVariables names loopNames) := by
  have key : Steady (do
      emitLoads [names.keys, names.position]
      emitOp .loadIndex) := (emitLoads_steady _).bind fun _ => emitOp_steady rfl
  exact (storeVariable_steady _ key).bind fun _ => storeVariable_steady _ <|
    .bind (emitName_steady rfl) fun _ => key.bind fun _ => emitOp_steady rfl

theorem rangeLoop_leads (h : rules.Steady) (begun : 0 < o.size) :
    Leads (Compiler.Fits (o.within kinds)) (rangeLoop rules) fun _ =>
      Compiler.Fits (o.within kinds) := by
  refine .bind (.steady (.quiet rangeHead_quiet)) fun head =>
    .bind (.steady (.quiet (expect_quiet _))) fun _ =>
    .bind (.steady (.quiet rangeNames_quiet)) fun names =>
    .bind (.steady (bindRange_steady h names)) fun _ => ?_
  have loop : Leads (Compiler.Fits (o.within kinds)) (do
      let top ← mark
      emitLoads [names.position, names.count]
      emitOp .lessThan
      let exit ← emitFixup .branchFalse
      updateVariables names head.loopNames
      openLoop .loop
      block rules
      let next ← mark
      emitName .load names.position
      emitValue (.int 1)
      emitOp .add
      emitName .store names.position
      emit .branch (.address top)
      patchHere exit
      closeLoop (some next)) fun _ => Compiler.Fits (o.within kinds) := by
    refine mark_leads.bind fun top => .given fun reached => ?_
    refine .bind (.steady (emitLoads_steady _)) fun _ => .bind (.steady (emitOp_steady rfl)) fun _ =>
      (emitFixup_leads rfl).bind fun exit => .bind (.steady (updateVariables_steady _ _)) fun _ => ?_
    have positive : 0 < top := begun.trans_le reached
    let inside := (o.reaching top).awaiting exit
    have entered : Leads (Compiler.Fits (inside.within kinds)) (openLoop .loop) fun _ =>
        Compiler.Fits (inside.within (.loop :: kinds)) := openLoop_leads _
    have ends : ∀ next, 0 < next → Leads (Compiler.Fits (inside.within (.loop :: kinds))) (do
        emit .branch (.address top)
        patchHere exit
        closeLoop (some next)) fun _ => Compiler.Fits ((o.reaching top).within kinds) :=
      fun next there =>
        (emitBranch_leads (o := inside.within _) positive (Nat.le_refl _)).bind fun _ =>
          patchHere_within.bind fun _ =>
            closeLoop_leads positive (fun _ mem => by cases mem; exact there) nofun
    have advances : ∀ next, 0 < next → Leads (Compiler.Fits (inside.within (.loop :: kinds))) (do
        emitName .load names.position
        emitValue (.int 1)
        emitOp .add
        emitName .store names.position
        emit .branch (.address top)
        patchHere exit
        closeLoop (some next)) fun _ => Compiler.Fits ((o.reaching top).within kinds) :=
      fun next there => .bind (.steady (emitName_steady rfl)) fun _ =>
        .bind (.steady (emitValue_steady rfl)) fun _ => .bind (.steady (emitOp_steady rfl)) fun _ =>
          .bind (.steady (emitName_steady rfl)) fun _ => ends next there
    exact (entered.bind fun _ => .bind (.within (block_steady h)) fun _ =>
      (mark_positive (o := inside.within _) positive).bind fun next => .given (advances next)).after
        fun _ _ fits => fits.weaken (Nat.le_refl _) reached
  exact .ite (fun _ => .bind (.steady (declareVariables_steady _)) fun _ => loop) fun _ => loop

theorem forStatement_steady (h : rules.Steady) {simple : CompileM Unit} (head : Steady simple) :
    SteadyWithin (forStatement rules simple) := by
  refine .bind (.quiet skip_quiet) fun _ o kinds => ?_
  have begun : 0 < (o.reaching (o.size + 1)).size := Nat.succ_pos _
  refine (pushScope_leads (o := o.within kinds)).bind fun _ =>
    .bind (.steady (.quiet (headContains_quiet _))) fun _ => .ite
      (fun _ => (rangeLoop_leads h begun).bind fun _ => ?_)
      fun _ => (countedLoop_leads h head begun).bind fun _ => ?_
  all_goals exact (Leads.steady popScope_steady).after fun _ _ fits =>
    fits.weaken (Nat.le_refl _) (Nat.le_succ _)

/-! ## Leaving a loop -/

/-- The branch of a `break` or `continue` waits for the end of the loop that it leaves. -/
theorem loopControl_steady : SteadyWithin loopControl := by
  refine .bind (.quiet next_quiet) fun t o kinds => ?_
  extract_lets isBreak
  refine .readAs (fun _ _ => rfl) fun d => ?_
  extract_lets draft
  split
  · exact .bind (.of_quiet (back_quiet _)) fun _ => .refuses (fail_refuses _ (by nofun))
  · rename_i l found
    -- the loops stay the same until the branch is noted
    let same : Outline := { o with loops := (· = draft.loops), opens := leaving }
    have known : ∀ c, (c = d ∧ c.Fits (o.within kinds)) →
        (o.within kinds).loops draft.loops ∧ c.Fits same := by
      rintro c ⟨rfl, fits⟩
      exact ⟨fits.loops, fits.settled, fits.kept, fits.finished, fits.base, fits.units, fits.size, rfl⟩
    refine .before (.given fun proper => ?_) known
    have notes : ∀ fixup, Leads (Compiler.Fits (same.awaiting fixup))
        (modifyDraft fun d => { d with loops := OpenLoop.noteBranch isBreak fixup d.loops }) fun _ =>
          Compiler.Fits (o.within kinds) := by
      refine fun fixup => .modify (fun _ _ => rfl) fun c fits => ?_
      have loops : c.draft.loops = draft.loops := fits.loops
      have waiting : ∀ a, a ∈ fixup :: o.waiting ++ leaving c.draft.loops ↔
          a ∈ o.waiting ++ leaving (OpenLoop.noteBranch isBreak fixup c.draft.loops) := fun a => by
        have := OpenLoop.leaving_noteBranch isBreak fixup (Option.isSome_of_mem found) a
        rw [loops]
        simp only [List.mem_append, List.mem_cons]
        tauto
      exact ⟨fits.settled.reorder waiting, fits.kept.mono fun a =>
        (waiting a).2, fits.finished, fits.base, fits.units, fits.size,
        (OpenLoop.noteBranch_kind _ _ _).trans (loops ▸ proper.1),
        OpenLoop.noteBranch_switch _ _ (loops ▸ proper.2)⟩
    have pops : Steady ((List.range (draft.tryDepth - l.tryDepth)).forM fun _ => emitOp .tryPop) := by
      induction List.range (draft.tryDepth - l.tryDepth) with
      | nil => exact .pure _
      | cons _ _ ih => exact .bind (emitOp_steady rfl) fun _ => ih
    have leaves : Leads (Compiler.Fits same) (do
        (List.range (draft.tryDepth - l.tryDepth)).forM fun _ => emitOp .tryPop
        let fixup ← emitFixup .branch
        modifyDraft fun d => { d with loops := OpenLoop.noteBranch isBreak fixup d.loops }) fun _ =>
          Compiler.Fits (o.within kinds) :=
      .bind (.steady pops) fun _ => (emitFixup_leads rfl).bind notes
    exact .ite (fun _ => .bind (.steady (emitInt_steady rfl)) fun _ => leaves) fun _ => leaves

/-! ## Switches -/

theorem caseTest_leads (h : rules.Steady) (subject : Option String) :
    Leads (Compiler.Fits o) (caseTest rules subject) fun a => Compiler.Fits (o.awaiting a) := by
  cases subject with
  | some name =>
    exact .bind (.steady (emitName_steady rfl)) fun _ => .bind (.steady h.expression) fun _ =>
      .bind (.steady (emitOp_steady rfl)) fun _ => emitFixup_leads rfl
  | none => exact .bind (.steady h.expression) fun _ => emitFixup_leads rfl

theorem caseTests_leads (h : rules.Steady) (subject : Option String) :
    Leads (Compiler.Fits o) (caseTests rules subject) fun found =>
      Compiler.Fits (o.awaitingAll found) := by
  refine .repeatTurns (I := fun found => Compiler.Fits (o.awaitingAll found)) (fun found => ?_) []
  refine (caseTest_leads h subject).bind fun a => ?_
  have more : ∀ c, Compiler.Fits ((o.awaitingAll found).awaiting a) c →
      Compiler.Fits (o.awaitingAll (found ++ [a])) c := fun c fits => fits.mono fun b => by
    simp only [Outline.awaitingAll, Outline.awaiting, List.mem_append, List.mem_cons]
    grind
  exact .before (.bind (.steady (.quiet (accept_quiet _))) fun _ =>
    .ite (fun _ => .pure fun _ => id) fun _ => .pure fun _ => id) more

/-- A clause that falls through stands before another one. -/
theorem clauseBody_leads (h : rules.Steady) :
    Leads (Compiler.Fits (o.within kinds)) (clauseBody rules) fun falls c =>
      (falls = true → c.cursor.isAnyNext ["case", "default"] = true) ∧ c.Fits (o.within kinds) := by
  refine .repeatTurns (I := fun _ => Compiler.Fits (o.within kinds)) (fun _ => ?_) ()
  refine .bind (.steady (.quiet (isAnyNext_quiet _))) fun _ => .ite
    (fun _ => .pure fun c fits => ⟨nofun, fits⟩) fun _ => .bind (.steady (.quiet atEnd_quiet))
    fun _ => .guarded (fail_refuses _ (by nofun)) fun _ => .bind (.steady (.quiet (accept_quiet _))) fun _ =>
      .ite (fun _ => .bind (.steady (.quiet (accept_quiet _))) fun _ => ?_)
        fun _ => .bind (.within h.statement) fun _ => .pure fun _ => id
  have next : Leads (Compiler.Fits (o.within kinds)) (isAnyNext ["case", "default"]) fun b c =>
      (b = true → c.cursor.isAnyNext ["case", "default"] = true) ∧ c.Fits (o.within kinds) := by
    refine fun c fits => ⟨.of_same (fun _ => rfl) (.ok _), fun b c' run => ?_⟩
    cases run
    exact ⟨id, fits⟩
  refine next.bind fun b => ?_
  cases b with
  | true => exact .pure fun c fits => ⟨fun _ => fits.1 rfl, fits.2⟩
  | false => exact .refuses ((failAbout_refuses _ _ (by nofun)).bind _)

theorem clauseHead_leads (h : rules.Steady) (subject : Option String) (isDefault : Bool)
    (s : OpenSwitch) (begun : 0 < o.size) :
    Leads (Compiler.Fits ((o.clauses s).within kinds)) (clauseHead rules subject isDefault s)
      fun (found, s') c => s'.defaultBody = s.defaultBody ∧
        c.Fits (((o.clauses s').awaitingAll found).within kinds) := by
  refine .ite (fun _ => (emitFixup_within rfl).bind fun past => .pure fun c fits => ⟨rfl, ?_⟩) fun _ => ?_
  · refine fits.mono fun a => ?_
    simp only [Outline.clauses, Outline.awaitingAll, Outline.awaiting, Outline.within,
      List.mem_append, List.mem_cons]
    grind
  · let bodies := (o.awaitingAll s.ends).awaitingAll s.fallInto.toList
    have tests : Leads (Compiler.Fits (bodies.within kinds)) (do
        let found ← caseTests rules subject
        let past ← emitFixup .branch
        pure (found, { s with pending := [past] })) fun (found, s') c =>
          s'.defaultBody = s.defaultBody ∧
            c.Fits (((o.clauses s').awaitingAll found).within kinds) := by
      refine (caseTests_leads h subject).bind fun found => (emitFixup_leads rfl).bind fun past =>
        .pure fun c fits => ⟨rfl, fits.mono fun _ => ?_⟩
      exact (@List.perm_middle _ _ found _).symm.mem_iff
    exact .bind (.steady (.quiet (expect_quiet _))) fun _ =>
      (mark_within (o := bodies) begun).bind fun here => .given fun positive =>
        (patchAll_within positive).bind fun _ => tests

/-- What holds between two clauses: behind a body that falls through another clause follows. -/
def Between (o : Outline) (kinds : List Breakable) (s : OpenSwitch) (c : Compiler) : Prop :=
  (∀ b ∈ s.defaultBody, 0 < b) ∧
  (s.fallInto ≠ none → c.cursor.isAnyNext ["case", "default"] = true) ∧
  c.Fits ((o.clauses s).within kinds)

/-- A step that reads nothing. -/
def Still (m : CompileM α) : Prop := ∀ c, (m c).2.cursor = c.cursor

theorem Still.bind {β : Type} {m : CompileM α} {f : α → CompileM β} (hm : Still m)
    (hf : ∀ a, Still (f a)) : Still (m >>= f) := by
  intro c
  have first := hm c
  rcases ran : m c with ⟨_ | a, c₁⟩ <;> rw [ran] at first
  · rw [bind_of_error ran]
    exact first
  · rw [bind_of_ok ran]
    exact (hf a c₁).trans first

theorem editCode_still (f : Code → Except Fault Code) : Still (editCode f) := fun c => by
  cases edited : f c.draft.code with
  | ok code => rw [editCode_of edited]
  | error fault =>
    rw [editCode, bind_of_ok (get_eq c), edited]
    rfl

theorem popScope_still : Still popScope :=
  .bind (m := emitInt .popScope 1) (editCode_still _) fun _ _ => rfl

theorem emitFixup_still (op : Opcode) : Still (emitFixup op) :=
  .bind (m := mark) (fun _ => rfl) fun _ =>
    .bind (m := emit op (.address 0)) (editCode_still _) fun _ _ => rfl

/-- A step that reads nothing keeps what is known of the tokens ahead. -/
theorem Leads.still {P : Compiler → Prop} {Q : α → Compiler → Prop} {m : CompileM α}
    (h : Leads P m Q) (still : Still m) {R : Token.Cursor → Prop} :
    Leads (fun c => R c.cursor ∧ P c) m fun a c => R c.cursor ∧ Q a c := by
  refine fun c before => ⟨(h c before.2).1, fun a c' run => ?_⟩
  have same := still c
  rw [run] at same
  exact ⟨same ▸ before.1, h.reaches before.2 run⟩

theorem clause_leads (h : rules.Steady) (subject : Option String) (s : OpenSwitch)
    (begun : 0 < o.size) (positive : ∀ b ∈ s.defaultBody, 0 < b) :
    Leads (Compiler.Fits ((o.clauses s).within kinds)) (clause rules subject s)
      (Between o kinds) := by
  refine .bind (.steady (.quiet (accept_quiet _))) fun isDefault =>
    (clauseHead_leads h subject isDefault s begun).bind fun ⟨found, s'⟩ => .given fun same =>
      .bind (.steady (.quiet (expect_quiet _))) fun _ =>
        (mark_within (o := o.clauses s') begun).bind fun body => .given fun there =>
          (patchAll_within there).bind fun _ => ?_
  let others := (o.awaitingAll s'.ends).awaitingAll s'.pending
  have falling : ∀ c, Compiler.Fits ((o.clauses s').within kinds) c →
      Compiler.Fits ((others.awaitingAll s'.fallInto.toList).within kinds) c := fun c fits =>
    fits.mono fun _ => (List.perm_append_comm_assoc _ _ _).mem_iff
  refine .before ((patchAll_within there).bind fun _ => .bind (.steady pushScope_steady) fun _ =>
    (clauseBody_leads h).bind fun falls => ?_) falling
  let Ahead (cursor : Token.Cursor) : Prop :=
    falls = true → cursor.isAnyNext ["case", "default"] = true
  refine (Leads.still (R := Ahead) (.steady popScope_steady) popScope_still).bind fun _ =>
    (Leads.still (R := Ahead) (emitFixup_within rfl) (emitFixup_still _)).bind fun leaving =>
      .pure fun c ⟨ahead, fits⟩ => ⟨?_, ?_, ?_⟩
  · cases isDefault with
    | true => rintro _ ⟨⟩; exact there
    | false => rw [← same] at positive; exact positive
  · cases falls with
    | true => exact fun _ => ahead rfl
    | false => exact fun none => absurd rfl none
  · refine fits.mono fun a => ?_
    cases falls <;>
    · simp only [others, Outline.clauses, Outline.awaitingAll, Outline.awaiting, Outline.within,
        List.mem_append, List.mem_cons, if_true, if_false, Option.toList, Bool.false_eq_true]
      grind

theorem closeSwitch_leads {s : OpenSwitch} (begun : 0 < o.size)
    (positive : ∀ b ∈ s.defaultBody, 0 < b) (ended : s.fallInto = none) :
    Leads (Compiler.Fits ((o.clauses s).within (.switch :: kinds))) (closeSwitch s) fun _ =>
      Compiler.Fits (o.within kinds) := by
  have all : o.clauses s = (o.awaitingAll s.ends).awaitingAll s.pending := by
    rw [Outline.clauses, ended]
    rfl
  rw [all]
  refine (mark_within (o := o.awaitingAll s.ends) begun).bind fun here => .given fun there => ?_
  have target : 0 < s.defaultBody.getD here := by
    cases body : s.defaultBody with
    | some b => exact positive b body
    | none => exact there
  exact (patchAll_within target).bind fun _ => (mark_within begun).bind fun _ => .given fun there =>
    (patchAll_within there).bind fun _ => closeLoop_leads begun nofun fun _ => rfl

theorem switchSubject_steady (h : rules.Steady) : Steady (switchSubject rules) :=
  .bind (.quiet (isNext_quiet _)) fun _ => .ite (.pure _) <| .bind (.quiet (tempName_quiet _))
    fun name => (condition_steady h).bind fun _ => (createTemp_steady name).bind fun _ => .pure _

/-- A closing brace stands behind no body that falls through. -/
theorem isNext_brace {c : Token.Cursor} (ahead : c.isAnyNext ["case", "default"] = true) :
    c.isNext "\x7d" = false := by
  simp only [Token.Cursor.isAnyNext, Token.Cursor.isNext, Token.is, List.any_cons, List.any_nil,
    Bool.or_false, Bool.or_eq_true, Bool.and_eq_true, beq_iff_eq] at ahead
  rcases ahead with ⟨-, spelling⟩ | ⟨-, spelling⟩ <;>
    simp [Token.Cursor.isNext, Token.is, spelling]

/-- Where a switch ends no body falls through. -/
theorem accept_brace {s : OpenSwitch} :
    Leads (fun c => (s.fallInto ≠ none → c.cursor.isAnyNext ["case", "default"] = true) ∧ c.Fits o)
      (accept "\x7d") fun b c => (b = true → s.fallInto = none) ∧ c.Fits o := by
  intro c ⟨ahead, fits⟩
  have reads : Leads (Compiler.Fits o) (accept "\x7d") fun _ => Compiler.Fits o :=
    .steady (.quiet (accept_quiet _))
  refine ⟨(reads c fits).1, fun b c' run => ?_⟩
  by_cases none : s.fallInto = none
  · exact ⟨fun _ => none, reads.reaches fits run⟩
  · rw [accept_other (isNext_brace (ahead none))] at run
    cases run
    exact ⟨nofun, fits⟩

theorem switchTurn_leads (h : rules.Steady) (subject : Option String) (s : OpenSwitch)
    (begun : 0 < o.size) :
    Leads (Between o (.switch :: kinds) s) (do
      if ← accept "\x7d" then pure (.done s)
      else
        if ← atEnd then fail (.missing "\x7d")
        pure (.again (← clause rules subject s)))
      (AfterTurn (Between o (.switch :: kinds)) fun s c =>
        ((∀ b ∈ s.defaultBody, 0 < b) ∧ s.fallInto = none) ∧
          c.Fits ((o.clauses s).within (.switch :: kinds))) :=
  .given fun positive => accept_brace.bind fun _ => .given fun ended => .ite
    (fun closed => .pure fun _ fits => ⟨⟨positive, ended closed⟩, fits⟩) fun _ =>
      .bind (.steady (.quiet atEnd_quiet)) fun _ => .guarded (fail_refuses _ (by nofun)) fun _ =>
        (clause_leads h subject s begun positive).bind fun _ => .pure fun _ => id

theorem switchStatement_steady (h : rules.Steady) : SteadyWithin (switchStatement rules) := by
  refine .bind (.quiet skip_quiet) fun _ o kinds => ?_
  let inside := o.reaching (o.size + 1)
  have begun : 0 < inside.size := Nat.succ_pos _
  have entered : Leads (Compiler.Fits (inside.within kinds)) (openLoop .switch) fun _ =>
      Between inside (.switch :: kinds) {} :=
    (openLoop_leads _).after fun _ c fits => ⟨nofun, fun some => absurd rfl some, fits⟩
  have ends : ∀ s : OpenSwitch, Leads (fun c => ((∀ b ∈ s.defaultBody, 0 < b) ∧ s.fallInto = none) ∧
      c.Fits ((inside.clauses s).within (.switch :: kinds))) (do
        closeSwitch s
        popScope) fun _ => Compiler.Fits (o.within kinds) := fun s =>
    .given fun ended => (closeSwitch_leads begun ended.1 ended.2).bind fun _ =>
      (Leads.steady popScope_steady).after fun _ _ fits =>
        fits.weaken (Nat.le_refl _) (Nat.le_succ _)
  refine (pushScope_leads (o := o.within kinds)).bind fun _ => ?_
  exact (Leads.steady (o := inside.within kinds) (switchSubject_steady h)).bind fun subject =>
    .bind (.steady (.quiet (expect_quiet _))) fun _ => entered.bind fun _ =>
      (Leads.repeatTurns (fun s => switchTurn_leads h subject s begun) _).bind ends

/-! ## Protected blocks -/

theorem modifyTryDepth_steady (f : Nat → Nat) : Steady (modifyTryDepth f) :=
  .modifyDraft (fun _ => rfl) fun _ => rfl

theorem caughtName_quiet : Quiet caughtName :=
  (accept_quiet _).bind fun _ => .ite
    (identifier_quiet.bind fun _ => (expect_quiet _).bind fun _ => .pure _)
    (current_quiet.bind fun _ => .ite (identifier_quiet.bind fun _ => .pure _) (.pure _))

theorem catchBlock_steady (h : rules.Steady) : SteadyWithin (catchBlock rules) := by
  refine .bind (.quiet caughtName_quiet) fun name => .bind (.quiet (expect_quiet _)) fun _ =>
    .bind pushScope_steady.within fun _ => ?_
  have body : SteadyWithin (do
      statementsUntilClose rules
      popScope
      emitOp .tryPop) := (statementsUntilClose_steady h).bind fun _ =>
    .bind popScope_steady.within fun _ => Steady.within (emitOp_steady rfl)
  cases name with
  | some name =>
    exact .bind (Steady.within (emitName_steady rfl)) fun _ =>
      .bind (createAndStore_steady name).within fun _ => body
  | none => exact body

/-- The branch to the handler and the one past it get their targets. -/
theorem tryStatement_steady (h : rules.Steady) : SteadyWithin (tryStatement rules) := by
  refine .bind (.quiet skip_quiet) fun _ o kinds => ?_
  refine (emitFixup_within rfl).bind fun handler => .bind (.steady (modifyTryDepth_steady _)) fun _ =>
    .bind (.within (block_steady h)) fun _ => .bind (.steady (emitOp_steady rfl)) fun _ =>
    (emitFixup_within rfl).bind fun finish => .bind (.steady (.quiet (accept_quiet _))) fun _ =>
    .ite (fun _ => .bind (.steady (modifyTryDepth_steady _)) fun _ =>
      .refuses ((fail_refuses _ (by nofun)).bind _)) fun _ => ?_
  exact patchHere_within_under.bind fun _ => .bind (.within (catchBlock_steady h)) fun _ =>
    .bind (.steady (modifyTryDepth_steady _)) fun _ => patchHere_within

/-! ## Statements -/

theorem functionStatement_steady (h : rules.Steady) : Steady (functionStatement rules) :=
  .bind (.quiet startsMethod_quiet) fun _ => .ite (methodDeclaration_steady h) <|
    .bind (.quiet (peek_quiet _)) fun _ => .ite (namedFunction_steady h) (expressionStatement_steady h)

theorem keywordStatement_steady (h : rules.Steady) (word : String) :
    SteadyWithin (keywordStatement rules word) := by
  unfold keywordStatement
  split
  · exact (group_steady _ (variableSpec_steady h)).within
  · exact (group_steady _ (constantSpec_steady h)).within
  · exact (arrayStatement_steady h).within
  · exact (assertStatement_steady h).within
  · exact loopControl_steady
  · exact loopControl_steady
  · exact .bind (.quiet skip_quiet) fun _ => (expressionStatement_steady h).within
  · exact forStatement_steady h (simpleStatement_steady h)
  · exact h.ifStatement
  · exact switchStatement_steady h
  · exact tryStatement_steady h
  · exact (functionStatement_steady h).within
  · exact (goStatement_steady h).within
  · exact (group_steady _ (importSpec_steady h)).within
  · exact packageStatement_steady.within
  · exact (printStatement_steady h).within
  · exact (returnStatement_steady h).within
  · exact typeStatement_steady.within
  · exact .refuses (fail_refuses _ (by nofun))
  all_goals first | exact (simpleStatement_steady h).within | exact .refuses (fail_refuses _ (by nofun))

theorem statementWith_steady (h : rules.Steady) : SteadyWithin (statementWith rules) := by
  have rest : SteadyWithin (do
      if !(← accept ";") then
        if !(← atStatementEnd) then fail .unexpectedToken) :=
    .bind (.quiet (accept_quiet _)) fun _ => .ite (.bind (.quiet atStatementEnd_quiet) fun _ =>
      .ite (.refuses (fail_refuses _ (by nofun))) (.pure _)) (.pure _)
  exact .bind (.quiet (accept_quiet _)) fun _ => .ite (.bind atLine_steady.within fun _ =>
    .bind (.quiet current_quiet) fun t => .ite ((block_steady h).bind fun _ => rest) <|
      .ite (.bind (directive_steady h).within fun _ => rest) <|
      .ite ((keywordStatement_steady h _).bind fun _ => rest) <|
      .bind (simpleStatement_steady h).within fun _ => rest) (.pure _)

end CompileM

end StackScript
