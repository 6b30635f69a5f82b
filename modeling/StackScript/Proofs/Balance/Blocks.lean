import StackScript.Proofs.Balance.Statements

/-!
# Statements within loops

A block closes the scope that it opens. Whatever way leads to the end of a loop, a switch or a
protected block, as much is open there as at its start: a `break` or a `continue` closes first what
was opened since.

Main statements: `closeLoop_lays` (the branches that wait for the end of a loop lead where the loop
stands), `loopControl_acts` and `statementWith_acts`.
-/
namespace StackScript

open CompileM

/-! ## Branches that wait for the end of a loop -/

/-- A loop that was just opened has no branches. -/
theorem exits_open (kind : Breakable) (s t : Nat) (loops : List OpenLoop) :
    exits ({ kind := kind, scopeDepth := s, tryDepth := t } :: loops) = exits loops := by
  ext x
  simp [exits]

/-- The branches of the innermost loop, and those of the others. -/
theorem exits_cons (l : OpenLoop) (loops : List OpenLoop) :
    exits (l :: loops) = {x | x.1 ∈ l.continues ∧ x.2 = .level l.scopeDepth l.tryDepth} ∪
      ({x | x.1 ∈ l.breaks ∧ x.2 = .level l.scopeDepth l.tryDepth} ∪ exits loops) := by
  ext x
  simp only [exits, List.mem_cons, exists_eq_or_imp, List.mem_append, Set.mem_union, Set.mem_ofPred_eq]
  grind

namespace OpenLoop

variable (isBreak : Bool) (fixup : Nat) (loops : List OpenLoop)

theorem noteBranch_place : (noteBranch isBreak fixup loops).map place = loops.map place := by
  induction loops with
  | nil => rfl
  | cons l outer ih =>
    rw [noteBranch]
    split
    · cases isBreak <;> rfl
    · rw [List.map_cons, ih, List.map_cons]

/-- A branch that has been noted waits for the end of the loop that it leaves. -/
theorem exits_noteBranch {l : OpenLoop} {loops : List OpenLoop}
    (found : loops.find? (isLeftBy isBreak) = some l) :
    exits (noteBranch isBreak fixup loops) =
      insert (fixup, .level l.scopeDepth l.tryDepth) (exits loops) := by
  induction loops with
  | nil => cases found
  | cons first outer ih =>
    rw [noteBranch]
    cases left : first.isLeftBy isBreak with
    | true =>
      rw [List.find?_cons, left] at found
      cases found
      ext ⟨a, ρ⟩
      cases isBreak <;>
      · simp only [exits, if_true, Bool.false_eq_true, if_false, List.mem_cons, exists_eq_or_imp,
          List.mem_append, Set.mem_ofPred_eq, Set.mem_insert_iff, Prod.mk.injEq]
        grind
    | false =>
      rw [List.find?_cons, left] at found
      rw [if_neg (by simp), exits_cons, ih found, exits_cons, Set.union_insert, Set.union_insert]

end OpenLoop

namespace Sketch

variable (o : Sketch) (ν : Spot)

theorem awaitingAll_append (found : List Nat) (a : Nat) :
    o.awaitingAll (found ++ [a]) ν = (o.awaitingAll found ν).awaiting a ν := by
  simp only [awaitingAll, awaiting, mk.injEq, true_and, and_true]
  ext ⟨b, τ⟩
  simp only [List.mem_append, List.mem_singleton, Set.mem_union, Set.mem_ofPred_eq,
    Set.mem_insert_iff, Prod.mk.injEq]
  tauto

/-- What waits for a later body or for the end of a switch. The default body may be come back to. -/
def bodies (s : CompileM.OpenSwitch) : Sketch :=
  { (o.awaitingAll s.ends ν).awaitingAll s.fallInto.toList ν with
    marks := {x | s.defaultBody = some x.1 ∧ x.2 = ν} ∪ o.marks }

/-- The branches of a switch wait between two clauses. -/
def clauses (s : CompileM.OpenSwitch) : Sketch := (o.bodies ν s).awaitingAll s.pending ν

end Sketch

namespace CompileM

open Compiler (At)

variable {rules : Nested} {k s t : Nat} {o : Sketch} {σ : Spot} {places : List (Breakable × Nat × Nat)}

/-- An address that is not come back to may be forgotten. -/
theorem Lays.forget {α : Type} {P : Compiler → Prop} {m : CompileM α} {a : Nat} {τ : Spot}
    (h : Lays P m fun _ => At ((o.marking a τ).within places s t) σ) :
    Lays P m fun _ => At (o.within places s t) σ :=
  h.after fun _ _ => Compiler.At.forget (o := o.within places s t)

/-! ## Blocks -/

theorem Acts.mono {α : Type} {m : CompileM α} {n : Nat} (h : Acts k m) (more : k ≤ n) : Acts n m :=
  fun o places s t room => h o places s t
    ⟨(Nat.add_le_add_left more s).trans_lt room.few, room.inside⟩

/-- Inside a scope there is room for one scope less. -/
theorem Room.scope (h : Room (k + 1) places s t) : Room k places (s + 1) t :=
  ⟨by have := h.few; omega, fun p mem => (h.inside p mem).imp_left Nat.le_succ_of_le⟩

/-- Statements in a scope of their own. -/
theorem block_acts (h : rules.Balances k) : Acts (k + 1) (block rules) := fun _ _ _ _ room =>
  .bind (Emits.quiet (expect_quiet _) _) fun _ => (pushScope_lays (.pushScope (n := 0))).bind fun _ =>
    (statementsUntilClose_acts h _ _ _ _ room.scope).bind fun _ => popScope_lays (n := 0)

/-- The branch of a failed condition leads to what follows the body. -/
theorem elseClause_lays (h : rules.Balances k) (room : Room (k + 1) places s t) (otherwise : Nat) :
    Lays (At ((o.awaiting otherwise (.level s t)).within places s t) (.level s t))
      (elseClause rules otherwise) fun _ => At (o.within places s t) (.level s t) := by
  refine .bind (Emits.quiet (accept_quiet _) _) fun _ => .ite (fun _ => ?_) fun _ =>
    patchHere_lays (o := o.within places s t) subset_rfl subset_rfl
  refine (emitFixup_lays (o := (o.awaiting otherwise _).within places s t) rfl .branch).bind fun finish =>
    (patchUnder_lays (o := o.within places s t) (Set.empty_subset _) subset_rfl).bind fun _ =>
    .bind (Emits.quiet (isNext_quiet _) _) fun _ => .ite (fun _ => ?_) fun _ => ?_
  · exact ((h.ifStatement.mono (Nat.le_succ k)) (o.awaiting finish _) places s t room).bind fun _ =>
      patchHere_lays (o := o.within places s t) subset_rfl subset_rfl
  · exact (block_acts h (o.awaiting finish _) places s t room).bind fun _ =>
      patchHere_lays (o := o.within places s t) subset_rfl subset_rfl

theorem ifWith_acts (h : rules.Balances k) {simple : CompileM Unit} (head : Performs simple) :
    Acts (k + 2) (ifWith rules simple) := by
  refine .bind (.quiet skip_quiet) fun _ => .bind (.quiet (headContains_quiet _)) fun startsScope => ?_
  have rest (o : Sketch) (places : List (Breakable × Nat × Nat)) (s t : Nat) (room : Room (k + 1) places s t)
      {ends : CompileM Unit} {R : Unit → Compiler → Prop}
      (behind : Lays (At (o.within places s t) (.level s t)) ends R) :
      Lays (At (o.within places s t) (.level s t)) (do
        condition rules
        let otherwise ← emitFixup .branchFalse
        block rules
        elseClause rules otherwise
        ends) R :=
    (condition_evaluates h _ _).bind fun _ =>
      (emitFixup_lays (o := o.within places s t) rfl (.branchIf (.inr rfl))).bind fun otherwise =>
      (block_acts h (o.awaiting otherwise _) places s t room).bind fun _ =>
      (elseClause_lays h room otherwise).bind fun _ => behind
  intro o places s t room
  cases startsScope with
  | true =>
    exact (pushScope_lays (.pushScope (n := 0))).bind fun _ =>
      ((head (s + 1) t).inHead _).bind fun _ => .bind (Emits.quiet (expect_quiet _) _) fun _ =>
        rest o places (s + 1) t room.scope (popScope_lays (n := 0))
  | false =>
    exact rest o places s t ⟨by have := room.few; omega, room.inside⟩ (.pure fun _ => id)

/-! ## Loops and switches as targets of `break` -/

/-- Other loops may be open if the same branches wait. -/
theorem At.reopen {c : Compiler} {q : Sketch} {loops : List OpenLoop} (h : c.At o σ)
    (spare : o.spare = q.spare) (marks : o.marks = q.marks)
    (waiting : o.waiting ∪ o.opens c.draft.loops = q.waiting ∪ q.opens loops)
    (nest : q.nest ⟨loops, c.draft.scopeDepth, c.draft.tryDepth⟩) :
    Compiler.At q σ { c with draft := { c.draft with loops := loops } } := by
  refine ⟨?_, nest⟩
  have laid := h.laid
  rw [spare, marks, waiting] at laid
  exact laid

/-- What is opened here may be left from here on. -/
theorem openLoop_lays (kind : Breakable) :
    Lays (At (o.within places s t) σ) (openLoop kind) fun _ =>
      At (o.within ((kind, s, t) :: places) s t) σ := by
  refine .modify fun c here => ⟨fun orderly => orderly.of_same rfl rfl rfl, ?_⟩
  obtain ⟨loops, switches, scopes, tries⟩ := here.nest
  obtain rfl : c.draft.scopeDepth = s := scopes
  obtain rfl : c.draft.tryDepth = t := tries
  exact At.reopen here rfl rfl (congrArg (o.waiting ∪ ·) (exits_open ..).symm)
    ⟨congrArg ((kind, _, _) :: ·) loops, List.forall_mem_cons.2 ⟨fun _ => rfl, switches⟩, rfl, rfl⟩

theorem patchAllWithin_lays {fixups : List Nat} {target : Nat} {ρ : Spot}
    (mem : (target, ρ) ∈ o.marks) :
    Lays (At ((o.awaitingAll fixups ρ).within places s t) σ) (patchAll fixups target) fun _ =>
      At (o.within places s t) σ := patchAll_lays (o := o.within places s t) mem subset_rfl

/-- Branches lead to the next instruction. -/
theorem patchAllHere_lays {fixups : List Nat} :
    Lays (At ((o.awaitingAll fixups σ).within places s t) σ) (do patchAll fixups (← mark)) fun _ =>
      At (o.within places s t) σ :=
  (mark_lays (o := (o.awaitingAll fixups σ).within places s t)).bind fun here =>
    .forget <| patchAllWithin_lays (o := o.marking here σ) (Set.mem_insert ..)

theorem patchAllHere_bind {α : Type} {fixups : List Nat} {f : Unit → CompileM α}
    {R : α → Compiler → Prop} (behind : ∀ u, Lays (At (o.within places s t) σ) (f u) R) :
    Lays (At ((o.awaitingAll fixups σ).within places s t) σ) (do
      let here ← mark
      let done ← patchAll fixups here
      f done) R := by
  rw [← bind_assoc]
  exact patchAllHere_lays.bind behind

/-- The end of a loop or switch patches the branches that wait for it. A loop is gone on with where
as much is open as at its start. -/
theorem closeLoop_lays {kind : Breakable} {next : Option Nat}
    (target : ∀ a ∈ next, (a, .level s t) ∈ o.marks) (loop : next = none → kind = .switch) :
    Lays (At (o.within ((kind, s, t) :: places) s t) (.level s t)) (closeLoop next) fun _ =>
      At (o.within places s t) (.level s t) := by
  refine .readAs fun d _ => ?_
  cases loops : d.draft.loops with
  | nil =>
    rintro c - ⟨rfl, here⟩
    have same : c.draft.loops.map OpenLoop.place = (kind, s, t) :: places := here.nest.1
    rw [loops] at same
    cases same
  | cons l outer =>
    have known : ∀ c, (c = d ∧ At (o.within ((kind, s, t) :: places) s t) (.level s t) c) →
        (l.place = (kind, s, t) ∧ (l.kind = .switch → l.continues = [])) ∧
          c.draft.loops = l :: outer ∧ c.At (o.within ((kind, s, t) :: places) s t) (.level s t) := by
      rintro c ⟨rfl, here⟩
      obtain ⟨same, switches, -⟩ : c.draft.loops.map OpenLoop.place = (kind, s, t) :: places ∧
        (∀ l ∈ c.draft.loops, l.kind = .switch → l.continues = []) ∧ _ := here.nest
      rw [loops] at same switches
      exact ⟨⟨(List.cons.inj same).1, (List.forall_mem_cons.1 switches).1⟩, loops, here⟩
    refine .before (.given fun ⟨place, switch⟩ => ?_) known
    obtain ⟨rfl, rfl, rfl⟩ : l.kind = kind ∧ l.scopeDepth = s ∧ l.tryDepth = t := by
      simpa [OpenLoop.place] using place
    let ν : Spot := .level l.scopeDepth l.tryDepth
    have left : Lays (fun c => c.draft.loops = l :: outer ∧
        c.At (o.within ((l.kind, l.scopeDepth, l.tryDepth) :: places) l.scopeDepth l.tryDepth) ν)
        (modifyDraft fun d => { d with loops := outer }) fun _ => At (((o.awaitingAll l.breaks
          ν).awaitingAll l.continues ν).within places l.scopeDepth l.tryDepth) ν := by
      refine .modify fun c ⟨loops, stands⟩ => ⟨fun orderly => orderly.of_same rfl rfl rfl, ?_⟩
      obtain ⟨same, switches, depths⟩ := stands.nest
      change c.draft.loops.map OpenLoop.place = _ at same
      change ∀ l ∈ c.draft.loops, _ at switches
      rw [loops] at same switches
      refine At.reopen stands rfl rfl ?_ ⟨(List.cons.inj same).2, (List.forall_mem_cons.1 switches).2, depths⟩
      rw [loops]
      change o.waiting ∪ exits (l :: outer) = {x | x.1 ∈ l.continues ∧ x.2 = ν} ∪
        ({x | x.1 ∈ l.breaks ∧ x.2 = ν} ∪ o.waiting) ∪ exits outer
      rw [exits_cons]
      ext x
      simp only [Set.mem_union]
      tauto
    have breaks : Lays (At ((o.awaitingAll l.breaks ν).within places l.scopeDepth l.tryDepth) ν)
        (do patchAll l.breaks (← mark)) fun _ => At (o.within places l.scopeDepth l.tryDepth) ν :=
      patchAllHere_lays
    refine left.bind fun _ => ?_
    cases next with
    | some next =>
      exact (patchAllWithin_lays (o := o.awaitingAll l.breaks ν) (target next rfl)).bind fun _ => breaks
    | none =>
      rw [switch (loop rfl), Sketch.awaitingAll_nil]
      exact breaks

/-! ## Loops -/

theorem loopCondition_lays (h : rules.Balances k) (clauses : Bool) :
    Lays (At o σ) (loopCondition rules clauses) fun exit => At (o.awaitingAll exit.toList σ) σ := by
  have test : ∀ absent : Bool, Lays (At o σ) (do
      if absent then pure none
      else
        condition rules
        pure (some (← emitFixup .branchFalse))) fun exit => At (o.awaitingAll exit.toList σ) σ := by
    refine fun absent => .ite (fun _ => .pure fun _ here => ?_) fun _ => (condition_evaluates h σ o).bind
      fun _ => (emitFixup_lays rfl (.branchIf (.inr rfl))).bind fun a => .pure fun _ here => ?_
    · rwa [Option.toList_none, Sketch.awaitingAll_nil]
    · rwa [Option.toList_some, Sketch.awaitingAll_cons, Sketch.awaitingAll_nil]
  exact .bind (Emits.quiet (isNext_quiet _) _) fun _ => .ite
    (fun _ => (Emits.pure _ _).bind test)
    fun _ => .bind (Emits.quiet (isNext_quiet _) _) fun _ => (Emits.pure _ _).bind test

/-- The statement that stands behind a loop comes to where it starts. -/
theorem postClause_lays {simple : CompileM Unit} (h : Performs simple) (clauses : Bool) (s t : Nat) :
    Lays (At o σ) (postClause simple clauses) fun post c =>
      (∀ code ∈ post, code.Carries argumentLimit (.level s t) (.level s t)) ∧ c.At o σ := by
  have none : Lays (At o σ) (pure none : CompileM (Option Code)) fun post c =>
      (∀ code ∈ post, code.Carries argumentLimit (.level s t) (.level s t)) ∧ c.At o σ :=
    .pure fun c here => ⟨nofun, here⟩
  refine .ite (fun _ => .bind (Emits.quiet (expect_quiet _) _) fun _ =>
    .bind (Emits.quiet (isNext_quiet _) _) fun _ => .ite (fun _ => none) fun _ => ?_) fun _ => none
  exact (capture_lays fun _ : Unit => (h s t).inHead).bind fun code => .pure fun c ⟨carries, here⟩ =>
    ⟨fun _ mem => by cases mem; exact carries (), here⟩

/-- Behind the body of a loop stand the post clause, where `continue` leads, and the way back to
the top. -/
theorem countedEnd_lays {top : Nat} {exit : List Nat} {post : Option Code}
    (passed : (top, .level s t) ∈ o.marks)
    (carries : ∀ code ∈ post, code.Carries argumentLimit (.level s t) (.level s t)) :
    Lays (At ((o.awaitingAll exit (.level s t)).within ((.loop, s, t) :: places) s t) (.level s t)) (do
      let next ← mark
      match post with
      | some code => append code
      | none => pure ()
      emit .branch (.address top)
      patchAll exit (← mark)
      closeLoop (some next)) fun _ => At (o.within places s t) (.level s t) := by
  refine (mark_lays (o := (o.awaitingAll exit (.level s t)).within ((.loop, s, t) :: places) s t)).bind
    fun next => ?_
  let inside := o.marking next (.level s t)
  have ends : Lays (At ((inside.awaitingAll exit (.level s t)).within ((.loop, s, t) :: places) s t)
      (.level s t)) (do
        emit .branch (.address top)
        patchAll exit (← mark)
        closeLoop (some next)) fun _ => At (o.within places s t) (.level s t) := by
    refine ((emitBranch_lays (o := (inside.awaitingAll exit _).within _ s t)
      (Set.mem_insert_of_mem _ passed) subset_rfl).after fun _ _ there =>
        there.mono (Set.empty_subset (Spot.level s t))).bind fun _ => patchAllHere_bind fun _ => ?_
    have gone : ∀ a ∈ some next, (a, Spot.level s t) ∈ inside.marks := by
      rintro _ ⟨⟩
      exact Set.mem_insert ..
    exact .forget <| closeLoop_lays (o := inside) gone fun none => by cases none
  cases post with
  | some code => exact (append_emits (carries code rfl) _).bind fun _ => ends
  | none => exact ends

/-- What is opened in the body is opened after the loop. -/
theorem Room.loop (room : Room k places s t) : Room k ((.loop, s, t) :: places) s t :=
  ⟨room.few, List.forall_mem_cons.2 ⟨⟨Nat.le_refl _, Nat.le_refl _⟩, room.inside⟩⟩

theorem countedLoop_acts (h : rules.Balances k) {simple : CompileM Unit} (head : Performs simple) :
    Acts (k + 1) (countedLoop rules simple) := by
  intro o places s t room
  refine .bind (Emits.quiet (headContains_quiet _) _) fun clauses => ?_
  have loop : Lays (At (o.within places s t) (.level s t)) (do
      let top ← mark
      let exit ← loopCondition rules clauses
      let post ← postClause simple clauses
      openLoop .loop
      block rules
      let next ← mark
      match post with
      | some code => append code
      | none => pure ()
      emit .branch (.address top)
      patchAll exit.toList (← mark)
      closeLoop (some next)) fun _ => At (o.within places s t) (.level s t) := by
    refine (mark_lays (o := o.within places s t)).bind fun top => ?_
    let begun := o.marking top (.level s t)
    refine (loopCondition_lays (o := begun.within places s t) h clauses).bind fun exit =>
      (postClause_lays head clauses s t).bind fun post => .given fun carries => ?_
    let inside := begun.awaitingAll exit.toList (.level s t)
    exact .forget (o := o) (a := top) (τ := .level s t) <| (openLoop_lays (o := inside) .loop).bind
      fun _ => (block_acts h inside _ s t room.loop).bind fun _ =>
        countedEnd_lays (o := begun) (Set.mem_insert ..) carries
  have simple := (head s t).inHead (o.within places s t)
  refine .ite (fun _ => .bind (Emits.quiet (isNext_quiet _) _) fun _ => ?_) fun _ => loop
  exact .ite (fun _ => simple.bind fun _ => .bind (Emits.quiet (expect_quiet _) _) fun _ => loop)
    fun _ => .bind (Emits.quiet (expect_quiet _) _) fun _ => loop

theorem bindRange_idles (h : rules.Balances k) (names : RangeNames) : Idles (bindRange rules names) := by
  intro σ
  have binds (name : String) : Emits (.above 1 σ) σ (createTemp name) := createTemp_emits .above name
  exact (condition_evaluates h σ).bind fun _ => (binds _).bind fun _ =>
    (emitLoads_emits _).bind fun _ => emitCall_one.bind fun _ => (binds _).bind fun _ =>
    (emitLoads_emits _).bind fun _ => emitCall_one.bind fun _ => (binds _).bind fun _ =>
    .bind (emitValue_pushes nofun) fun _ => binds _

theorem declareVariables_idles (names : List String) : Idles (declareVariables names) := by
  intro σ
  induction names with
  | nil => exact .pure _
  | cons name rest ih =>
    exact .ite (fun _ => (declare_idles name σ).bind fun _ => .bind (emitValue_pushes nofun) fun _ =>
      (createTemp_emits .above name).bind fun _ => ih) fun _ => ih

theorem storeVariable_idles (name : Option String) {value : CompileM Unit} (h : Evaluates value) :
    Idles (storeVariable name value) := by
  intro σ
  cases name with
  | some name => exact .ite (fun _ => (h σ).bind fun _ => Tops.above.takes rfl) fun _ => .pure _
  | none => exact .pure _

theorem updateVariables_idles (names : RangeNames) (loopNames : List String) :
    Idles (updateVariables names loopNames) := by
  have key : Evaluates (do
      emitLoads [names.keys, names.position]
      emitOp .loadIndex) := fun _ => (emitLoads_emits _).bind fun _ => emit_joins rfl
  exact fun σ => (storeVariable_idles _ key σ).bind fun _ => storeVariable_idles _
    (fun _ => .bind (emit_pushes rfl) fun _ => (key _).bind fun _ => emit_joins rfl) σ

theorem rangeLoop_acts (h : rules.Balances k) : Acts (k + 1) (rangeLoop rules) := by
  intro o places s t room
  refine .bind (Emits.quiet rangeHead_quiet _) fun head => .bind (Emits.quiet (expect_quiet _) _) fun _ =>
    .bind (Emits.quiet rangeNames_quiet _) fun names => (bindRange_idles h names _ _).bind fun _ => ?_
  have loop : Lays (At (o.within places s t) (.level s t)) (do
      let top ← mark
      emitLoads [names.position, names.count]
      emitOp .lessThan
      let exit ← emitFixup .branchFalse
      updateVariables names head.loopNames
      openLoop .loop
      block rules
      let next ← mark
      emitName .load names.position
      emitValue (.int 1)
      emitOp .add
      emitName .store names.position
      emit .branch (.address top)
      patchHere exit
      closeLoop (some next)) fun _ => At (o.within places s t) (.level s t) := by
    refine (mark_lays (o := o.within places s t)).bind fun top =>
      (emitLoads_emits _ _).bind fun _ => (emit_joins rfl _).bind fun _ =>
      (emitFixup_lays (o := (o.marking top _).within places s t) rfl (.branchIf (.inr rfl))).bind
        fun exit => (updateVariables_idles _ _ _ _).bind fun _ => ?_
    let begun := o.marking top (.level s t)
    let inside := begun.awaiting exit (.level s t)
    refine .forget (o := o) (a := top) (τ := .level s t) <| (openLoop_lays (o := inside) .loop).bind
      fun _ => (block_acts h inside _ s t room.loop).bind fun _ =>
      (mark_lays (o := inside.within ((.loop, s, t) :: places) s t)).bind fun next => ?_
    have ends : Lays (At ((inside.marking next (.level s t)).within ((.loop, s, t) :: places) s t)
        (.level s t)) (do
          emit .branch (.address top)
          patchHere exit
          closeLoop (some next)) fun _ => At (begun.within places s t) (.level s t) :=
      (emitBranch_lays (o := (inside.marking next _).within _ s t)
        (Set.mem_insert_of_mem _ (Set.mem_insert ..)) subset_rfl).bind fun _ =>
      (patchHere_lays (o := (begun.marking next _).within _ s t) (Set.empty_subset _) subset_rfl).bind
        fun _ => .forget <| closeLoop_lays (o := begun.marking next _) (fun _ mem => by
          cases mem
          exact Set.mem_insert ..) fun none => by cases none
    exact (emit_pushes rfl _).bind fun _ => (emitValue_pushes (fun _ none => by cases none) _).bind fun _ =>
      (emit_joins rfl _).bind fun _ => (Tops.above.takes rfl _).bind fun _ => ends
  exact .ite (fun _ => (declareVariables_idles _ _ _).bind fun _ => loop) fun _ => loop

/-- A loop runs in a scope of its own. -/
theorem forStatement_acts (h : rules.Balances k) {simple : CompileM Unit} (head : Performs simple) :
    Acts (k + 2) (forStatement rules simple) := fun _ _ _ _ room =>
  .bind (Emits.quiet skip_quiet _) fun _ => (pushScope_lays (.pushScope (n := 0))).bind fun _ =>
    .bind (Emits.quiet (headContains_quiet _) _) fun _ => .ite
      (fun _ => (rangeLoop_acts h _ _ _ _ room.scope).bind fun _ => popScope_lays (n := 0))
      fun _ => (countedLoop_acts h head _ _ _ _ room.scope).bind fun _ => popScope_lays (n := 0)

/-! ## Leaving a loop -/

/-- Protected blocks that are left are not open any more. -/
theorem tryPops_emits (blocks : List Nat) (s t : Nat) :
    Emits (.level s (t + blocks.length)) (.level s t) (blocks.forM fun _ => emitOp .tryPop) := by
  induction blocks with
  | nil => exact .pure _
  | cons _ _ ih => exact .bind (emit_emits .tryPop nofun) fun _ => ih

/-- A branch out of a loop waits for its end, where the loop stands. -/
theorem loopControl_acts : Acts k loopControl := by
  refine .bind (.quiet next_quiet) fun word o places s t room => ?_
  extract_lets isBreak
  refine .readAs fun d _ => ?_
  extract_lets draft
  split
  · exact (Lays.bind (Emits.quiet (back_quiet _) _) fun _ =>
      .refuses (fail_refuses _ (by nofun))).before fun _ => And.right
  · rename_i l found
    -- the loops stay the same until the branch is noted
    let same : Sketch := { o with spare := 1, nest := (· = draft.nest), opens := exits }
    have known : ∀ c, (c = d ∧ At (o.within places s t) (.level s t) c) →
        (o.within places s t).nest draft.nest ∧ At same (.level s t) c := by
      rintro c ⟨rfl, here⟩
      exact ⟨here.nest, here.laid, rfl⟩
    refine .before (.given fun ⟨loops, switches, scopes, tries⟩ => ?_) known
    obtain ⟨scopesLeft, triesLeft⟩ : l.scopeDepth ≤ s ∧ l.tryDepth ≤ t :=
      room.inside l.place (loops ▸ List.mem_map_of_mem (List.mem_of_find?_eq_some found))
    have notes : ∀ fixup, Lays (At (same.awaiting fixup (.level l.scopeDepth l.tryDepth)) ∅)
        (modifyDraft fun d => { d with loops := OpenLoop.noteBranch isBreak fixup d.loops }) fun _ =>
          At (o.within places s t) (.level s t) := by
      refine fun fixup => .modify fun c here => ⟨fun orderly => orderly.of_same rfl rfl rfl, ?_⟩
      have nest : c.draft.nest = draft.nest := here.nest
      have unchanged : c.draft.loops = draft.loops := congrArg Nest.loops nest
      refine (At.reopen (q := o.within places s t) here rfl rfl ?_ ?_).mono (Set.empty_subset _)
      · rw [unchanged]
        change insert _ o.waiting ∪ exits draft.loops = o.waiting ∪ exits _
        rw [OpenLoop.exits_noteBranch isBreak fixup found, Set.union_insert, Set.insert_union]
      · rw [unchanged]
        exact ⟨(OpenLoop.noteBranch_place ..).trans loops, OpenLoop.noteBranch_switch _ _ switches,
          (congrArg Nest.scopes nest).trans scopes, (congrArg Nest.tries nest).trans tries⟩
    have leaves : Lays (At same (.level l.scopeDepth t)) (do
        (List.range (draft.tryDepth - l.tryDepth)).forM fun _ => emitOp .tryPop
        let fixup ← emitFixup .branch
        modifyDraft fun d => { d with loops := OpenLoop.noteBranch isBreak fixup d.loops }) fun _ =>
          At (o.within places s t) (.level s t) := by
      have pops := tryPops_emits (List.range (draft.tryDepth - l.tryDepth)) l.scopeDepth l.tryDepth
      rw [List.length_range, show draft.tryDepth = t from tries, Nat.add_sub_cancel' triesLeft] at pops
      rw [show draft.tryDepth = t from tries]
      exact (pops same).bind fun _ => (emitFixup_lays rfl .branch).bind notes
    rw [show draft.scopeDepth = s from scopes]
    refine .ite (fun inner => ?_) fun outermost => ?_
    · have count : Exec.countOf (.int (Int64.ofNat (s - l.scopeDepth))) 1 = s - l.scopeDepth :=
        countOf_ofNat (by have := room.few; omega) 1
      have pops : Instruction.Goes _ _ (.above 0 (.level l.scopeDepth t)) ∅ :=
        .popScope count (Nat.sub_pos_of_lt inner)
      rw [Nat.add_sub_cancel' scopesLeft] at pops
      exact (emit_emits pops nofun same).bind fun _ => leaves
    · obtain rfl : l.scopeDepth = s := by omega
      exact leaves

/-! ## Switches -/

/-- Fewer addresses may be come back to. -/
theorem At.fewer {c : Compiler} {o' : Sketch} (h : c.At (o.within places s t) σ)
    (marks : o'.marks ⊆ o.marks) (waiting : o.waiting = o'.waiting) :
    c.At (o'.within places s t) σ := by
  refine ⟨?_, h.nest⟩
  have laid := h.laid.mono marks subset_rfl
  exact (congrArg (· ∪ exits c.draft.loops) waiting) ▸ laid

theorem caseTest_lays (h : rules.Balances k) (subject : Option String) :
    Lays (At o σ) (caseTest rules subject) fun a => At (o.awaiting a σ) σ := by
  have tests : Lays (At o (.above 1 σ)) (emitFixup .branchTrue) fun a => At (o.awaiting a σ) σ :=
    emitFixup_lays rfl (.branchIf (.inl rfl))
  cases subject with
  | some name =>
    exact (emit_pushes rfl o).bind fun _ => (h.expression _ o).bind fun _ =>
      (emit_joins rfl o).bind fun _ => tests
  | none => exact (h.expression σ o).bind fun _ => tests

theorem caseTests_lays (h : rules.Balances k) (subject : Option String) :
    Lays (At o σ) (caseTests rules subject) fun found => At (o.awaitingAll found σ) σ := by
  refine .before (.repeatTurns (I := fun _ found => At (o.awaitingAll found σ) σ)
    (fun _ _ found => ?_) []) fun c here => by rwa [Sketch.awaitingAll_nil]
  refine (caseTest_lays h subject).bind fun a => ?_
  rw [← Sketch.awaitingAll_append]
  exact .bind (Emits.quiet (accept_quiet _) _) fun _ =>
    .ite (fun _ => .pure fun _ => id) fun _ => .pure fun _ => id

/-- A clause that falls through stands before another one. -/
theorem clauseBody_lays (h : rules.Balances k) (room : Room k places s t) :
    Lays (At (o.within places s t) (.level s t)) (clauseBody rules) fun falls c =>
      (falls = true → c.cursor.isAnyNext ["case", "default"] = true) ∧
        c.At (o.within places s t) (.level s t) := by
  refine .repeatTurns (I := fun _ _ => At (o.within places s t) (.level s t)) (fun _ _ _ => ?_) ()
  refine .bind (Emits.quiet (isAnyNext_quiet _) _) fun _ => .ite
    (fun _ => .pure fun c here => ⟨nofun, here⟩) fun _ => .bind (Emits.quiet atEnd_quiet _)
    fun _ => .guarded (fail_refuses _ (by nofun)) fun _ => .bind (Emits.quiet (accept_quiet _) _) fun _ =>
      .ite (fun _ => .bind (Emits.quiet (accept_quiet _) _) fun _ => ?_)
        fun _ => (h.statement o places s t room).bind fun _ => .pure fun _ => id
  have next : Lays (At (o.within places s t) (.level s t)) (isAnyNext ["case", "default"]) fun b c =>
      (b = true → c.cursor.isAnyNext ["case", "default"] = true) ∧
        c.At (o.within places s t) (.level s t) := by
    refine fun c orderly here => ⟨orderly, fun b c' run => ?_⟩
    cases run
    exact ⟨id, here⟩
  refine next.bind fun b => ?_
  cases b with
  | true => exact .pure fun c here => ⟨fun _ => here.1 rfl, here.2⟩
  | false => exact .refuses ((failAbout_refuses _ _ (by nofun)).bind _)

theorem clauseHead_lays (h : rules.Balances k) (subject : Option String) (isDefault : Bool)
    (sw : OpenSwitch) :
    Lays (At ((o.clauses σ sw).within places s t) σ) (clauseHead rules subject isDefault sw)
      fun (found, sw') => At (((o.clauses σ sw').awaitingAll found σ).within places s t) ∅ := by
  refine .ite (fun _ => ?_) fun _ => .bind (Emits.quiet (expect_quiet _) _) fun _ =>
    patchAllHere_bind (o := o.bodies σ sw) fun _ => (caseTests_lays h subject).bind fun found => ?_
  · refine (emitFixup_lays (o := (o.clauses σ sw).within places s t) rfl .branch).bind fun past =>
      .pure fun c here => At.fewer (o := (o.clauses σ sw).awaiting past σ) here subset_rfl ?_
    rw [Sketch.awaitingAll_nil]
    exact congrArg Sketch.waiting (Sketch.awaitingAll_append ..).symm
  · let tested := (o.bodies σ sw).awaitingAll found σ
    refine (emitFixup_lays (o := tested.within places s t) rfl .branch).bind fun past =>
      .pure fun c here => At.fewer (o := tested.awaiting past σ) here subset_rfl ?_
    change insert _ ({x | x.1 ∈ found ∧ x.2 = σ} ∪ (o.bodies σ sw).waiting) =
      {x | x.1 ∈ found ∧ x.2 = σ} ∪ ({x | x.1 ∈ [past] ∧ x.2 = σ} ∪ (o.bodies σ sw).waiting)
    ext ⟨a, ρ⟩
    simp only [Set.mem_insert_iff, Set.mem_union, Set.mem_ofPred_eq, List.mem_singleton, Prod.mk.injEq]
    tauto

/-- What holds between two clauses: behind a body that falls through another clause follows. -/
def Clauses (o : Sketch) (places : List (Breakable × Nat × Nat)) (s t : Nat) (sw : OpenSwitch)
    (c : Compiler) : Prop :=
  (sw.fallInto ≠ none → c.cursor.isAnyNext ["case", "default"] = true) ∧
    c.At ((o.clauses (.level s t) sw).within places s t) (.level s t)

/-- A step that reads nothing keeps what is known of the tokens ahead. -/
theorem Lays.still {α : Type} {P : Compiler → Prop} {Q : α → Compiler → Prop} {m : CompileM α}
    (h : Lays P m Q) (still : Still m) {R : Token.Cursor → Prop} :
    Lays (fun c => R c.cursor ∧ P c) m fun a c => R c.cursor ∧ Q a c := by
  refine fun c orderly before => ⟨(h c orderly before.2).1, fun a c' run => ?_⟩
  have same := still c
  rw [run] at same
  exact ⟨same ▸ before.1, (h c orderly before.2).2 a c' run⟩

theorem clause_lays (h : rules.Balances k) (room : Room (k + 1) places s t) (subject : Option String)
    (sw : OpenSwitch) :
    Lays (At ((o.clauses (.level s t) sw).within places s t) (.level s t)) (clause rules subject sw)
      (Clauses o places s t) := by
  refine .bind (Emits.quiet (accept_quiet _) _) fun isDefault =>
    (clauseHead_lays h subject isDefault sw).bind fun ⟨found, sw'⟩ =>
      .bind (Emits.quiet (expect_quiet _) _) fun _ => ?_
  let σ : Spot := .level s t
  let waiting := (o.clauses σ sw').awaitingAll found σ
  refine .before ((mark_lays (o := waiting.within places s t)).bind fun body => ?_) fun c here =>
    here.mono (Set.empty_subset σ)
  let inner := (o.clauses σ sw').marking body σ
  let others : Sketch := { (o.awaitingAll sw'.ends σ).awaitingAll sw'.pending σ with marks := inner.marks }
  have there : (body, σ) ∈ inner.marks := Set.mem_insert ..
  have falling : ∀ c : Compiler, c.At (inner.within places s t) σ →
      c.At ((others.awaitingAll sw'.fallInto.toList σ).within places s t) σ := fun c here =>
    At.fewer here subset_rfl (Set.union_left_comm ..)
  refine (patchAllWithin_lays (o := inner) there).bind fun _ =>
    .before ((patchAllWithin_lays (o := others) there).bind fun _ =>
      (pushScope_lays (.pushScope (n := 0))).bind fun _ =>
      (clauseBody_lays h room.scope).bind fun falls => ?_) falling
  let Ahead (cursor : Token.Cursor) : Prop :=
    falls = true → cursor.isAnyNext ["case", "default"] = true
  refine (Lays.still (R := Ahead) (popScope_lays (n := 0)) popScope_still).bind fun _ =>
    (Lays.still (R := Ahead) (emitFixup_lays (o := others.within places s t) rfl .branch)
      (emitFixup_still _)).bind fun leaving => .pure fun c ⟨ahead, here⟩ => ⟨?_,
        (At.fewer (o := others.awaiting leaving σ) here ?_ ?_).mono (Set.empty_subset σ)⟩
  · cases falls with
    | true => exact fun _ => ahead rfl
    | false => exact fun none => absurd rfl none
  · cases isDefault with
    | true =>
      rintro ⟨a, ρ⟩ (⟨is, rfl⟩ | mem)
      · cases is
        exact there
      · exact Set.mem_insert_of_mem _ (.inr mem)
    | false => exact Set.subset_insert ..
  · cases falls <;>
    · ext ⟨a, ρ⟩
      simp only [others, Sketch.clauses, Sketch.bodies, Sketch.awaitingAll, Sketch.awaiting,
        Set.mem_insert_iff, Set.mem_union, Set.mem_ofPred_eq, List.mem_append, List.mem_singleton,
        Prod.mk.injEq, if_true, if_false, Option.toList, Bool.false_eq_true]
      grind

theorem closeSwitch_lays {sw : OpenSwitch} (ended : sw.fallInto = none) :
    Lays (At ((o.clauses (.level s t) sw).within ((.switch, s, t) :: places) s t) (.level s t))
      (closeSwitch sw) fun _ => At (o.within places s t) (.level s t) := by
  let σ : Spot := .level s t
  let body : Sketch := { o with marks := {x | sw.defaultBody = some x.1 ∧ x.2 = σ} ∪ o.marks }
  have bodies : o.bodies σ sw = body.awaitingAll sw.ends σ := by
    rw [Sketch.bodies, ended, Option.toList_none, Sketch.awaitingAll_nil]
    rfl
  rw [Sketch.clauses, bodies]
  let waiting := (body.awaitingAll sw.ends σ).awaitingAll sw.pending σ
  refine (mark_lays (o := waiting.within ((.switch, s, t) :: places) s t)).bind fun here => ?_
  let marked := body.marking here σ
  have target : (sw.defaultBody.getD here, σ) ∈ marked.marks := by
    cases found : sw.defaultBody with
    | some b => exact Set.mem_insert_of_mem _ (.inl ⟨found, rfl⟩)
    | none => exact Set.mem_insert ..
  exact (patchAllWithin_lays (o := marked.awaitingAll sw.ends σ) target).bind fun _ =>
    patchAllHere_bind (o := marked) fun _ =>
      (closeLoop_lays (o := marked) (fun _ none => by cases none) fun _ => rfl).after fun _ _ there =>
        At.fewer there (Set.subset_union_right.trans (Set.subset_insert ..)) rfl

theorem switchSubject_idles (h : rules.Balances k) : Idles (switchSubject rules) := fun _ =>
  .bind (.quiet (isNext_quiet _)) fun _ => .ite (fun _ => .pure _) fun _ =>
    .bind (.quiet (tempName_quiet _)) fun name => (condition_evaluates h _).bind fun _ =>
      (createTemp_emits .above name).bind fun _ => .pure _

/-- Where a switch ends no body falls through. -/
theorem acceptBrace_lays {sw : OpenSwitch} :
    Lays (fun c => (sw.fallInto ≠ none → c.cursor.isAnyNext ["case", "default"] = true) ∧ c.At o σ)
      (accept "\x7d") fun b c => (b = true → sw.fallInto = none) ∧ c.At o σ := by
  intro c orderly ⟨ahead, here⟩
  have ⟨kept, reads⟩ := Emits.quiet (accept_quiet "\x7d") o c orderly here
  refine ⟨kept, fun b c' run => ?_⟩
  by_cases none : sw.fallInto = none
  · exact ⟨fun _ => none, reads b c' run⟩
  · rw [accept_other (isNext_brace (ahead none))] at run
    cases run
    exact ⟨nofun, here⟩

theorem switchTurn_lays (h : rules.Balances k) (room : Room (k + 1) places s t)
    (subject : Option String) (sw : OpenSwitch) :
    Lays (Clauses o places s t sw) (do
      if ← accept "\x7d" then pure (.done sw)
      else
        if ← atEnd then fail (.missing "\x7d")
        pure (.again (← clause rules subject sw)))
      (AfterTurn (Clauses o places s t) fun sw c => sw.fallInto = none ∧
        c.At ((o.clauses (.level s t) sw).within places s t) (.level s t)) :=
  acceptBrace_lays.bind fun _ => .given fun ended => .ite
    (fun closed => .pure fun _ here => ⟨ended closed, here⟩) fun _ =>
      .bind (Emits.quiet atEnd_quiet _) fun _ => .guarded (fail_refuses _ (by nofun)) fun _ =>
        (clause_lays h room subject sw).bind fun _ => .pure fun _ => id

/-- A switch runs in a scope of its own, and each of its bodies in one more. -/
theorem switchStatement_acts (h : rules.Balances k) : Acts (k + 2) (switchStatement rules) := by
  refine .bind (.quiet skip_quiet) fun _ o places s t room => ?_
  have inside : Room (k + 1) ((.switch, s + 1, t) :: places) (s + 1) t :=
    ⟨room.scope.few, List.forall_mem_cons.2 ⟨⟨Nat.le_refl _, Nat.le_refl _⟩, room.scope.inside⟩⟩
  have none : ∀ c : Compiler, c.At (o.within ((.switch, s + 1, t) :: places) (s + 1) t)
      (.level (s + 1) t) → Clauses o ((.switch, s + 1, t) :: places) (s + 1) t {} c := fun _ here =>
    ⟨fun falls => absurd rfl falls, At.fewer here (Set.union_subset (fun _ ⟨is, _⟩ => by cases is)
      subset_rfl) (by simp [Sketch.clauses, Sketch.bodies, Sketch.awaitingAll])⟩
  have clauses (subject : Option String) := Lays.repeatTurns
    (I := fun _ => Clauses o ((.switch, s + 1, t) :: places) (s + 1) t)
    (fun _ _ sw => switchTurn_lays h inside subject sw) {}
  exact (pushScope_lays (.pushScope (n := 0))).bind fun _ =>
    (switchSubject_idles h _ _).bind fun subject => .bind (Emits.quiet (expect_quiet _) _) fun _ =>
    ((openLoop_lays .switch).after fun _ => none).bind fun _ => (clauses subject).bind fun sw =>
    .given fun ended => (closeSwitch_lays ended).bind fun _ => popScope_lays (n := 0)

/-! ## Protected blocks -/

/-- A protected block is open from here on, or no more. -/
theorem modifyTryDepth_lays {f : Nat → Nat} {t' : Nat} (count : f t = t') :
    Lays (At (o.within places s t) σ) (modifyTryDepth f) fun _ => At (o.within places s t') σ :=
  .modify fun _ here => ⟨fun orderly => orderly.of_same rfl rfl rfl, here.laid, here.nest.1,
    here.nest.2.1, here.nest.2.2.1, (congrArg f here.nest.2.2.2).trans count⟩

/-- Inside a protected block there is as much room as around it. -/
theorem Room.protected (h : Room k places s t) : Room k places s (t + 1) :=
  ⟨h.few, fun p mem => (h.inside p mem).imp_right Nat.le_succ_of_le⟩

/-- The handler closes the protected block, which stays open while it runs. -/
theorem catchBlock_lays (h : rules.Balances k) (room : Room (k + 1) places s (t + 1)) :
    Lays (At (o.within places s (t + 1)) (.level s (t + 1))) (catchBlock rules) fun _ =>
      At (o.within places s (t + 1)) (.level s t) := by
  refine .bind (Emits.quiet caughtName_quiet _) fun name => .bind (Emits.quiet (expect_quiet _) _)
    fun _ => (pushScope_lays (.pushScope (n := 0))).bind fun _ => ?_
  have body : Lays (At (o.within places (s + 1) (t + 1)) (.level (s + 1) (t + 1))) (do
      statementsUntilClose rules
      popScope
      emitOp .tryPop) fun _ => At (o.within places s (t + 1)) (.level s t) :=
    (statementsUntilClose_acts h _ _ _ _ room.scope).bind fun _ => (popScope_lays (n := 0)).bind
      fun _ => emit_emits .tryPop nofun _
  cases name with
  | some name =>
    exact (emit_pushes rfl _).bind fun _ => (createAndStore_emits .above name _).bind fun _ => body
  | none => exact body

/-- Both ways out of a protected block lead behind its handler, where it is not open any more. -/
theorem tryStatement_acts (h : rules.Balances k) : Acts (k + 1) (tryStatement rules) := by
  refine .bind (.quiet skip_quiet) fun _ o places s t room => ?_
  refine (emitFixup_lays (o := o.within places s t) rfl .tryBlock).bind fun handler =>
    (modifyTryDepth_lays (o := o.awaiting handler (.level s (t + 1))) rfl).bind fun _ =>
    (block_acts h _ _ _ _ room.protected).bind fun _ => (emit_emits .tryPop nofun _).bind fun _ =>
    (emitFixup_lays (o := (o.awaiting handler _).within places s (t + 1)) rfl .branch).bind
      fun finish => .bind (Emits.quiet (accept_quiet _) _) fun _ => .ite (fun _ => ?_) fun _ => ?_
  · exact (modifyTryDepth_lays (o := (o.awaiting handler _).awaiting finish _) rfl).bind fun _ =>
      .refuses ((fail_refuses _ (by nofun)).bind _)
  · exact (patchUnder_lays (o := o.within places s (t + 1)) (Set.empty_subset _) subset_rfl).bind fun _ =>
      (catchBlock_lays (o := o.awaiting finish _) h room.protected).bind fun _ =>
      (modifyTryDepth_lays (o := o.awaiting finish _) rfl).bind fun _ =>
      patchHere_lays (o := o.within places s t) subset_rfl subset_rfl

/-! ## Statements -/

theorem functionStatement_performs (h : rules.Balances k) : Performs (functionStatement rules) :=
  fun s t => .bind (.quiet startsMethod_quiet) fun _ => .ite (fun _ => methodDeclaration_idles h _)
    fun _ => .bind (.quiet (peek_quiet _)) fun _ => .ite (fun _ => namedFunction_idles h _)
      fun _ => expressionStatement_performs h s t

theorem keywordStatement_acts (h : rules.Balances k) (word : String) :
    Acts (k + 2) (keywordStatement rules word) := by
  unfold keywordStatement
  split
  · exact .performs fun s t => group_emits _ (variableSpec_performs h s t)
  · exact .idles fun σ => group_emits _ (constantSpec_idles h σ)
  · exact .idles (arrayStatement_idles h)
  · exact .idles (assertStatement_idles h)
  · exact loopControl_acts
  · exact loopControl_acts
  · exact .bind (.quiet skip_quiet) fun _ => .performs (expressionStatement_performs h)
  · exact forStatement_acts h (simpleStatement_performs h)
  · exact h.ifStatement.mono (Nat.le_add_right k 2)
  · exact switchStatement_acts h
  · exact (tryStatement_acts h).mono (Nat.le_succ _)
  · exact .performs (functionStatement_performs h)
  · exact (goStatement_acts h).mono (Nat.le_add_right k 2)
  · exact .idles fun σ => group_emits _ (importSpec_idles h σ)
  · exact .idles packageStatement_idles
  · exact .idles (printStatement_idles h)
  · exact (returnStatement_acts h).mono (Nat.le_add_right k 2)
  · exact .idles typeStatement_idles
  · exact .idles fun _ => .refuses (fail_refuses _ (by nofun))
  all_goals first
    | exact .performs (simpleStatement_performs h)
    | exact .idles fun _ => .refuses (fail_refuses _ (by nofun))

theorem statementWith_acts (h : rules.Balances k) : Acts (k + 2) (statementWith rules) := by
  have rest : Acts (k + 2) (do
      if !(← accept ";") then
        if !(← atStatementEnd) then fail .unexpectedToken) :=
    .bind (.quiet (accept_quiet _)) fun _ => .ite (fun _ => .bind (.quiet atStatementEnd_quiet) fun _ =>
      .ite (fun _ => .idles fun _ => .refuses (fail_refuses _ (by nofun))) fun _ => .pure _)
      fun _ => .pure _
  exact .bind (.quiet (accept_quiet _)) fun _ => .ite (fun _ => .bind (.idles atLine_idles) fun _ =>
    .bind (.quiet current_quiet) fun t => .ite
      (fun _ => ((block_acts h).mono (Nat.le_succ _)).bind fun _ => rest) fun _ =>
      .ite (fun _ => .bind (.idles (directive_idles h)) fun _ => rest) fun _ =>
      .ite (fun _ => (keywordStatement_acts h _).bind fun _ => rest) fun _ =>
      .bind (.performs (simpleStatement_performs h)) fun _ => rest) fun _ => .pure _

end CompileM

end StackScript