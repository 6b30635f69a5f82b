import StackScript.Proofs.Parameters.Prologue
import StackScript.Proofs.Settling.Code

/-!
# Steady steps

An outline says what is known of the code that a compiler has emitted: which branches wait for
their targets, that all others are settled, and which instructions are there for good. An expression
keeps every outline. A statement may add branches that wait for the end of a loop, and keeps what is
known of all but those.

Main statements: `Compiler.Fits.mono`, and the rules by which steps are steady (`Steady.bind`,
`Steady.repeatTurns`, `Steady.quiet` and others).
-/
namespace StackScript

open CompileM

/-! ## Outlines -/

/-- The branches that wait for the end of open loops and switches. -/
def leaving (loops : List OpenLoop) : List Nat := loops.flatMap fun l => l.breaks ++ l.continues

/-- What is known of a compiler. -/
structure Outline where
  /-- Where the finished units start that are its own. -/
  base : Nat
  /-- There are at least so many units. -/
  units : Nat
  /-- The draft has at least so many instructions. -/
  size : Nat
  /-- Branches of the draft without a target yet. -/
  waiting : List Nat
  /-- Instructions of the draft that are there for good. -/
  kept : List (Nat × Instruction)
  /-- What the open loops and switches are. -/
  loops : List OpenLoop → Prop
  /-- The branches that wait for the end of open loops and switches. -/
  opens : List OpenLoop → List Nat

namespace Outline

variable (o : Outline)

/-- A branch waits for its target. -/
def awaiting (a : Nat) : Outline := { o with waiting := a :: o.waiting }

/-- Branches wait for their targets. -/
def awaitingAll (fixups : List Nat) : Outline := { o with waiting := fixups ++ o.waiting }

/-- The draft has at least so many instructions. -/
def reaching (size : Nat) : Outline := { o with size := size }

/-- There are at least so many units. -/
def having (units : Nat) : Outline := { o with units := units }

/-- These instructions are there for good. -/
def keeping (kept : List (Nat × Instruction)) : Outline := { o with kept := kept }

/-- Loops and switches of these kinds are open, the innermost first. A switch is no target of
`continue`. -/
def within (kinds : List Breakable) : Outline :=
  { o with
    loops := fun ls => ls.map OpenLoop.kind = kinds ∧ ∀ l ∈ ls, l.kind = .switch → l.continues = []
    opens := leaving }

end Outline

/-- A unit that the compiler makes of a function at a level of strictness. -/
def Code.MadeUnder (level : Strictness) (function : Code) : Prop :=
  ∃ (imports depth : Nat) (name : String) (receiver : Option Receiver) (b b' : Compiler) (r : CodeRef),
    functionBody (rulesTo (packageTo imports) depth) name receiver b = (.ok r, b') ∧
      b'.codes[r.index]? = some function ∧ b.strictness = level

/-- A unit whose names are bound where it was made is a function. It starts with the prologue that
its declaration asks for at the level that it was made at. -/
def Code.Prepared (code : Code) : Prop :=
  ∀ d, code.declaration = some d → d.scope = .lexical →
    ∃ level, code.MadeUnder level ∧ d.Enters (level == .strict) code

/-- A unit that is done: its instructions are ready, a function was made by the compiler and starts
with its prologue, and the constants that are recorded with it were declared in it. -/
structure Code.Done (base limit : Nat) (code : Code) : Prop where
  ready : code.Ready base limit
  prepared : code.Prepared
  recorded : code.Recorded

/-- All units from an address on are done. -/
def Finished (base : Nat) (codes : Array Code) : Prop :=
  ∀ (u : Nat) (code : Code), base ≤ u → codes[u]? = some code → code.Done base codes.size

/-- A compiler of which an outline is true. -/
structure Compiler.Fits (o : Outline) (c : Compiler) : Prop where
  settled : c.draft.code.Settled o.base c.codes.size (o.waiting ++ o.opens c.draft.loops)
  kept : c.draft.code.Keeps o.kept (o.waiting ++ o.opens c.draft.loops)
  finished : Finished o.base c.codes
  base : o.base ≤ c.codes.size
  units : o.units ≤ c.codes.size
  size : o.size ≤ c.here
  loops : o.loops c.draft.loops

/-- A compiler of which an outline is true and that has enough units for something. -/
def Compiler.FitsWith (o : Outline) (P : Nat → Prop) (c : Compiler) : Prop :=
  ∃ units, o.units ≤ units ∧ P units ∧ c.Fits (o.having units)

namespace Compiler.Fits

variable {o o' : Outline} {c c' : Compiler}

/-- The branches that wait may be counted in another order. -/
theorem mono (h : c.Fits o) {waiting : List Nat} (same : ∀ a, a ∈ o.waiting ↔ a ∈ waiting) :
    c.Fits { o with waiting := waiting } where
  settled := h.settled.reorder fun a => by simp only [List.mem_append, same]
  kept := h.kept.mono fun a mem => by
    rw [List.mem_append] at mem ⊢
    exact mem.imp (same a).2 id
  finished := h.finished
  base := h.base
  units := h.units
  size := h.size
  loops := h.loops

/-- Less may be known of the number of units and instructions. -/
theorem weaken (h : c.Fits o) {units size : Nat} (fewer : units ≤ o.units)
    (shorter : size ≤ o.size) : c.Fits { o with units := units, size := size } :=
  { h with units := fewer.trans h.units, size := shorter.trans h.size }

/-- Changes that concern neither code nor loops. -/
theorem of_same (h : c.Fits o) (code : c'.draft.code = c.draft.code)
    (loops : c'.draft.loops = c.draft.loops) (codes : c'.codes = c.codes) : c'.Fits o where
  settled := by
    rw [loops, codes, code]
    exact h.settled
  kept := loops ▸ code ▸ h.kept
  finished := codes ▸ h.finished
  base := codes ▸ h.base
  units := codes ▸ h.units
  size := h.size.trans_eq (congrArg Code.size code).symm
  loops := loops ▸ h.loops

end Compiler.Fits

namespace CompileM

variable {α β σ : Type}

/-! ## Rules -/

/-- A step that keeps every outline. -/
def Steady (m : CompileM α) : Prop :=
  ∀ o, Leads (Compiler.Fits o) m fun _ => Compiler.Fits o

/-- A step that keeps every outline, but for branches that wait for the end of open loops. -/
def SteadyWithin (m : CompileM α) : Prop :=
  ∀ (o : Outline) (kinds : List Breakable),
    Leads (Compiler.Fits (o.within kinds)) m fun _ => Compiler.Fits (o.within kinds)

namespace Steady

variable {m m' : CompileM α} {f : α → CompileM β} {p : Prop} [Decidable p]

theorem within (h : Steady m) : SteadyWithin m := fun o kinds => h (o.within kinds)

theorem pure (a : α) : Steady (Pure.pure a) := fun _ => .pure fun _ => id

theorem bind (hm : Steady m) (hf : ∀ a, Steady (f a)) : Steady (m >>= f) :=
  fun o => (hm o).bind fun a => hf a o

theorem refuses (h : Refuses m) : Steady m := fun _ => .refuses h

theorem ite (yes : Steady m) (no : Steady m') : Steady (if p then m else m') :=
  fun o => .ite (fun _ => yes o) fun _ => no o

theorem guarded {m : CompileM β} {f : β → CompileM α} (stop : Refuses m) (rest : Steady m') :
    Steady (if p then m >>= f else m') := .ite (.refuses (stop.bind f)) rest

theorem optional {m : CompileM Unit} {f : Unit → CompileM α} (hm : Steady m)
    (hf : ∀ u, Steady (f u)) : Steady (if p then m >>= f else f ()) := .ite (hm.bind hf) (hf ())

theorem of_same (h : ∀ c, (m c).2.draft.code = c.draft.code)
    (loops : ∀ c, (m c).2.draft.loops = c.draft.loops)
    (blind : ∀ c codes, m (c.over codes) = ((m c).1, (m c).2.over codes))
    (ordinary : ∀ c, Except.Ordinary (m c).1) : Steady m := by
  refine fun o c fits => ⟨.of_same (blind c) (ordinary c), fun a c' run => ?_⟩
  obtain rfl : (m c).2 = c' := congrArg Prod.snd run
  exact fits.of_same (h c) (loops c) (congrArg (fun r => r.2.codes) (blind c c.codes))

theorem quiet (h : Quiet m) : Steady m := by
  refine .of_same (fun c => ?_) (fun c => ?_) (fun c => ?_) h.ordinary <;>
    obtain ⟨cursor, count, same, blind⟩ := h.moves c
  · rw [same]
    rfl
  · rw [same]
    rfl
  · exact blind

theorem read {f : Compiler → CompileM α} (blind : ∀ c codes, f (c.over codes) = f c)
    (h : ∀ c, Steady (f c)) : Steady (get >>= f) := fun o => .read blind fun c => h c o

theorem repeatTurns {turn : σ → CompileM (Turn σ β)} (h : ∀ s, Steady (turn s)) (s : σ) :
    Steady (CompileM.repeatTurns s turn) := fun o =>
  .repeatTurns (I := fun _ => Compiler.Fits o) (fun s => (h s o).after fun r _ fits => by
    cases r <;> exact fits) s

theorem repeatWhile {turn : CompileM Bool} (h : Steady turn) :
    Steady (CompileM.repeatWhile turn) :=
  .repeatTurns (fun _ => h.bind fun _ => .ite (.pure _) (.pure _)) _

theorem withLiterals (h : Steady m) (allowed : Bool) : Steady (withLiterals allowed m) :=
  .read (fun _ _ => rfl) fun _ => .bind (.of_same (fun _ => rfl) (fun _ => rfl) (fun _ _ => rfl) fun _ => .ok _)
    fun _ => h.bind fun _ => .bind (.of_same (fun _ => rfl) (fun _ => rfl) (fun _ _ => rfl) fun _ => .ok _)
    fun _ => .pure _

theorem inHead {m : CompileM Unit} (h : Steady m) : Steady (inHead m) := by
  intro o c fits
  have before : Compiler.Fits o { c with noStructLiteral := true } := fits.of_same rfl rfl rfl
  obtain ⟨⟨⟨more, inert, same⟩, ordinary⟩, leads⟩ := h o _ before
  refine ⟨⟨⟨more, inert, fun codes size => ?_⟩, ?_⟩, fun a c' run => ?_⟩
  · have same : m { c.over codes with noStructLiteral := true } = _ := same codes size
    unfold CompileM.inHead
    rw [same]
    rcases m { c with noStructLiteral := true } with ⟨_ | _, after⟩ <;> rfl
  · exact ordinary
  · unfold CompileM.inHead at run
    rcases ran : m { c with noStructLiteral := true } with ⟨_ | _, after⟩ <;> rw [ran] at run <;>
      cases run
    exact (leads _ _ ran).of_same rfl rfl rfl

theorem modifyDraft {g : Draft → Draft} (code : ∀ d, (g d).code = d.code)
    (loops : ∀ d, (g d).loops = d.loops) : Steady (modifyDraft g) :=
  .of_same (fun _ => code _) (fun _ => loops _) (fun _ _ => rfl) fun _ => .ok _

end Steady

theorem Leads.steady {m : CompileM α} (h : Steady m) {o : Outline} :
    Leads (Compiler.Fits o) m fun _ => Compiler.Fits o := h o

/-- Steps that are steady where there are enough units. -/
theorem Leads.enough {m : CompileM α} {o : Outline} {P : Nat → Prop}
    (h : ∀ units, o.units ≤ units → P units →
      Leads (Compiler.Fits (o.having units)) m fun _ => Compiler.Fits (o.having units)) :
    Leads (Compiler.FitsWith o P) m fun _ => Compiler.Fits o :=
  .some fun units => .given fun more => .given fun enough => (h units more enough).after
    fun _ _ fits => fits.weaken more (Nat.le_refl _)

namespace SteadyWithin

variable {m m' : CompileM α} {f : α → CompileM β} {p : Prop} [Decidable p]

theorem bind (hm : SteadyWithin m) (hf : ∀ a, SteadyWithin (f a)) : SteadyWithin (m >>= f) :=
  fun o kinds => (hm o kinds).bind fun a => hf a o kinds

theorem refuses (h : Refuses m) : SteadyWithin m := (Steady.refuses h).within

theorem pure (a : α) : SteadyWithin (Pure.pure a) := (Steady.pure a).within

theorem quiet (h : Quiet m) : SteadyWithin m := (Steady.quiet h).within

theorem ite (yes : SteadyWithin m) (no : SteadyWithin m') : SteadyWithin (if p then m else m') :=
  fun o kinds => .ite (fun _ => yes o kinds) fun _ => no o kinds

theorem guarded {m : CompileM β} {f : β → CompileM α} (stop : Refuses m) (rest : SteadyWithin m') :
    SteadyWithin (if p then m >>= f else m') := .ite (.refuses (stop.bind f)) rest

theorem repeatTurns {turn : σ → CompileM (Turn σ β)} (h : ∀ s, SteadyWithin (turn s)) (s : σ) :
    SteadyWithin (CompileM.repeatTurns s turn) := fun o kinds =>
  .repeatTurns (I := fun _ => Compiler.Fits (o.within kinds))
    (fun s => (h s o kinds).after fun r _ fits => by cases r <;> exact fits) s

theorem repeatWhile {turn : CompileM Bool} (h : SteadyWithin turn) :
    SteadyWithin (CompileM.repeatWhile turn) :=
  .repeatTurns (fun _ => h.bind fun _ => .ite (.pure _) (.pure _)) _

end SteadyWithin

end CompileM

end StackScript

/-!
## Emission

What emission does to an outline: a branch waits from its emission until it is patched, and code
that was compiled on the side is settled where it is joined.

Main statements: `emit_leads`, `emitFixup_leads`, `patch_leads`, `capture_leads` and
`append_leads`.
-/
namespace StackScript.CompileM

/-! ## Instructions -/

variable {o : Outline}

theorem editCode_ok {f : Code → Except Fault Code} {c c' : Compiler} {a : Unit}
    (h : editCode f c = (.ok a, c')) :
    ∃ code, f c.draft.code = .ok code ∧ c' = { c with draft := { c.draft with code := code } } := by
  cases edited : f c.draft.code with
  | error fault =>
    rw [editCode] at h
    obtain ⟨_, _, ⟨⟩, rest⟩ := bind_ok h
    rw [edited] at rest
    cases rest
  | ok code =>
    rw [editCode_of edited] at h
    cases h
    exact ⟨code, rfl, rfl⟩

/-- An edit sees the code of the draft only. -/
theorem editCode_extends {f : Code → Except Fault Code} (ordinary : ∀ code, Except.Ordinary (f code))
    (c : Compiler) : Extends (editCode f) c := by
  refine .of_same (fun codes => ?_) ?_
  · cases edited : f c.draft.code with
    | ok code =>
      rw [editCode_of edited, editCode_of (show f (c.over codes).draft.code = .ok code from edited)]
      rfl
    | error fault =>
      rw [editCode_error edited,
        editCode_error (show f (c.over codes).draft.code = .error fault from edited)]
  · cases edited : f c.draft.code with
    | ok code =>
      rw [editCode_of edited]
      exact .ok _
    | error fault =>
      rw [editCode_error edited]
      exact .error (ordinary _ _ edited)

/-- Editing code so that its waiting branches become others. -/
theorem editCode_leads {P : Code → Prop} {f : Code → Except Fault Code} {waiting : List Nat}
    {size : Nat} (ordinary : ∀ code, Except.Ordinary (f code))
    (edits : ∀ {code code' limit more}, P code → o.units ≤ limit → o.size ≤ code.size →
      code.Settled o.base limit (o.waiting ++ more) → f code = .ok code' →
        code'.Settled o.base limit (waiting ++ more) ∧ size ≤ code'.size)
    (keeps : ∀ {code code' kept more}, P code → code.Keeps kept (o.waiting ++ more) →
      f code = .ok code' → code'.Keeps kept (waiting ++ more)) :
    Leads (fun c => P c.draft.code ∧ c.Fits o) (editCode f) fun _ =>
      Compiler.Fits { o with waiting := waiting, size := size } := by
  refine fun c ⟨known, fits⟩ => ⟨editCode_extends ordinary c, fun a c' run => ?_⟩
  obtain ⟨code, edited, rfl⟩ := editCode_ok run
  obtain ⟨settled, longer⟩ := edits known fits.units fits.size fits.settled edited
  exact ⟨settled, keeps known fits.kept edited, fits.finished, fits.base, fits.units, longer,
    fits.loops⟩

/-- An instruction that is settled already. -/
theorem emit_leads {op : Opcode} {operand : Operand}
    (settled : ∀ limit size, o.units ≤ limit → o.size < size →
      Instruction.Settled o.base limit size ⟨op, operand⟩) :
    Leads (Compiler.Fits o) (emit op operand) fun _ => Compiler.Fits (o.reaching (o.size + 1)) :=
  (editCode_leads (P := fun _ => True) (·.emit_ordinary op operand) (fun _ units size h emitted =>
    have ⟨after, grown⟩ := h.emit (settled _ _ units (by omega)) emitted
    ⟨after, grown ▸ Nat.succ_le_succ size⟩) fun _ h emitted => h.emit (fun _ => .inr) emitted).before
      fun _ => .intro trivial

theorem longer {c : Compiler} (h : c.Fits (o.reaching (o.size + 1))) : c.Fits o :=
  h.weaken (Nat.le_refl _) (Nat.le_succ _)

theorem emit_steady {op : Opcode} {operand : Operand} (goesOn : op.isBranch = false)
    (plain : operand.isPlain = true) : Steady (emit op operand) := fun _ =>
  (emit_leads fun _ _ _ _ => .plain goesOn plain).after fun _ _ => longer

theorem emitOp_steady {op : Opcode} (goesOn : op.isBranch = false) :
    Steady (emitOp op) := emit_steady goesOn rfl

theorem emitName_steady {op : Opcode} {name : String} (goesOn : op.isBranch = false) :
    Steady (emitName op name) := emit_steady goesOn rfl

theorem emitInt_steady {op : Opcode} {n : Nat} (goesOn : op.isBranch = false) :
    Steady (emitInt op n) := emit_steady goesOn rfl

theorem emitTyped_steady {op : Opcode} {t : Ty} (goesOn : op.isBranch = false) :
    Steady (emitTyped op t) := emit_steady goesOn rfl

theorem emitValue_steady {v : Value} (plain : (Operand.value v).isPlain = true) :
    Steady (emitValue v) :=
  emit_steady rfl plain

theorem emitMarker_steady (m : Marker) : Steady (emitMarker m) := emitValue_steady rfl

theorem emitDropTo_steady (m : Marker) : Steady (emitDropTo m) := emitName_steady rfl

theorem emitCall_steady (count : Nat) (flags : CallFlags) : Steady (emitCall count flags) := by
  refine emit_steady rfl ?_
  unfold callOperand
  split <;> rfl

/-- A function that there is a unit for. -/
theorem emitFunction_leads {r : CodeRef} {env : Option TableRef} (own : o.base ≤ r.index)
    (there : r.index < o.units) :
    Leads (Compiler.Fits o) (emitValue (.function r env)) fun _ => Compiler.Fits o :=
  (emit_leads fun _ _ units _ =>
    ⟨fun is => (by cases is), fun _ _ is => by
      cases is
      exact ⟨own, there.trans_le units⟩,
        ⟨fun _ is => (by cases is), fun _ is => (by cases is), fun _ is => (by cases is),
          fun _ is => (by cases is)⟩⟩).after
    fun _ _ => longer

/-- A branch back to an address that was passed. -/
theorem emitBranch_leads {target : Nat} (positive : 0 < target) (passed : target ≤ o.size) :
    Leads (Compiler.Fits o) (emit .branch (.address target)) fun _ => Compiler.Fits o :=
  (emit_leads fun _ _ _ size =>
    ⟨fun _ => ⟨target, rfl, positive, passed.trans size.le⟩, nofun,
      .of_isPlain rfl⟩).after
      fun _ _ => longer

/-- The address of the next instruction is at least as great as is known. -/
theorem mark_leads : Leads (Compiler.Fits o) mark fun a c =>
    o.size ≤ a ∧ c.Fits (o.reaching a) := by
  refine fun c fits => ⟨.of_same (fun _ => rfl) (.ok _), fun a c' run => ?_⟩
  cases run
  exact ⟨fits.size, { fits with size := Nat.le_refl _ }⟩

theorem emitFixup_extends (op : Opcode) (c : Compiler) : Extends (emitFixup op) c :=
  .bind (.of_same (fun _ => rfl) (.ok _)) fun _ _ _ =>
    .bind (editCode_extends (·.emit_ordinary _ _) _) fun _ _ _ =>
      .of_same (fun _ => rfl) (.ok _)

/-- A branch that is emitted waits for its target. -/
theorem emitFixup_leads {op : Opcode} (branch : op.isBranch = true) :
    Leads (Compiler.Fits o) (emitFixup op) fun a => Compiler.Fits (o.awaiting a) := by
  refine fun c fits => ⟨emitFixup_extends op c, fun a c' run => ?_⟩
  obtain ⟨_, _, ⟨⟩, run⟩ := bind_ok run
  obtain ⟨_, c₁, emitted, ⟨⟩⟩ := bind_ok run
  obtain ⟨code, pushed, rfl⟩ := editCode_ok emitted
  obtain ⟨settled, size⟩ := fits.settled.emitBranch branch pushed
  have longer : o.size ≤ code.size := size ▸ Nat.le_succ_of_le fits.size
  have kept := fits.kept.emit (fun _ => List.mem_cons.1) pushed
  exact ⟨settled, kept, fits.finished, fits.base, fits.units, longer, fits.loops⟩

/-- A branch that is patched no longer waits. -/
theorem patch_leads {a target : Nat} (positive : 0 < target) :
    Leads (Compiler.Fits (o.awaiting a)) (patch a target) fun _ => Compiler.Fits o :=
  (editCode_leads (P := fun _ => True) (o := o.awaiting a) (·.setAddress_ordinary a target)
    (fun _ _ size h patched =>
      have ⟨after, same⟩ := Code.Settled.setAddress h positive patched
      ⟨after, size.trans_eq same.symm⟩) fun _ h patched => Code.Keeps.setAddress h patched).before
      fun _ => .intro trivial

/-- Only code with an instruction has a branch to patch. -/
theorem patchHere_leads {a : Nat} :
    Leads (Compiler.Fits (o.awaiting a)) (patchHere a) fun _ => Compiler.Fits o := by
  intro c fits
  have adds : Extends (patchHere a) c :=
    .bind (.of_same (fun _ => rfl) (.ok _)) fun _ _ _ => editCode_extends (·.setAddress_ordinary _ _) _
  refine ⟨adds, fun b c' run => ?_⟩
  obtain ⟨_, _, ⟨⟩, run⟩ := bind_ok run
  obtain ⟨code, patched, -⟩ := editCode_ok run
  have positive : 0 < c.draft.code.size := by
    unfold Code.setAddress at patched
    split at patched
    · cases patched
    · omega
  exact (patch_leads positive).reaches fits run

/-- The branch that is patched need not be the one that was emitted last. -/
theorem patchHere_under {a b : Nat} :
    Leads (Compiler.Fits ((o.awaiting a).awaiting b)) (patchHere a)
      fun _ => Compiler.Fits (o.awaiting b) :=
  (patchHere_leads (o := o.awaiting b) (a := a)).before fun _ fits =>
    fits.mono fun _ => (List.Perm.swap a b o.waiting).mem_iff

/-- Branches that are patched no longer wait. -/
theorem patchAll_leads {fixups : List Nat} {target : Nat} (positive : 0 < target) :
    Leads (Compiler.Fits (o.awaitingAll fixups)) (patchAll fixups target)
      fun _ => Compiler.Fits o := by
  induction fixups with
  | nil => exact .pure fun _ => id
  | cons a fixups ih =>
    exact (patch_leads (o := o.awaitingAll fixups) positive).bind fun _ => ih

/-! ## Code on the side -/

/-- Code that is settled and refers to units that are there. -/
theorem append_leads {code : Code} (settled : code.Settled o.base o.units []) :
    Leads (Compiler.Fits o) (append code) fun _ => Compiler.Fits o :=
  (editCode_leads (P := fun _ => True) (·.append_ordinary code) (fun _ units size h joined =>
    have ⟨after, longer⟩ := h.append (settled.mono units) joined
    ⟨after, size.trans longer⟩) fun _ h joined => h.append joined).before fun _ => .intro trivial

/-- Code that is captured is settled. -/
theorem capture_leads {step : CompileM Unit} (h : Steady step) :
    Leads (Compiler.Fits o) (capture step) fun code =>
      Compiler.FitsWith o fun units => code.Settled o.base units [] := by
  intro c fits
  let side : Outline :=
    { base := o.base, units := c.codes.size, size := 0, waiting := [], kept := []
      loops := (· = c.draft.loops), opens := fun _ => [] }
  have before : Compiler.Fits side (setCode { name := "scratch" } c) :=
    ⟨.empty, .nothing _ _, fits.finished, fits.base, Nat.le_refl _, Nat.zero_le _, rfl⟩
  obtain ⟨⟨⟨more, inert, same⟩, ordinary⟩, leads⟩ := h side _ before
  refine ⟨⟨⟨more, inert, fun codes size => ?_⟩, ?_⟩, fun code c' run => ?_⟩
  · have same : step (setCode { name := "scratch" } (c.over codes)) = _ := same codes size
    unfold capture
    rw [same]
    rcases step (setCode { name := "scratch" } c) with ⟨_ | _, c₁⟩ <;> rfl
  · unfold capture
    rcases ran : step (setCode { name := "scratch" } c) with ⟨f | _, c₁⟩ <;> rw [ran] at ordinary
    · exact .error (ordinary f rfl)
    · exact .ok _
  unfold capture at run
  rcases ran : step (setCode { name := "scratch" } c) with ⟨_ | _, c₁⟩ <;> rw [ran] at run <;>
    cases run
  have after := leads _ _ ran
  have same : c₁.draft.loops = c.draft.loops := after.loops
  have settled := fits.settled.mono after.units
  have kept := fits.kept
  have loops := fits.loops
  rw [← same] at settled kept loops
  exact ⟨c₁.codes.size, fits.units.trans after.units, after.settled, settled, kept, after.finished,
    after.base, Nat.le_refl _, fits.size, loops⟩

end StackScript.CompileM
