import Mathlib.Algebra.Ring.Nat
import StackScript.Proofs.Balance.Joining
import StackScript.Proofs.Settling.Expressions

/-!
# Laying out code

A sketch says what is known of the code that a compiler has emitted: which addresses may be come
back to, which branches wait for their targets, and what is open around the next instruction. A step
of a compiler that stands at a spot comes to another one, whatever the sketch, and the units that it
finishes on the way are balanced, also if it fails.

Main statements: `Lays.bind` and `Lays.repeatTurns` (steps one after the other), and what each way to
emit code does to a sketch: `emit_lays`, `emitFixup_lays`, `patchHere_lays`, `capture_lays`,
`append_lays` and `inDraft_lays`.
-/
namespace StackScript

open CompileM

/-- More tokens than any array of them can hold. -/
def tokenLimit : Nat := 2 ^ 58

/-- The most arguments that the tokens of a source can spell out for a call. -/
def argumentLimit : Nat := tokenLimit + 2

/-- A source that can be read. -/
def Held (source : String) : Prop :=
  ∀ cursor, Token.Cursor.ofSource source = .ok cursor → cursor.tokens.size < tokenLimit

/-- A compiler whose finished units are balanced, and whose sources can be read. -/
structure Compiler.Orderly (c : Compiler) : Prop where
  units : ∀ code ∈ c.codes, code.Balanced
  tokens : c.cursor.tokens.size < tokenLimit
  files : ∀ file source, c.files.read file = .ok source → Held source

/-! ## Sketches -/

/-- The loops and switches, the scopes and the protected blocks that are open in a draft. -/
structure Nest where
  loops : List OpenLoop
  scopes : Nat
  tries : Nat

/-- What is open in a draft. -/
def Draft.nest (d : Draft) : Nest := ⟨d.loops, d.scopeDepth, d.tryDepth⟩

/-- Whether a loop or a switch is open, and where. -/
def OpenLoop.place (l : OpenLoop) : Breakable × Nat × Nat := (l.kind, l.scopeDepth, l.tryDepth)

/-- The branches that wait for the end of open loops and switches lead to where those stand. -/
def exits (loops : List OpenLoop) : Spots :=
  {x | ∃ l ∈ loops, x.1 ∈ l.breaks ++ l.continues ∧ x.2 = .level l.scopeDepth l.tryDepth}

/-- What is known of the code that is emitted into a draft. -/
structure Sketch where
  /-- Addresses that may be come back to. -/
  marks : Spots
  /-- Branches without a target yet. -/
  waiting : Spots := ∅
  /-- How many arguments more than are spelled out a call may have. -/
  spare : Nat := 0
  /-- What is open. -/
  nest : Nest → Prop
  /-- The branches that wait for the end of open loops and switches. -/
  opens : List OpenLoop → Spots := fun _ => ∅

namespace Sketch

/-- A branch waits for its target. -/
def awaiting (o : Sketch) (a : Nat) (ρ : Spot) : Sketch :=
  { o with waiting := insert (a, ρ) o.waiting }

/-- Branches wait for their targets. -/
def awaitingAll (o : Sketch) (fixups : List Nat) (ρ : Spot) : Sketch :=
  { o with waiting := {x | x.1 ∈ fixups ∧ x.2 = ρ} ∪ o.waiting }

/-- An address may be come back to. -/
def marking (o : Sketch) (a : Nat) (ρ : Spot) : Sketch := { o with marks := insert (a, ρ) o.marks }

/-- These loops and switches are open, the innermost first, and so many scopes and protected blocks.
A switch is no target of `continue`. -/
def within (o : Sketch) (places : List (Breakable × Nat × Nat)) (s t : Nat) : Sketch :=
  { o with
    spare := 1
    nest := fun n => n.loops.map OpenLoop.place = places ∧
      (∀ l ∈ n.loops, l.kind = .switch → l.continues = []) ∧ n.scopes = s ∧ n.tries = t
    opens := exits }

/-- A draft at its start. -/
def begun : Sketch := within { marks := {(0, .level 0 0)}, nest := fun _ => True } [] 0 0

/-- No branch waits where a draft starts. -/
theorem begun_waits : begun.waiting ∪ begun.opens [] = ∅ := by simp [begun, within, exits]

variable (o : Sketch) (ρ : Spot)

theorem awaiting_comm (a b : Nat) (ν : Spot) :
    (o.awaiting a ρ).awaiting b ν = (o.awaiting b ν).awaiting a ρ := by
  simp only [awaiting, Set.insert_comm]

theorem awaitingAll_nil : o.awaitingAll [] ρ = o := by simp [awaitingAll]

theorem awaitingAll_cons (a : Nat) (fixups : List Nat) :
    o.awaitingAll (a :: fixups) ρ = (o.awaitingAll fixups ρ).awaiting a ρ := by
  simp only [awaitingAll, awaiting, mk.injEq, true_and, and_true]
  ext ⟨b, ν⟩
  simp only [List.mem_cons, Set.mem_union, Set.mem_ofPred_eq, Set.mem_insert_iff, Prod.mk.injEq]
  tauto

end Sketch

/-- A compiler whose draft is laid out as a sketch says, and leads to a spot. -/
structure Compiler.At (o : Sketch) (σ : Spot) (c : Compiler) : Prop where
  laid : c.draft.code.Laid (argumentLimit + o.spare) o.marks (o.waiting ∪ o.opens c.draft.loops) σ
  nest : o.nest c.draft.nest

/-- Compilers that differ in nothing that concerns the code. -/
structure Compiler.Same (c c' : Compiler) : Prop where
  code : c'.draft.code.instructions = c.draft.code.instructions
  nest : c'.draft.nest = c.draft.nest
  codes : c'.codes = c.codes
  tokens : c'.cursor.tokens = c.cursor.tokens
  files : c'.files = c.files

namespace Compiler

variable {o : Sketch} {σ ρ : Spot} {c c' : Compiler}

theorem Orderly.of_same (h : c.Orderly) (codes : c'.codes = c.codes)
    (tokens : c'.cursor.tokens = c.cursor.tokens) (files : c'.files = c.files) : c'.Orderly :=
  ⟨codes ▸ h.units, tokens ▸ h.tokens, files ▸ h.files⟩

/-- Whether literals are allowed does not concern the code. -/
theorem same_allowing (allowed : Bool) (c : Compiler) : c.Same { c with noStructLiteral := allowed } :=
  ⟨rfl, rfl, rfl, rfl, rfl⟩

theorem Same.orderly (same : c.Same c') (h : c.Orderly) : c'.Orderly :=
  h.of_same same.codes same.tokens same.files

namespace At

/-- A draft with the same code, in which the same is open. -/
theorem of_nest (h : c.At o σ) (code : c'.draft.code.instructions = c.draft.code.instructions)
    (nest : c'.draft.nest = c.draft.nest) : c'.At o σ where
  laid := by
    have loops : c'.draft.loops = c.draft.loops := congrArg Nest.loops nest
    rw [loops]
    exact h.laid.of_same code
  nest := nest ▸ h.nest

theorem of_same (h : c.At o σ) (same : c.Same c') : c'.At o σ := h.of_nest same.code same.nest

/-- When no loop is open no branch waits. -/
theorem carries (h : c.At .begun σ) : c.draft.code.Carries (argumentLimit + 1) (.level 0 0) σ := by
  have none : c.draft.loops = [] := List.map_eq_nil_iff.1 h.nest.1
  have laid := h.laid
  rwa [none, Sketch.begun_waits] at laid

/-- More may be come to. -/
theorem mono (h : c.At o σ) (more : σ ⊆ ρ) : c.At o ρ := ⟨h.laid.mono subset_rfl more, h.nest⟩

/-- An address that is not come back to may be forgotten. -/
theorem forget {a : Nat} {τ : Spot} (h : c.At (o.marking a τ) σ) : c.At o σ :=
  ⟨h.laid.mono (Set.subset_insert _ _) subset_rfl, h.nest⟩

end At

end Compiler

/-! ## Where steps lead -/

namespace CompileM

open Compiler (At)

variable {α β τ : Type}

/-- From orderly compilers with one property, a step leaves an orderly compiler, with another
property if it succeeds. -/
def Lays (P : Compiler → Prop) (m : CompileM α) (Q : α → Compiler → Prop) : Prop :=
  ∀ c, c.Orderly → P c → (m c).2.Orderly ∧ ∀ a c', m c = (.ok a, c') → Q a c'

namespace Lays

variable {P P' : Compiler → Prop} {Q Q' : α → Compiler → Prop} {R : β → Compiler → Prop}
variable {m m' : CompileM α} {f : α → CompileM β} {p : Prop}

theorem pure {a : α} (h : ∀ c, P c → Q a c) : Lays P (Pure.pure a) Q := by
  refine fun c orderly before => ⟨orderly, ?_⟩
  rintro _ _ ⟨⟩
  exact h c before

theorem bind (first : Lays P m Q) (next : ∀ a, Lays (Q a) (f a) R) : Lays P (m >>= f) R := by
  intro c orderly before
  obtain ⟨kept, leads⟩ := first c orderly before
  rcases ran : m c with ⟨_ | a, c₁⟩
  · rw [bind_of_error ran]
    rw [ran] at kept
    exact ⟨kept, fun _ _ run => by cases run⟩
  · rw [bind_of_ok ran]
    rw [ran] at kept
    exact next a c₁ kept (leads a c₁ ran)

theorem mono (h : Lays P m Q) (before : ∀ c, P' c → P c) (after : ∀ a c, Q a c → Q' a c) :
    Lays P' m Q' := fun c orderly holds =>
  have ⟨kept, leads⟩ := h c orderly (before c holds)
  ⟨kept, fun a c' run => after a c' (leads a c' run)⟩

theorem after (h : Lays P m Q) (after : ∀ a c, Q a c → Q' a c) : Lays P m Q' :=
  h.mono (fun _ => id) after

theorem before (h : Lays P m Q) (before : ∀ c, P' c → P c) : Lays P' m Q :=
  h.mono before fun _ _ => id

/-- Looking at the compiler. -/
theorem readAs {f : Compiler → CompileM β}
    (next : ∀ d : Compiler, d.Orderly → Lays (fun c => c = d ∧ P c) (f d) R) :
    Lays P (get >>= f) R := by
  intro c orderly before
  rw [bind_of_ok (get_eq c)]
  exact next c orderly c orderly ⟨rfl, before⟩

theorem read {f : Compiler → CompileM β} (next : ∀ d, Lays P (f d) R) : Lays P (get >>= f) R :=
  readAs fun d _ => (next d).before fun _ => And.right

theorem ite [Decidable p] (yes : p → Lays P m Q) (no : ¬p → Lays P m' Q) :
    Lays P (if p then m else m') Q := by
  split
  · exact yes ‹_›
  · exact no ‹_›

theorem refuses (h : Refuses m) : Lays P m Q := by
  intro c orderly _
  obtain ⟨⟨fault, -, failed⟩, -⟩ := h c
  rw [failed]
  exact ⟨orderly, fun _ _ run => by cases run⟩

/-- Go on unless there is a reason to fail. -/
theorem guarded [Decidable p] {f : α → CompileM β} {k : CompileM β} (stop : Refuses m)
    (rest : ¬p → Lays P k R) : Lays P (if p then m >>= f else k) R :=
  ite (fun _ => refuses (stop.bind f)) rest

/-- Go on behind a step that is taken or not. -/
theorem optional [Decidable p] {m : CompileM Unit} {f : Unit → CompileM α}
    (hm : p → Lays P m fun _ => P) (hf : ∀ u, Lays P (f u) Q) :
    Lays P (if p then m >>= f else f ()) Q := ite (fun yes => (hm yes).bind hf) fun _ => hf ()

/-- A fact that is about no compiler may be used before a step. -/
theorem given (h : p → Lays P m Q) : Lays (fun c => p ∧ P c) m Q :=
  fun c orderly holds => h holds.1 c orderly holds.2

theorem modify {g : Compiler → Compiler} {Q : Unit → Compiler → Prop}
    (h : ∀ c, P c → (c.Orderly → (g c).Orderly) ∧ Q () (g c)) : Lays P (modify g) Q := by
  refine fun c orderly before => ⟨(h c before).1 orderly, ?_⟩
  rintro _ _ ⟨⟩
  exact (h c before).2

/-- Steps that only read keep what does not depend on the cursor. -/
theorem quiet (h : Quiet m) (moved : ∀ c c' : Compiler, c.Same c' → P c → P c') :
    Lays P m fun _ => P := by
  intro c orderly before
  obtain ⟨cursor, count, there, -⟩ := h.moves c
  have tokens := h.tokens c
  rw [there] at tokens
  have same : c.Same (c.moved cursor count) := ⟨rfl, rfl, rfl, tokens, rfl⟩
  rw [there]
  refine ⟨same.orderly orderly, fun a c' run => ?_⟩
  rw [run] at there
  obtain rfl : c' = c.moved cursor count := there
  exact moved c _ same before

/-- Turns keep what each of them keeps, and the last one leads on. There are no more of them than
tokens. -/
theorem repeatTurns {I : Nat → τ → Compiler → Prop} {turn : τ → CompileM (Turn τ β)}
    (h : ∀ k < argumentLimit, ∀ s, Lays (I k s) (turn s) (AfterTurn (I (k + 1)) R)) (s : τ) :
    Lays (I 0 s) (CompileM.repeatTurns s turn) R := by
  have taken : ∀ bound k s, k + bound ≤ argumentLimit → Lays (I k s) (turns turn bound s) R := by
    intro bound
    induction bound with
    | zero => exact fun _ _ _ => .refuses limit_refuses
    | succ bound ih =>
      refine fun k s few => (h k (by omega) s).bind fun r => ?_
      cases r with
      | again s' => exact ih (k + 1) s' (by omega)
      | done b => exact .pure fun _ => id
  intro c orderly before
  have tokens := orderly.tokens
  exact taken (c.cursor.tokens.size - c.cursor.pos + 2) 0 s (by unfold argumentLimit; omega) c orderly
    before

end Lays

/-! ## Steps of code -/

/-- A step whose code leads from one spot to another, wherever it is emitted. -/
def Emits (σ ρ : Spot) (m : CompileM α) : Prop := ∀ o : Sketch, Lays (At o σ) m fun _ => At o ρ

/-- A step whose code leads nowhere else. -/
def Idles (m : CompileM α) : Prop := ∀ σ, Emits σ σ m

/-- A step whose code pushes a value. -/
def Evaluates (m : CompileM Unit) : Prop := ∀ σ, Emits σ (.above 1 σ) m

/-- A statement that no loop waits for. -/
def Performs (m : CompileM Unit) : Prop := ∀ s t, Emits (.level s t) (.level s t) m

/-- There is room for so many scopes more, and the loops and switches that are open were opened
before. -/
structure Room (k : Nat) (places : List (Breakable × Nat × Nat)) (s t : Nat) : Prop where
  few : s + k < countLimit
  inside : ∀ p ∈ places, p.2.1 ≤ s ∧ p.2.2 ≤ t

/-- A statement that opens so many scopes at most, one in another. It may leave the loops and switches
that it stands in. -/
def Acts (k : Nat) (m : CompileM α) : Prop :=
  ∀ (o : Sketch) (places : List (Breakable × Nat × Nat)) (s t : Nat), Room k places s t →
    Lays (At (o.within places s t) (.level s t)) m fun _ => At (o.within places s t) (.level s t)

namespace Emits

variable {σ ρ ν : Spot} {m m' : CompileM α} {f : α → CompileM β} {p : Prop} [Decidable p]

theorem pure (a : α) : Emits σ σ (Pure.pure a) := fun _ => .pure fun _ => id

theorem bind (hm : Emits σ ρ m) (hf : ∀ a, Emits ρ ν (f a)) : Emits σ ν (m >>= f) :=
  fun o => (hm o).bind fun a => hf a o

theorem refuses (h : Refuses m) : Emits σ ρ m := fun _ => .refuses h

theorem ite (yes : p → Emits σ ρ m) (no : ¬p → Emits σ ρ m') : Emits σ ρ (if p then m else m') :=
  fun o => .ite (fun h => yes h o) fun h => no h o

theorem guarded {m : CompileM β} {f : β → CompileM α} (stop : Refuses m) (rest : Emits σ ρ m') :
    Emits σ ρ (if p then m >>= f else m') := .ite (fun _ => .refuses (stop.bind f)) fun _ => rest

theorem optional {m : CompileM Unit} {f : Unit → CompileM α} (hm : p → Emits σ σ m)
    (hf : ∀ u, Emits σ ρ (f u)) : Emits σ ρ (if p then m >>= f else f ()) :=
  .ite (fun yes => (hm yes).bind hf) fun _ => hf ()

theorem mono {σ' ρ' : Spot} (h : Emits σ ρ m) (before : σ' ⊆ σ) (after : ρ ⊆ ρ') : Emits σ' ρ' m :=
  fun o => (h o).mono (fun _ here => here.mono before) fun _ _ there => there.mono after

theorem read {f : Compiler → CompileM α} (h : ∀ c, Emits σ ρ (f c)) : Emits σ ρ (get >>= f) :=
  fun o => .read fun c => h c o

theorem quiet (h : Quiet m) : Emits σ σ m := fun _ => .quiet h fun _ _ same here => here.of_same same

/-- Steps that do not concern the code. -/
theorem of_same (h : ∀ c : Compiler, c.Same (m c).2) : Emits σ σ m := by
  refine fun o c orderly here => ⟨(h c).orderly orderly, fun a c' run => ?_⟩
  obtain rfl : (m c).2 = c' := congrArg Prod.snd run
  exact here.of_same (h c)

theorem repeatTurns {turn : τ → CompileM (Turn τ β)} (h : ∀ s, Emits σ σ (turn s)) (s : τ) :
    Emits σ σ (CompileM.repeatTurns s turn) := fun o =>
  .repeatTurns (I := fun _ _ => At o σ) (fun _ _ s => (h s o).after fun r _ here => by
    cases r <;> exact here) s

theorem repeatWhile {turn : CompileM Bool} (h : Emits σ σ turn) :
    Emits σ σ (CompileM.repeatWhile turn) :=
  .repeatTurns (fun _ => h.bind fun _ => .ite (fun _ => .pure _) fun _ => .pure _) _

theorem inHead {m : CompileM Unit} (h : Emits σ ρ m) : Emits σ ρ (inHead m) := by
  intro o c orderly here
  have same := Compiler.same_allowing true c
  obtain ⟨kept, leads⟩ := h o _ (same.orderly orderly) (here.of_same same)
  refine ⟨kept.of_same rfl rfl rfl, fun a c' run => ?_⟩
  unfold CompileM.inHead at run
  rcases ran : m { c with noStructLiteral := true } with ⟨_ | _, after⟩ <;> rw [ran] at run <;>
    cases run
  exact (leads _ _ ran).of_same (Compiler.same_allowing _ after)

end Emits

namespace Acts

variable {k : Nat} {m m' : CompileM α} {f : α → CompileM β} {p : Prop} [Decidable p]

theorem idles (h : Idles m) : Acts k m := fun o places s t _ => h _ (o.within places s t)

theorem performs {m : CompileM Unit} (h : Performs m) : Acts k m :=
  fun o places s t _ => h s t (o.within places s t)

theorem pure (a : α) : Acts k (Pure.pure a) := .idles fun _ => .pure a

theorem quiet (h : Quiet m) : Acts k m := .idles fun _ => .quiet h

theorem bind (hm : Acts k m) (hf : ∀ a, Acts k (f a)) : Acts k (m >>= f) := fun o places s t room =>
  (hm o places s t room).bind fun a => hf a o places s t room

theorem ite (yes : p → Acts k m) (no : ¬p → Acts k m') : Acts k (if p then m else m') :=
  fun o places s t room => .ite (fun h => yes h o places s t room) fun h => no h o places s t room

theorem guarded {m : CompileM β} {f : β → CompileM α} (stop : Refuses m) (rest : Acts k m') :
    Acts k (if p then m >>= f else m') :=
  .ite (fun _ => .idles fun _ => .refuses (stop.bind f)) fun _ => rest

theorem repeatTurns {turn : τ → CompileM (Turn τ β)} (h : ∀ s, Acts k (turn s)) (s : τ) :
    Acts k (CompileM.repeatTurns s turn) := fun o places scopes tries room =>
  .repeatTurns (I := fun _ _ => At (o.within places scopes tries) (.level scopes tries))
    (fun _ _ s => (h s o places scopes tries room).after fun r _ here => by cases r <;> exact here) s

theorem repeatWhile {turn : CompileM Bool} (h : Acts k turn) : Acts k (CompileM.repeatWhile turn) :=
  .repeatTurns (fun _ => h.bind fun _ => .ite (fun _ => .pure _) fun _ => .pure _) _

end Acts

/-- Literals may be allowed for a while. -/
theorem Lays.withLiterals {P : Compiler → Prop} {Q : α → Compiler → Prop} {m : CompileM α}
    (h : Lays P m Q) (before : ∀ c c' : Compiler, c.Same c' → P c → P c')
    (after : ∀ a (c c' : Compiler), c.Same c' → Q a c → Q a c') (allowed : Bool) :
    Lays P (withLiterals allowed m) Q :=
  .read fun _ => .bind (.modify fun c holds =>
      have same := Compiler.same_allowing _ c
      ⟨same.orderly, before c _ same holds⟩) fun _ =>
    h.bind fun a => .bind (.modify fun c holds =>
      have same := Compiler.same_allowing _ c
      ⟨same.orderly, after a c _ same holds⟩) fun _ => .pure fun _ => id

theorem Emits.withLiterals {σ ρ : Spot} {m : CompileM α} (h : Emits σ ρ m) (allowed : Bool) :
    Emits σ ρ (withLiterals allowed m) := fun o =>
  (h o).withLiterals (fun _ _ same here => here.of_same same)
    (fun _ _ _ same there => there.of_same same) allowed

/-! ## Emission -/

section

variable {o : Sketch} {σ ρ ν : Spot} {op : Opcode} {operand : Operand}

/-- Editing code of which something is known. -/
theorem editCode_lays {K : Code → Prop} {f : Code → Except Fault Code} {q : Sketch}
    (nest : q.nest = o.nest)
    (edits : ∀ code code' loops, K code →
      code.Laid (argumentLimit + o.spare) o.marks (o.waiting ∪ o.opens loops) σ → f code = .ok code' →
        code'.Laid (argumentLimit + q.spare) q.marks (q.waiting ∪ q.opens loops) ρ) :
    Lays (fun c => K c.draft.code ∧ c.At o σ) (editCode f) fun _ => At q ρ := by
  refine fun c orderly ⟨known, here⟩ => ⟨?_, fun a c' run => ?_⟩
  · cases edited : f c.draft.code with
    | ok code =>
      rw [editCode_of edited]
      exact orderly.of_same rfl rfl rfl
    | error fault => rwa [editCode_error edited]
  · obtain ⟨code, edited, rfl⟩ := editCode_ok run
    exact ⟨edits _ _ _ known here.laid edited, nest ▸ here.nest⟩

/-- Editing any code. -/
theorem editCode_any {f : Code → Except Fault Code} {o' : Sketch} (nest : o'.nest = o.nest)
    (edits : ∀ code code' loops,
      code.Laid (argumentLimit + o.spare) o.marks (o.waiting ∪ o.opens loops) σ → f code = .ok code' →
        code'.Laid (argumentLimit + o'.spare) o'.marks (o'.waiting ∪ o'.opens loops) ρ) :
    Lays (At o σ) (editCode f) fun _ => At o' ρ :=
  (editCode_lays (K := fun _ => True) nest fun code code' loops _ => edits code code' loops).before
    fun _ => .intro trivial

theorem push_of_emit {code code' : Code} (emitted : code.emit op operand = .ok code') :
    code' = code.push ⟨op, operand⟩ := by
  unfold Code.emit at emitted
  split at emitted <;> cases emitted
  rfl

/-- An instruction that does not branch. -/
theorem emit_lays (goes : Instruction.Goes ⟨op, operand⟩ σ ρ ∅)
    (callable : op = .call → operand.Callable (argumentLimit + o.spare)) :
    Lays (At o σ) (emit op operand) fun _ => At o ρ :=
  editCode_any rfl fun _ _ _ laid emitted => push_of_emit emitted ▸ laid.emit goes callable

theorem emit_emits (goes : Instruction.Goes ⟨op, operand⟩ σ ρ ∅) (noCall : op ≠ .call) :
    Emits σ ρ (emit op operand) := fun _ => emit_lays goes fun call => absurd call noCall

/-- Taking values and giving others. -/
theorem emit_exchange {k m : Nat} (h : Instruction.exchange ⟨op, operand⟩ = some (k, m)) :
    Emits (.above k σ) (.above m σ) (emit op operand) :=
  emit_emits (.exchange h) (by rintro rfl; cases h)

theorem emit_keeps (h : Instruction.exchange ⟨op, operand⟩ = some (0, 0)) :
    Emits σ σ (emit op operand) := emit_exchange h

theorem emit_pushes (h : Instruction.exchange ⟨op, operand⟩ = some (0, 1)) :
    Emits σ (.above 1 σ) (emit op operand) := emit_exchange h

theorem emit_turns (h : Instruction.exchange ⟨op, operand⟩ = some (1, 1)) :
    Emits (.above 1 σ) (.above 1 σ) (emit op operand) := emit_exchange h

theorem emit_joins (h : Instruction.exchange ⟨op, operand⟩ = some (2, 1)) :
    Emits (.above 2 σ) (.above 1 σ) (emit op operand) := emit_exchange h

theorem emit_folds (h : Instruction.exchange ⟨op, operand⟩ = some (3, 1)) :
    Emits (.above 3 σ) (.above 1 σ) (emit op operand) := emit_exchange h

theorem emitValue_pushes {v : Value} (noMarker : ∀ m, v ≠ .marker m) :
    Emits σ (.above 1 σ) (emitValue v) := by
  refine emit_pushes ?_
  cases v with
  | marker m => exact absurd rfl (noMarker m)
  | _ => rfl

/-- Where instructions that take a value lead from one spot to another. Below a marker the values
are not counted. -/
structure Tops (σ ρ : Spot) : Prop where
  keeps : ∀ {op : Opcode} {operand : Operand}, Instruction.exchange ⟨op, operand⟩ = some (0, 0) →
    Emits σ σ (emit op operand)
  turns : ∀ {op : Opcode} {operand : Operand}, Instruction.exchange ⟨op, operand⟩ = some (1, 1) →
    Emits σ σ (emit op operand)
  takes : ∀ {op : Opcode} {operand : Operand}, Instruction.exchange ⟨op, operand⟩ = some (1, 0) →
    Emits σ ρ (emit op operand)

theorem Tops.above : Tops (.above 1 σ) σ := ⟨emit_keeps, emit_turns, emit_exchange⟩

/-- Taking values and giving others where they are not counted. -/
theorem emit_loose {k m s t : Nat} {label : String} (noVoid : label ≠ "void")
    (h : Instruction.exchange ⟨op, operand⟩ = some (k, m)) :
    Emits (.loose label s t) (.loose label s t) (emit op operand) :=
  emit_emits (.loose noVoid h) (by rintro rfl; cases h)

theorem Tops.loose {s t : Nat} {label : String} (noVoid : label ≠ "void") :
    Tops (.loose label s t) (.loose label s t) :=
  ⟨emit_loose noVoid, emit_loose noVoid, emit_loose noVoid⟩

/-- A call takes its arguments, and the callee below them. -/
theorem emitCall_emits {count : Nat} (few : count ≤ argumentLimit) {spread : Bool}
    (some : spread = true → 0 < count) (receiver : Bool) :
    Emits (.args count spread (.above 1 (if receiver then .receiving σ else σ))) (.above 1 σ)
      (emitCall count ⟨spread, false, receiver⟩) := by
  have less : count < countLimit := few.trans_lt (by decide)
  have parts := callParts_callOperand less (CallFlags.mk spread false receiver).toInt
  have goes : Instruction.Goes _ _ (.given false σ) ∅ := .callArgs less some false receiver
  rw [Spot.given_false] at goes
  refine fun o => emit_lays goes fun _ => ⟨?_, ?_⟩
  · rw [parts]
    exact few.trans (Nat.le_add_right _ _)
  · rw [Operand.callFlags, parts, CallFlags.ofInt_toInt]
    exact some

/-- The address of the next instruction may be come back to. -/
theorem mark_lays : Lays (At o σ) mark fun a => At (o.marking a σ) σ := by
  refine fun c orderly here => ⟨orderly, ?_⟩
  rintro _ _ ⟨⟩
  exact ⟨here.laid.mark, here.nest⟩

/-- A branch waits for its target, and is said to lead to a spot. -/
theorem emitFixup_lays (branch : op.isBranch = true)
    (goes : Instruction.Goes ⟨op, .address 0⟩ σ ρ ν) :
    Lays (At o σ) (emitFixup op) fun a => At (o.awaiting a ν) ρ := by
  have marks : Lays (At o σ) mark fun a c => c.draft.code.size = a ∧ c.At o σ := by
    refine fun c orderly here => ⟨orderly, ?_⟩
    rintro _ _ ⟨⟩
    exact ⟨rfl, here⟩
  refine marks.bind fun a => .bind (editCode_lays (K := (·.size = a)) (q := o.awaiting a ν) rfl ?_)
    fun _ => .pure fun _ => id
  rintro code _ loops rfl laid emitted
  rw [push_of_emit emitted]
  exact (Set.insert_union ..).symm ▸ laid.await branch goes

/-- A branch gets a target that may be come back to. -/
theorem patch_lays {a target : Nat} (mem : (target, ρ) ∈ o.marks) (within : ν ⊆ ρ) :
    Lays (At (o.awaiting a ν) σ) (patch a target) fun _ => At o σ :=
  editCode_any (o := o.awaiting a ν) rfl fun _ _ _ laid patched =>
    Code.Laid.patch ((Set.insert_union ..).symm ▸ laid) (.inl ⟨ρ, mem, within⟩) patched

/-- Branches get a target that may be come back to. -/
theorem patchAll_lays {fixups : List Nat} {target : Nat} (mem : (target, ρ) ∈ o.marks)
    (within : ν ⊆ ρ) :
    Lays (At (o.awaitingAll fixups ν) σ) (patchAll fixups target) fun _ => At o σ := by
  induction fixups with
  | nil =>
    rw [Sketch.awaitingAll_nil]
    exact .pure fun _ => id
  | cons a fixups ih =>
    rw [Sketch.awaitingAll_cons]
    exact (patch_lays (o := o.awaitingAll fixups ν) mem within).bind fun _ => ih

/-- A branch leads to the next instruction, which other ways may lead to as well. -/
theorem patchHere_lays {a : Nat} (here : σ ⊆ ρ) (within : ν ⊆ ρ) :
    Lays (At (o.awaiting a ν) σ) (patchHere a) fun _ => At o ρ :=
  ((mark_lays (o := o.awaiting a ν)).bind fun here =>
    (patch_lays (o := o.marking here ρ) (Set.mem_insert ..) within).after fun _ _ =>
      At.forget).before fun _ there => there.mono here

/-- The branch that gets its target need not be the one that was emitted last. -/
theorem patchUnder_lays {a b : Nat} {τ : Spot} (here : σ ⊆ ρ) (within : ν ⊆ ρ) :
    Lays (At ((o.awaiting a ν).awaiting b τ) σ) (patchHere a) fun _ => At (o.awaiting b τ) ρ := by
  rw [Sketch.awaiting_comm]
  exact patchHere_lays here within

/-- A branch back leads to what may be come back to. -/
theorem emitBranch_lays {target : Nat} (mem : (target, ρ) ∈ o.marks) (within : σ ⊆ ρ) :
    Lays (At o σ) (emit .branch (.address target)) fun _ => At o ∅ :=
  editCode_any rfl fun _ _ _ laid emitted =>
    push_of_emit emitted ▸ laid.back rfl .branch mem within

/-- If the last instruction is a call, all its results are left. -/
theorem requestMultiple_emits : Emits (.above 1 σ) (.given true σ) requestMultiple := by
  refine fun o => .readAs fun d _ => ?_
  extract_lets code
  have same : Lays (fun c => c = d ∧ At o (.above 1 σ) c) (Pure.pure false) fun _ =>
      At o (.given true σ) := .pure fun _ here => here.2.mono (Spot.above_subset_given true)
  split
  · next i last =>
    refine .ite (fun call => ?_) fun _ => same
    split
    next count flags parts =>
    have every : .tuple [.int (Int64.ofNat count), .int (flags ||| 2)] = i.operand.everyResult := by
      rw [Operand.everyResult, parts]
    rw [every]
    have asks := editCode_lays (K := (· = code)) (o := o) (q := o) (σ := .above 1 σ)
      (ρ := .given true σ) (f := (·.emitAt (code.size - 1) .call i.operand.everyResult)) rfl
      fun _ _ _ same laid asked => by
        subst same
        exact laid.requestAll last (eq_of_beq call) asked
    refine .bind (asks.before ?_) fun _ => .pure fun _ => id
    rintro c ⟨rfl, here⟩
    exact ⟨rfl, here⟩
  · exact same

/-! ## Code on the side -/

/-- Code that leads from here to another spot. -/
theorem append_emits {code : Code} (h : code.Carries argumentLimit σ ρ) : Emits σ ρ (append code) :=
  fun _ => editCode_any rfl fun _ _ _ laid joined => laid.append h (Nat.le_add_right ..) joined

/-- Code that is captured leads where it would lead if it were emitted here. -/
theorem capture_lays {ι : Type} [Nonempty ι] {τ τ' : ι → Spot} {step : CompileM Unit}
    (h : ∀ i, Emits (τ i) (τ' i) step) :
    Lays (At o σ) (capture step) fun code c =>
      (∀ i, code.Carries argumentLimit (τ i) (τ' i)) ∧ c.At o σ := by
  intro c orderly here
  let side (i : ι) : Sketch := { marks := {(0, τ i)}, nest := (· = c.draft.nest) }
  have before (i : ι) : Compiler.At (side i) (τ i) (setCode { name := "scratch" } c) :=
    ⟨(Set.union_self (∅ : Spots)).symm ▸ .empty rfl, rfl⟩
  have leads (i : ι) := h i (side i) (setCode { name := "scratch" } c)
    (orderly.of_same rfl rfl rfl) (before i)
  have kept := (leads (Classical.arbitrary ι)).1
  unfold capture
  rcases ran : step (setCode { name := "scratch" } c) with ⟨_ | _, c₁⟩ <;> rw [ran] at kept
  · exact ⟨kept.of_same rfl rfl rfl, fun _ _ run => by cases run⟩
  refine ⟨kept.of_same rfl rfl rfl, ?_⟩
  rintro _ _ ⟨⟩
  have after (i : ι) := (leads i).2 _ _ ran
  have nest : c₁.draft.nest = c.draft.nest := (after (Classical.arbitrary ι)).nest
  refine ⟨fun i => ?_, here.of_nest rfl nest⟩
  have laid := (after i).laid
  rwa [show (side i).waiting ∪ (side i).opens c₁.draft.loops = ∅ from Set.union_self ∅] at laid

/-! ## Units -/

/-- Code of a draft of its own leads from its start to where the draft is left. -/
theorem inDraft_lays {step : CompileM α}
    (h : Lays (At .begun (.level 0 0)) step fun _ => At .begun ρ) (name : String) :
    Lays (At o σ) (inDraft name step) fun (_, inner) c =>
      inner.code.Carries (argumentLimit + 1) (.level 0 0) ρ ∧ c.At o σ := by
  intro c orderly here
  have before : Compiler.At .begun (.level 0 0) (beginDraft name c) :=
    ⟨Sketch.begun_waits.symm ▸ .empty rfl, rfl, fun _ mem => (List.not_mem_nil mem).elim, rfl, rfl⟩
  obtain ⟨kept, leads⟩ := h (beginDraft name c) (orderly.of_same rfl rfl rfl) before
  rw [inDraft_eq]
  refine ⟨kept.of_same rfl rfl rfl, fun (a, inner) c' run => ?_⟩
  rcases ran : step (beginDraft name c) with ⟨_ | _, c₁⟩ <;> rw [ran] at run <;> cases run
  exact ⟨(leads _ _ ran).carries, here.of_nest rfl rfl⟩

/-- A finished unit that is balanced. -/
theorem addCode_emits {code : Code} (h : code.Balanced) : Emits σ σ (addCode code) := by
  refine fun o => .read fun _ => .bind (.modify (Q := fun _ => At o σ) fun c here => ⟨fun orderly => ?_, ?_⟩)
    fun _ => .pure fun _ => id
  · refine ⟨fun code mem => ?_, orderly.tokens, orderly.files⟩
    obtain mem | rfl := Array.mem_push.1 mem
    · exact orderly.units code mem
    · exact h
  · exact here.of_nest rfl rfl

end

end CompileM

end StackScript
