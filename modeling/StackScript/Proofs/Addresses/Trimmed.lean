import StackScript.Proofs.Addresses.Guides
import StackScript.Proofs.Compiling.Sealing

/-!
# Runs of trimmed units

When a unit is sealed, its addresses move to where its trimming has put the instructions. What
control may reach are the addresses that the trimming keeps: a step from one of them leads to
another, whatever lies on the stack, so the trimming is guided by them.

Main statements: `Closing.guide`.
-/
namespace StackScript

/-! ## Trimming -/

/-- A trimming of which the places behind kept instructions are known, too. -/
structure Closing (code trimmed : Code) (move : Nat → Nat) (kept : Nat → Prop) : Prop
    extends Trimming code trimmed move kept where
  behind : ∀ {a}, kept a → move (a + 1) = move a + 1
  past : ∀ {a}, code.size ≤ a → trimmed.size ≤ move a

namespace Closing

variable {code trimmed : Code} {move : Nat → Nat} {kept : Nat → Prop}

theorem refl (code : Code) : Closing code code id fun _ => True where
  toTrimming := .refl code
  behind _ := rfl
  past h := h

theorem remove (h : Closing code trimmed move kept) {address : Nat}
    (inside : address + 1 < trimmed.size)
    (transfer : ∀ i, trimmed.instructions[address]? = some i → i.op.isTransfer = true)
    (free : ∀ (a : Nat) (i : Instruction), trimmed.instructions[a]? = some i →
      i.target? ≠ some (address + 1))
    {rest : Code} (removed : trimmed.remove (address + 1) = .ok rest) :
    Closing code rest (shift (address + 1) ∘ move) fun a => kept a ∧ move a ≠ address + 1 where
  toTrimming := h.toTrimming.remove inside transfer free removed
  behind := by
    rintro a ⟨live, other⟩
    have := h.behind live
    simp only [Function.comp_apply, shift]
    split <;> split <;> omega
  past := by
    intro a past
    have := h.past past
    rw [Code.size_remove inside removed, Function.comp_apply, shift, if_pos (by omega)]
    omega

/-- A closed unit is a trimmed one. -/
theorem close (code : Code) : ∃ move kept, Closing code code.close move kept := by
  have trims := Code.trimFrom_keeps (P := fun trimmed => ∃ move kept, Closing code trimmed move kept)
    (fun ⟨_, _, h⟩ inside transfer free removed => ⟨_, _, h.remove inside transfer free removed⟩)
    ⟨_, _, refl code⟩ code.size 0
  unfold Code.close
  split
  · exact ⟨_, _, refl code⟩
  · obtain ⟨move, kept, h⟩ := trims
    exact ⟨move, kept, ⟨h.first, h.start, h.last, h.found, h.next, h.adjacent, h.target⟩, h.behind, h.past⟩

/-- A kept address in the unit or at its end moves to one. -/
theorem move_le (h : Closing code trimmed move kept) {a : Nat} (live : kept a) (inside : a ≤ code.size) :
    move a ≤ trimmed.size := by
  rcases Nat.lt_or_eq_of_le inside with before | rfl
  · have there : a < code.instructions.size := before
    have found := h.found live (Array.getElem?_eq_getElem there)
    exact (Array.getElem?_eq_some_iff.1 found).1.le
  · exact h.last.le

end Closing

/-! ## Where addresses go -/

namespace Relocation

/-- The addresses of a unit move along when it is sealed. -/
@[reducible] def sealing (r : CodeRef) (move : Nat → Nat) (start : move 0 = 0) : Relocation where
  move r' a := if r' = r then move a else a
  rewrite r' code := if r' = r then code.close else code
  bound := r.index + 1
  start r' := by
    split
    · exact start
    · rfl
  beyond r' code h := if_neg fun same => by rw [same] at h; omega
  name r' code := by
    split
    · exact code.close_keeps.1
    · rfl
  declaration r' code := by
    split
    · exact code.close_keeps.2.1
    · rfl
  package r' code := by
    split
    · exact code.close_keeps.2.2.1
    · rfl

open Classical in
/-- All addresses of a unit stay but those that are not kept. -/
@[reducible] noncomputable def keeping (r : CodeRef) (kept : Nat → Prop) : Relocation where
  move r' a := if r' = r ∧ ¬kept a then 0 else a
  rewrite _ code := code
  bound := 0
  start r' := by split <;> rfl
  beyond _ _ _ := rfl
  name := still.name
  declaration := still.declaration
  package := still.package

end Relocation

/-! ## What stays -/

namespace Relocation

/-- Nothing moves but one unit and its addresses. -/
def Within (R : Relocation) (r : CodeRef) : Prop :=
  ∀ r' ≠ r, (∀ a, R.move r' a = a) ∧ ∀ code, R.rewrite r' code = code

theorem sealing_within (r : CodeRef) {move : Nat → Nat} (start : move 0 = 0) :
    (sealing r move start).Within r :=
  fun _ other => ⟨fun _ => if_neg other, fun _ => if_neg other⟩

theorem keeping_within (r : CodeRef) (kept : Nat → Prop) : (keeping r kept).Within r :=
  fun _ other => ⟨fun _ => if_neg fun h => other h.1, fun _ => rfl⟩

end Relocation

/-- A unit in which a branch leads to an address that is in the unit or its end. -/
def Code.Aimed (code : Code) : Prop :=
  ∀ i ∈ code.instructions, i.op.isBranch = true → ∃ a, i.operand = .address a ∧ a ≤ code.size

section

variable {r : CodeRef} {kept : Nat → Prop} {c : Context} {s : Store}

theorem Context.Fixed.pc {D : Relocation} (h : c.Fixed D) : D.move c.code c.pc = c.pc :=
  congrArg Context.pc h

/-- A context that stays stands at an address that is kept. -/
theorem Context.Fixed.stands (h : c.Fixed (.keeping r kept)) (first : kept 0) (here : c.code = r) :
    kept c.pc := by
  by_contra other
  have stays : (Relocation.keeping r kept).move r c.pc = c.pc := here ▸ h.pc
  have start : (Relocation.keeping r kept).move r c.pc = 0 := if_pos ⟨rfl, other⟩
  rw [stays] at start
  exact other (start ▸ first)

/-- The operands in a store that stays stay. -/
theorem Store.Fixed.operand (h : s.Fixed (.keeping r kept)) {r' : CodeRef} {i : Instruction} {a : Nat}
    (found : (s.code r').instructions[a]? = some i) :
    @Operand.moved (.keeping r kept) i.operand = i.operand := by
  have inside : r'.index < s.codes.size := by
    by_contra beyond
    simp [Store.code, Array.getD_eq_getD_getElem?, Array.getElem?_eq_none (Nat.le_of_not_lt beyond)]
      at found
  obtain ⟨here, moved⟩ := @Store.code_moved_of (.keeping r kept) s r' _
    (Array.getElem?_eq_getElem inside)
  rw [h, here] at moved
  rw [here] at found
  have same : (@Code.moved (.keeping r kept) s.codes[r'.index]).instructions[a]? = some i :=
    (congrArg (·.instructions[a]?) moved).symm.trans found
  rw [@Code.moved_instructions (.keeping r kept), Array.getElem?_map, found] at same
  exact congrArg Instruction.operand (Option.some.inj same)

end

namespace Closing

variable {code : Code} {move : Nat → Nat} {kept : Nat → Prop} {r : CodeRef}
variable {c c' : Context} {w w' : World} {s s' : Store} {D : Relocation}

/-- The instruction that is next has moved to where a context has moved to that stands at an address
that is kept. -/
theorem followed (h : Closing code code.close move kept) (aimed : code.Aimed)
    (has : s.codes[r.index]? = some code) (hc : c.Fixed (.keeping r kept)) :
    @Exec.Followed (.sealing r move h.start) c s := by
  let R : Relocation := .sealing r move h.start
  by_cases here : c.code = r
  · obtain ⟨there, there'⟩ := @Store.code_moved_of R s r code has
    have rewritten : R.rewrite r code = code.close := if_pos rfl
    have moves (a : Nat) : R.move r a = move a := if_pos rfl
    have stands : kept c.pc := hc.stands h.first here
    have closed : (@Code.moved R code.close).size = code.close.size := Array.size_map ..
    rw [rewritten] at there'
    refine ⟨fun none => ?_, fun i found => ?_, fun i found => ?_⟩
    · rw [here, there] at none
      rw [here, there', moves]
      have past := h.past (Array.getElem?_eq_none_iff.1 none)
      rw [← closed] at past
      exact Array.getElem?_eq_none past
    · rw [here, moves, moves]
      exact h.behind stands
    · rw [here, there] at found
      refine ⟨@Instruction.moved R (i.retarget move), ?_, ?_, fun plain => ?_, fun branch => ?_⟩
      · rw [here, there', moves, Code.moved_instructions, Array.getElem?_map, h.found stands found]
        rfl
      · exact i.retarget_op move
      · have same : i.retarget move = i := by simp [Instruction.retarget, Instruction.target?, plain]
        rw [same]
        rfl
      · obtain ⟨a, operand, within⟩ := aimed i (Array.mem_of_getElem? found) branch
        have target : i.target? = some a := by simp [Instruction.target?, branch, operand]
        have aim := h.target stands found target
        have moved : (@Instruction.moved R (i.retarget move)).operand = .address (R.move r a) := by
          rw [moves]
          simp [Instruction.retarget, target, Instruction.moved, Operand.moved]
        rw [operand, moved, here]
        refine Exec.Moves.of_within (by rw [there]; exact within) ?_
        rw [there', moves, closed]
        exact h.move_le aim within
  · have within := Relocation.sealing_within r h.start c.code here
    exact @Exec.Followed.of_stays R c s within.2 (within.1 _) (fun _ _ => within.1 _) fun _ a _ _ _ =>
      within.1 a

/-- The context that a step is taken in stays if what comes behind the instruction does. -/
theorem guided (h : Closing code code.close move kept) (aimed : code.Aimed)
    (has : s.codes[r.index]? = some code) (hc : c.Fixed (.keeping r kept))
    (next : ∀ i, (s.code c.code).instructions[c.pc]? = some i →
      (Relocation.keeping r kept).move c.code (c.pc + 1) = c.pc + 1) :
    @Exec.Followed (.keeping r kept) c s := by
  refine @Exec.Followed.of_stays (.keeping r kept) c s (fun _ => rfl) hc.pc next ?_
  intro i a found branch address
  by_cases here : c.code = r
  · obtain ⟨there, -⟩ := @Store.code_moved_of (.keeping r kept) s r code has
    rw [here, there] at found
    obtain ⟨a', operand, -⟩ := aimed i (Array.mem_of_getElem? found) branch
    rw [operand] at address
    cases address
    have aim := h.target (hc.stands h.first here) found
      (by simp [Instruction.target?, branch, operand] : i.target? = some a)
    exact if_neg fun out => out.2 aim
  · exact if_neg fun out => here out.1

/-- A step that is guided leads to a state that stays. -/
theorem lands_at (hw : w.Fixed D) (hs : s.Fixed D) (hc : c.Fixed D) (followed : @Exec.Followed D c s)
    {result : Except Fault Progress} (stepped : Exec.step c w s = (((result, c'), w'), s')) :
    Lands D result c' w' s' := by
  obtain ⟨there, -⟩ := @Exec.step_at D c s followed w
  simp only [Stateful.run, Relocatable.moved, stepped] at there
  rw [hc, hw, hs, stepped] at there
  simp only [Prod.mk.injEq] at there
  obtain ⟨result, context, world, store⟩ := there
  have context : c'.Fixed D := context.symm
  refine ⟨context.parked, ?_, world.symm, store.symm⟩
  rintro p rfl
  exact ⟨context, (Except.ok.inj result).symm⟩

/-- An instruction that is performed leads to a state that stays. -/
theorem lands_performed {i : Instruction} (found : (s.code c.code).instructions[c.pc]? = some i)
    (noCall : i.op ≠ .call) {done : Except Fault Unit}
    (performed : Exec.perform i { c with pc := c.pc + 1 } w s = (((done, c'), w'), s'))
    (parked : c'.parked.Fixed D) (goesOn : done = .ok () → c'.Fixed D) (hw : w'.Fixed D)
    (hs : s'.Fixed D) {c₁ : Context} {w₁ : World} {s₁ : Store} {result : Except Fault Progress}
    (stepped : Exec.step c w s = (((result, c₁), w₁), s₁)) : Lands D result c₁ w₁ s₁ := by
  cases done with
  | ok =>
    rw [Exec.step_ok found noCall performed] at stepped
    cases stepped
    refine ⟨parked, ?_, hw, hs⟩
    rintro _ ⟨⟩
    exact ⟨goesOn rfl, rfl⟩
  | error f =>
    rw [Exec.step_error found noCall performed] at stepped
    cases stepped
    refine ⟨parked, ?_, hw, hs⟩
    rintro _ ⟨⟩

/-- A transfer leads to a state that stays, wherever the next instruction goes. -/
theorem lands_transfer (hw : w.Fixed D) (hs : s.Fixed D) (hc : c.Fixed D) {i : Instruction}
    (found : (s.code c.code).instructions[c.pc]? = some i) (transfer : i.op.isTransfer = true)
    (target : i.op.isBranch = true → ∃ a, i.operand = .address a ∧ D.move c.code a = a)
    {result : Except Fault Progress} (stepped : Exec.step c w s = (((result, c'), w'), s')) :
    Lands D result c' w' s' := by
  have behind : ({ c with pc := c.pc + 1 } : Context).parked.Fixed D := hc.parked
  have noCall : i.op ≠ .call := by rintro call; rw [call] at transfer; cases transfer
  obtain ⟨op, operand⟩ := i
  cases op <;> cases transfer
  case branch =>
    obtain ⟨a, rfl, stays⟩ := target rfl
    have address := Exec.addressOf_run (.address a) { c with pc := c.pc + 1 } w s
    dsimp only [Operand.asAddress?] at address
    split at address
    · have there : ({ c with pc := a } : Context).Fixed D := by
        have same : ({ c.moved with pc := a } : Context) = { c with pc := a } := by rw [hc]
        refine Eq.trans ?_ same
        simp [Context.moved, stays]
      exact lands_performed found noCall (Exec.bind_of_ok address) there.parked (fun _ => there) hw hs
        stepped
    · exact lands_performed found noCall (Exec.bind_of_error address) behind (by rintro ⟨⟩) hw hs stepped
  case leave =>
    obtain ⟨done, c₁, c₂, here, there, parked, same⟩ :=
      Exec.leave_place (Exec.countOf operand 0) c (c.pc + 1) w s
    obtain ⟨blind, -⟩ := @Exec.leave_blind D (Exec.countOf operand 0) (c, w, s)
    simp only [Stateful.run, Relocatable.moved, here] at blind
    rw [hc, hw, hs, here] at blind
    simp only [Prod.mk.injEq] at blind
    have fixed : c₁.Fixed D := blind.2.1.symm
    refine lands_performed found noCall there (parked ▸ fixed.parked) (fun ok => ?_) hw hs stepped
    exact same ⟨(), ok⟩ ▸ fixed
  case stop =>
    exact lands_performed found noCall rfl behind (by rintro ⟨⟩) hw hs stepped

/-- A unit that is closed is guided by the addresses that are kept. -/
theorem guide (h : Closing code code.close move kept) (aimed : code.Aimed) :
    @Guide (.keeping r kept) (.sealing r move h.start) fun s => s.codes[r.index]? = some code := by
  let _ : Relocation := .sealing r move h.start
  refine ⟨?grows, ?beyond, fun has hc _ => h.followed aimed has hc, ?lands⟩
  case grows =>
    rintro s s' has ⟨more, grown⟩
    obtain ⟨inside, rfl⟩ := Array.getElem?_eq_some_iff.1 has
    rw [grown, Array.getElem?_append_left inside, has]
  case beyond =>
    intro s has
    exact ⟨(Array.getElem?_eq_some_iff.1 has).1, Nat.zero_le _⟩
  case lands =>
    intro c c' w w' s s' result has hc hw hs stepped
    by_cases next : ∀ i, (s.code c.code).instructions[c.pc]? = some i →
        (Relocation.keeping r kept).move c.code (c.pc + 1) = c.pc + 1
    · exact lands_at hw hs hc (h.guided aimed has hc next) stepped
    · -- Only behind a transfer is there an address that is not kept.
      push Not at next
      obtain ⟨i, found, leaves⟩ := next
      obtain ⟨here, out⟩ : c.code = r ∧ ¬kept (c.pc + 1) := by
        by_contra stays
        exact leaves (if_neg stays)
      obtain ⟨there, -⟩ := @Store.code_moved_of (.keeping r kept) s r code has
      have stands := hc.stands h.first here
      have found' := found
      rw [here, there] at found'
      have transfer : i.op.isTransfer = true := by
        by_contra plain
        exact out (h.next stands found' (Bool.eq_false_iff.2 plain))
      refine lands_transfer hw hs hc found transfer (fun branch => ?_) stepped
      obtain ⟨a, operand, -⟩ := aimed i (Array.mem_of_getElem? found') branch
      have aim := h.target stands found'
        (by simp [Instruction.target?, branch, operand] : i.target? = some a)
      exact ⟨a, operand, if_neg fun dropped => dropped.2 aim⟩

end Closing

/-!
## Sealed units run alike

A machine that runs a sealed unit is at every moment where a machine is that runs the unit as it
was, with the addresses of the unit moved along: in the program counter, in frames, and in the
handlers of protected blocks. Output, values, bindings and results are the same.

Main statements: `Machine.sealed_runs_alike`.
-/

/-! ## Machines that move -/

/-- A machine whose world, store and goroutines have moved. -/
@[simps] def Machine.moved [Relocation] (m : Machine) : Machine where
  world := m.world.moved
  store := m.store.moved
  goroutines := m.goroutines.map Thread.moved

/-- No address of a unit is in the machine. -/
def Machine.Avoids (m : Machine) (r : CodeRef) : Prop :=
  ∀ R : Relocation, R.Within r → @Machine.moved R m = m

/-- No address of a unit is among the operands. -/
def Code.Avoids (code : Code) (r : CodeRef) : Prop :=
  ∀ R : Relocation, R.Within r → @Code.moved R code = code

/-! ## Closed units -/

namespace Code

variable [Relocation]

theorem moved_eq_iff {code : Code} :
    code.moved = code ↔ ∀ i ∈ code.instructions, i.moved = i := by
  refine ⟨fun same i mem => ?_, fun stays => ?_⟩
  · obtain ⟨j, inside, rfl⟩ := Array.mem_iff_getElem.1 mem
    have there := congrArg (·.instructions[j]?) same
    simpa [inside] using there
  · have same : code.instructions.map Instruction.moved = code.instructions :=
      (Array.map_inj_left.2 stays).trans (Array.map_id _)
    cases code
    simpa [moved] using same

end Code

theorem Instruction.retarget_moved [Relocation] {i : Instruction} (stays : i.moved = i)
    (f : Nat → Nat) : (i.retarget f).moved = i.retarget f := by
  unfold retarget
  split
  · rfl
  · exact stays

/-- A unit that is closed has no address among its operands that it had not before. -/
theorem Code.Avoids.close {code : Code} {r : CodeRef} (h : code.Avoids r) : code.close.Avoids r := by
  intro R within
  have stays := (@Code.moved_eq_iff R code).1 (h R within)
  have trims := Code.trimFrom_keeps (P := fun c => ∀ i ∈ c.instructions, @Instruction.moved R i = i)
    (fun {c rest address} stays inside _ _ removed => by
      rw [remove, if_neg (by omega)] at removed
      cases removed
      simp only [Array.mem_map, forall_exists_index, and_imp, forall_apply_eq_imp_iff₂]
      intro i mem
      unfold Array.eraseIdxIfInBounds at mem
      split at mem
      · exact @Instruction.retarget_moved R i (stays i (Array.mem_of_mem_eraseIdx mem)) _
      · exact @Instruction.retarget_moved R i (stays i mem) _)
    stays code.size 0
  refine (@Code.moved_eq_iff R _).2 ?_
  unfold Code.close
  split
  · exact stays
  · exact trims

/-! ## Starting with a unit -/

/-- A new unit that may be rewritten. -/
theorem Store.newCode_rewritten [Relocation] (s : Store) (code : Code) : (s.newCode code).2.moved =
    (s.moved.newCode (Relocation.rewrite ⟨s.codes.size⟩ code).moved).2 := by
  simp [newCode, moved, Array.mapIdx_push]

theorem Store.newCode_codes (s : Store) (code : Code) :
    (s.newCode code).2.codes[s.codes.size]? = some code := by
  simp [newCode]

namespace Machine

variable {m : Machine}

/-- A machine in which nothing is known of the new unit starts with it where it starts with the unit
as it was. -/
theorem context_rewritten (R : Relocation) (old : m.Avoids ⟨m.store.codes.size⟩)
    (within : R.Within ⟨m.store.codes.size⟩) (code : Code) (table : TableRef) :
    m.context (@Code.moved R (R.rewrite ⟨m.store.codes.size⟩ code)) table =
      (@Context.moved R (m.context code table).1, @Machine.moved R (m.context code table).2) := by
  have stays := old R within
  have store : @Store.moved R m.store = m.store := congrArg Machine.store stays
  have added := @Store.newCode_rewritten R m.store code
  rw [store] at added
  refine Prod.ext ?_ ?_
  · exact (congrArg (Context.new · _ _ table) added.symm).trans (@Context.new_moved R ..)
  · simp only [context, Machine.moved, added]
    rw [show @World.moved R m.world = m.world from congrArg Machine.world stays,
      show m.goroutines.map (@Thread.moved R) = m.goroutines from congrArg Machine.goroutines stays]

end Machine

/-! ## New machines -/

namespace Store

variable [Relocation]

theorem bindBuiltin_moved (s : Store) (root : TableRef) (name : String) {v : Value}
    (stays : v.moved = v) :
    (s.bindBuiltin root name v).moved = s.moved.bindBuiltin root name v := by
  refine (s.modifyTable_moved (fun t => ?_) root).symm
  have bound := t.bind_moved name { value := v, readonly := true }
  rwa [Binding.moved, stays] at bound

theorem packageMembers_moved (package : String) :
    Association.mapValues Value.moved (packageMembers package) = packageMembers package := by
  refine (List.map_inj_left (g := id)).2 (fun e mem => ?_) |>.trans (List.map_id _)
  unfold packageMembers at mem
  rcases List.mem_append.1 mem with value | function
  · split at value
    · simp only [List.mem_cons, List.not_mem_nil, or_false] at value
      rcases value with rfl | rfl <;> rfl
    · simp only [List.mem_cons, List.not_mem_nil, or_false] at value
      rcases value with rfl | rfl <;> rfl
    · cases value
  · obtain ⟨f, -, here⟩ := List.mem_filterMap.1 function
    split at here
    · split at here <;> cases here
      rfl
    · cases here

theorem bindPackage_moved (s : Store) (root : TableRef) (package : String) :
    (s.bindPackage root package).moved = s.moved.bindPackage root package := by
  have added := s.newStruct_moved { StructObject.ofPackage package with fields := packageMembers package }
  simp only [StructObject.moved, packageMembers_moved] at added
  unfold bindPackage
  simp only [added]
  exact bindBuiltin_moved _ root package rfl

theorem foldl_moved {α : Type} {f : Store → α → Store} (h : ∀ s a, (f s a).moved = f s.moved a)
    (items : List α) (s : Store) : (items.foldl f s).moved = items.foldl f s.moved := by
  induction items generalizing s with
  | nil => rfl
  | cons a rest ih => rw [List.foldl_cons, ih, h, List.foldl_cons]

theorem bindBuiltins_moved (s : Store) (root : TableRef) :
    (s.bindBuiltins root).moved = s.moved.bindBuiltins root := by
  have functions (s : Store) (f : Native) :
      (s.bindBuiltin root f.name (.native f)).moved = s.moved.bindBuiltin root f.name (.native f) :=
    s.bindBuiltin_moved root f.name rfl
  unfold bindBuiltins
  rw [foldl_moved fun s package => s.bindPackage_moved root package, foldl_moved functions,
    foldl_moved fun s name => ?_]
  split
  · exact s.bindBuiltin_moved root name rfl
  · rfl

end Store

/-- There are no addresses in a new machine. -/
theorem Machine.new_avoids (settings : Settings) (r : CodeRef) : (Machine.new settings).Avoids r := by
  intro R _
  have root : @Store.moved R (({} : Store).newRoot "root").2 = (({} : Store).newRoot "root").2 := by
    simp [Store.moved, Store.newRoot, Store.newTable, Table.moved]
  have store : @Store.moved R (World.new settings).2 = (World.new settings).2 := by
    exact (@Store.bindBuiltins_moved R _ _).trans (congrArg (Store.bindBuiltins · _) root)
  simp [Machine.new, Machine.moved, store]
  rfl

/-! ## Running a sealed unit -/

/-- A run on a machine that is guided. -/
theorem Guide.runContext {D : Relocation} [Relocation] {Has : Store → Prop} (g : Guide D Has)
    {m : Machine} {c : Context} (has : Has m.store) (hc : c.started.Fixed D) (hw : m.world.Fixed D)
    (hs : m.store.Fixed D) (hts : ∀ t ∈ m.goroutines, t.Live D) {result : Except Fault Unit}
    {c' : Context} {m' : Machine} (ran : m.runContext c = (result, c', m')) :
    m.moved.runContext c.moved = (result, c'.moved, m'.moved) := by
  have live : Thread.Live D { context := c.started } := ⟨hc, fun _ mem => absurd mem List.not_mem_nil⟩
  have started : ({ context := c.started } : Thread).moved = { context := c.moved.started } := rfl
  rcases turns : Machine.runBeside roundLimit { context := c.started } m.goroutines m.world m.store
    with ⟨result₁, c₁, ts₁, w₁, s₁⟩
  have there := g.runBeside roundLimit has live hts hw hs turns
  rw [started] at there
  simp only [Machine.runContext, turns, Prod.mk.injEq] at ran
  obtain ⟨rfl, rfl, rfl⟩ := ran
  simp only [Machine.runContext, Machine.moved, there]

/-- What is run on the second machine is at every moment where what is run on the first one has moved
to: only the program counter, the addresses in frames and those of handlers are others. While it
runs, it stands at an address of the unit that is kept. -/
structure RunAlike [Relocation] (r : CodeRef) (kept : Nat → Prop) (a b : Context × Machine) :
    Prop where
  starts : b = (a.1.moved, a.2.moved)
  runs : ∀ {steps signal left c w s},
    a.1.started.run steps a.2.world a.2.store = (signal, left, c, w, s) →
      b.1.started.run steps b.2.world b.2.store = (signal.moved, left, c.moved, w.moved, s.moved) ∧
        (signal = .runs → c.code = r → kept c.pc)
  ends : ∀ {result c m}, a.2.runContext a.1 = (result, c, m) →
    b.2.runContext b.1 = (result, c.moved, m.moved)

/-- A sealed unit runs as the unit did, wherever it stood in the machine. -/
theorem Closing.run_alike {code : Code} {move : Nat → Nat} {kept : Nat → Prop}
    (h : Closing code code.close move kept) (aimed : code.Aimed) {m : Machine}
    (old : m.Avoids ⟨m.store.codes.size⟩) (fresh : code.Avoids ⟨m.store.codes.size⟩)
    (table : TableRef) :
    @RunAlike (.sealing ⟨m.store.codes.size⟩ move h.start) ⟨m.store.codes.size⟩ kept
      (m.context code table) (m.context code.close table) := by
  let r : CodeRef := ⟨m.store.codes.size⟩
  let D : Relocation := .keeping r kept
  let R : Relocation := .sealing r move h.start
  have starts : m.context code.close table =
      (@Context.moved R (m.context code table).1, @Machine.moved R (m.context code table).2) := by
    have rewritten := Machine.context_rewritten R old (Relocation.sealing_within r h.start) code table
    have closed : R.rewrite r code = code.close := if_pos rfl
    rwa [closed, fresh.close R (Relocation.sealing_within r h.start)] at rewritten
  have stays : m.context code table =
      (@Context.moved D (m.context code table).1, @Machine.moved D (m.context code table).2) := by
    have rewritten := Machine.context_rewritten D old (Relocation.keeping_within r kept) code table
    rwa [show @Code.moved D (D.rewrite r code) = code from
      fresh D (Relocation.keeping_within r kept)] at rewritten
  have has : (m.context code table).2.store.codes[r.index]? = some code := m.store.newCode_codes code
  rcases started : m.context code table with ⟨c, m₁⟩
  rw [started] at starts stays has
  obtain ⟨context, machine⟩ := Prod.mk.inj stays
  have hc : c.started.Fixed D := congrArg Context.started context.symm
  have hw : m₁.world.Fixed D := (congrArg Machine.world machine).symm
  have hs : m₁.store.Fixed D := (congrArg Machine.store machine).symm
  have hts : ∀ t ∈ m₁.goroutines, t.Live D := by
    have same := (congrArg Machine.goroutines machine).symm
    exact fun t mem => .of_moved (List.map_inj_left.1 (same.trans (List.map_id _).symm) t mem)
  have guide := h.guide (r := r) aimed
  rw [starts]
  refine ⟨rfl, fun {steps signal left c' w s} ran => ?_, fun {result c' m'} ran => ?_⟩
  · obtain ⟨ran', standing, -⟩ := guide.run steps has hc hw hs ran
    refine ⟨ran', ?_⟩
    rintro rfl here
    exact standing.stands h.first here
  · exact guide.runContext has hc hw hs hts ran

/-- A sealed unit runs on a machine to which it is new as the unit does. -/
theorem Machine.sealed_runs_alike (m : Machine) (code : Code) (table : TableRef)
    (aimed : code.Aimed) (old : m.Avoids ⟨m.store.codes.size⟩)
    (fresh : code.Avoids ⟨m.store.codes.size⟩) :
    ∃ move kept, ∃ h : Closing code code.close move kept,
      @RunAlike (.sealing ⟨m.store.codes.size⟩ move h.start) ⟨m.store.codes.size⟩ kept
        (m.context code table) (m.context code.close table) :=
  let ⟨move, kept, h⟩ := Closing.close code
  ⟨move, kept, h, h.run_alike aimed old fresh table⟩

/-- A unit of which sealing deletes the instruction behind the branch. -/
def Code.leaping : Code where
  name := "leaping"
  instructions := #[⟨.branch, .address 2⟩, ⟨.newline, .none⟩, ⟨.say, .none⟩]

example : Code.leaping.close.size = 2 := by decide +kernel

theorem Machine.leaping_runs_alike : Code.leaping.Aimed ∧
    (Machine.new {}).Avoids ⟨(Machine.new {}).store.codes.size⟩ ∧
    Code.leaping.Avoids ⟨(Machine.new {}).store.codes.size⟩ ∧
    ∃ move kept, ∃ h : Closing Code.leaping Code.leaping.close move kept,
      @RunAlike (.sealing ⟨(Machine.new {}).store.codes.size⟩ move h.start)
        ⟨(Machine.new {}).store.codes.size⟩ kept
        ((Machine.new {}).context Code.leaping (Machine.new {}).root)
        ((Machine.new {}).context Code.leaping.close (Machine.new {}).root) := by
  have aimed : Code.leaping.Aimed := by
    intro i mem branch
    simp only [Code.leaping, List.mem_toArray, List.mem_cons, List.not_mem_nil, or_false] at mem
    rcases mem with rfl | rfl | rfl
    · exact ⟨2, rfl, by decide⟩
    · cases branch
    · cases branch
  have fresh : Code.leaping.Avoids ⟨(Machine.new {}).store.codes.size⟩ := fun R _ => by
    simp [Code.leaping, Code.moved, Instruction.moved, Operand.moved]
  exact ⟨aimed, Machine.new_avoids {} _, fresh,
    Machine.sealed_runs_alike _ _ _ aimed (Machine.new_avoids {} _) fresh⟩

end StackScript
