import StackScript.Proofs.Balance.Points
import StackScript.Proofs.Settling.Code

/-!
# Plans of code

A plan gives a spot to every address of code: the points that may be come to there. Code follows a
plan if every instruction leads from its spot to the next one and to that of its target, but for
branches that wait for their targets: of those it is known which points they lead to. Code is laid
out when it follows some plan that has certain spots at certain addresses, and a known one at its
end.

Main statements: `Code.Laid.emit`, `Code.Laid.patch`, `Code.Laid.append` and `Code.Laid.requestAll`
(what becomes of code that is laid out), `Code.Carries.withoutCall`, and `Code.Carries.close_balanced`
(code that leads from its start to its end is balanced when it is sealed).
-/
namespace StackScript

/-- Addresses with spots. -/
abbrev Spots := Set (Nat × Spot)

/-- The spot at the target of a branch. -/
def Instruction.aim (i : Instruction) (plan : Nat → Spot) : Spot :=
  match i.target? with
  | some target => plan target
  | none => ∅

/-- Every instruction leads where the plan says, or waits for a target and leads where it is said
that it will. No call has more arguments than are allowed. -/
structure Code.Follows (most : Nat) (code : Code) (plan : Nat → Spot) (waiting : Spots) : Prop where
  within : ∀ a, code.size < a → plan a = ∅
  goes : ∀ (a : Nat) (i : Instruction), code.instructions[a]? = some i →
    (∃ ρ, (a, ρ) ∈ waiting) ∨ i.Goes (plan a) (plan (a + 1)) (i.aim plan)
  waits : ∀ (a : Nat) (ρ : Spot), (a, ρ) ∈ waiting → ∃ i, code.instructions[a]? = some i ∧
    i.op.isBranch = true ∧ i.Goes (plan a) (plan (a + 1)) ρ
  callable : ∀ i ∈ code.instructions, i.op = .call → i.operand.Callable most

/-- Code follows a plan with certain spots at certain addresses and a known one at its end. -/
def Code.Laid (most : Nat) (marks waiting : Spots) (σ : Spot) (code : Code) : Prop :=
  ∃ plan, code.Follows most plan waiting ∧ (∀ a ρ, (a, ρ) ∈ marks → a ≤ code.size ∧ ρ ⊆ plan a) ∧
    plan code.size = σ

/-- From a spot at its start code leads to one at its end. -/
def Code.Carries (most : Nat) (σ σ' : Spot) (code : Code) : Prop := code.Laid most {(0, σ)} ∅ σ'

namespace Instruction

variable {i : Instruction} {pre next taken : Spot} {plan plan' : Nat → Spot} {most : Nat}

theorem aim_mono (h : ∀ a, plan a ⊆ plan' a) : i.aim plan ⊆ i.aim plan' := by
  unfold aim
  split
  · exact h _
  · exact subset_rfl

/-- Where a branch leads does not depend on its operand. -/
theorem Goes.retarget (h : i.Goes pre next taken) (f : Nat → Nat) :
    (i.retarget f).Goes pre next taken := by
  obtain ⟨op, operand⟩ := i
  cases operand with
  | address target =>
    cases op <;> first | exact h | exact fun p mem =>
      ⟨⟨_, rfl⟩, (h p mem).2⟩ | exact fun p mem => ⟨⟨(h p mem).1.1, _, rfl⟩, (h p mem).2⟩
  | _ => cases op <;> exact h

theorem Goes.readdress (h : i.Goes pre next taken) (branch : i.op.isBranch = true) (target : Nat) :
    Goes { i with operand := .address target } pre next taken := by
  obtain ⟨op, operand⟩ := i
  cases op <;> cases branch
  · exact fun p mem => ⟨⟨(h p mem).1.1, target, rfl⟩, (h p mem).2⟩
  all_goals exact fun p mem => ⟨⟨target, rfl⟩, (h p mem).2⟩

theorem aim_retarget (i : Instruction) (f : Nat → Nat) (plan : Nat → Spot) :
    (i.retarget f).aim plan = i.aim fun a => plan (f a) := by
  unfold aim
  rw [target?_retarget]
  cases i.target? <;> rfl

theorem retarget_callable {f : Nat → Nat} (h : i.op = .call → i.operand.Callable most)
    (call : (i.retarget f).op = .call) : (i.retarget f).operand.Callable most := by
  rw [retarget_op] at call
  have same : i.retarget f = i := by simp [Instruction.retarget, target?, call, Opcode.isBranch]
  rw [same]
  exact h call

end Instruction

namespace Code.Follows

variable {code : Code} {plan plan' : Nat → Spot} {waiting : Spots} {most : Nat}

/-- At the end of code more may be come to. -/
theorem widen (h : code.Follows most plan waiting) {σ : Spot} (more : plan code.size ⊆ σ) :
    code.Follows most (Function.update plan code.size σ) waiting := by
  have grows (a : Nat) : plan a ⊆ Function.update plan code.size σ a := by
    rcases eq_or_ne a code.size with rfl | other
    · rwa [Function.update_self]
    · rw [Function.update_of_ne other]
  have before {a : Nat} (inside : a < code.size) : Function.update plan code.size σ a = plan a :=
    Function.update_of_ne inside.ne ..
  refine ⟨fun a behind => ?_, fun a i found => ?_, fun a ρ waits => ?_, h.callable⟩
  · rw [Function.update_of_ne behind.ne']
    exact h.within a behind
  · rw [before (Array.getElem?_eq_some_iff.1 found).1]
    exact (h.goes a i found).imp_right fun goes =>
      goes.mono subset_rfl (grows _) (Instruction.aim_mono grows)
  · obtain ⟨i, found, branch, goes⟩ := h.waits a ρ waits
    rw [before (Array.getElem?_eq_some_iff.1 found).1]
    exact ⟨i, found, branch, goes.mono subset_rfl (grows _) subset_rfl⟩

/-- Where no branch waits, every instruction leads where the plan says. -/
theorem leads (h : code.Follows most plan ∅) {i : Instruction} (found : code.instructions[a]? = some i) :
    i.Goes (plan a) (plan (a + 1)) (i.aim plan) :=
  (h.goes a i found).resolve_left (not_exists.2 fun _ => Set.notMem_empty _)

/-- What is added at the end leads where the plan says, or waits for its target. -/
theorem push (h : code.Follows most plan waiting) {i : Instruction} {σ taken : Spot} {waiting' : Spots}
    (goes : i.Goes (plan code.size) σ taken)
    (waits : ∀ x ∈ waiting', x ∈ waiting ∨ i.op.isBranch = true ∧ x = (code.size, taken))
    (more : waiting ⊆ waiting')
    (lands : (code.size, taken) ∈ waiting' ∨ taken ⊆ i.aim plan)
    (callable : i.op = .call → i.operand.Callable most) :
    (code.push i).Follows most (Function.update plan (code.size + 1) σ) waiting' := by
  have grows (a : Nat) : plan a ⊆ Function.update plan (code.size + 1) σ a := by
    rcases eq_or_ne a (code.size + 1) with rfl | other
    · rw [h.within _ (Nat.lt_succ_self _)]
      exact Set.empty_subset _
    · rw [Function.update_of_ne other]
  have before {a : Nat} (inside : a ≤ code.size) :
      Function.update plan (code.size + 1) σ a = plan a :=
    Function.update_of_ne (Nat.lt_succ_of_le inside).ne ..
  have size : (code.push i).size = code.size + 1 := Code.size_push code i
  have old {a : Nat} {j : Instruction} (found : code.instructions[a]? = some j) :
      (code.push i).instructions[a]? = some j := by
    rw [Code.push, Array.getElem?_push, if_neg (Array.getElem?_eq_some_iff.1 found).1.ne, found]
  have last : (code.push i).instructions[code.size]? = some i := by
    simp [Code.push, Code.size]
  refine ⟨fun a behind => ?_, fun a j found => ?_, fun a ρ mem => ?_, fun j mem => ?_⟩
  · rw [size] at behind
    rw [Function.update_of_ne behind.ne']
    exact h.within a (Nat.lt_of_succ_lt behind)
  · rw [Code.push, Array.getElem?_push] at found
    split at found
    · next here =>
      cases found
      obtain rfl : a = code.size := here
      refine lands.imp (fun waits => ⟨_, waits⟩) fun lands => ?_
      rw [before (Nat.le_refl _), Function.update_self]
      exact goes.mono subset_rfl subset_rfl (lands.trans (Instruction.aim_mono grows))
    · have inside : a < code.size := (Array.getElem?_eq_some_iff.1 found).1
      rw [before inside.le, before inside]
      exact (h.goes a j found).imp (Exists.imp fun _ waits => more waits) fun goes =>
        goes.mono subset_rfl subset_rfl (Instruction.aim_mono grows)
  · obtain old' | ⟨branch, same⟩ := waits _ mem
    · obtain ⟨j, found, branch, goes⟩ := h.waits a ρ old'
      have inside : a < code.size := (Array.getElem?_eq_some_iff.1 found).1
      rw [before inside.le, before inside]
      exact ⟨j, old found, branch, goes⟩
    · cases same
      rw [before (Nat.le_refl _), Function.update_self]
      exact ⟨i, last, branch, goes⟩
  · rw [Code.push] at mem
    obtain mem | rfl := Array.mem_push.1 mem
    · exact h.callable j mem
    · exact callable

end Code.Follows

namespace Code.Laid

variable {code code' : Code} {marks waiting : Spots} {σ σ' ρ taken : Spot} {a most : Nat}

/-- Code without instructions. -/
theorem empty (none : code.instructions = #[]) : code.Laid most {(0, σ)} ∅ σ := by
  have size : code.size = 0 := by simp [Code.size, none]
  refine ⟨fun a => if a = 0 then σ else ∅, ⟨fun a behind => if_neg (by omega), ?_,
    fun _ _ mem => absurd mem (Set.notMem_empty _), ?_⟩, fun a ρ mem => ?_, if_pos size⟩
  · intro a i found
    simp [none] at found
  · intro i mem
    simp [none] at mem
  · cases mem
    exact ⟨size.ge, by simp⟩

/-- Only the instructions matter. -/
theorem of_same (h : code.Laid most marks waiting σ) (same : code'.instructions = code.instructions) :
    code'.Laid most marks waiting σ := by
  obtain ⟨plan, ⟨within, goes, waits, callable⟩, there, here⟩ := h
  have size : code'.size = code.size := congrArg Array.size same
  refine ⟨plan, ⟨fun a => size ▸ within a, ?_, ?_, ?_⟩, fun a ρ => size ▸ there a ρ, size ▸ here⟩ <;>
    rw [same]
  · exact goes
  · exact waits
  · exact callable

/-- Less may be known of what was passed, and more may be come to at the end. -/
theorem mono (h : code.Laid most marks waiting σ) {marks' : Spots} (fewer : marks' ⊆ marks)
    (more : σ ⊆ σ') : code.Laid most marks' waiting σ' := by
  obtain ⟨plan, follows, there, rfl⟩ := h
  refine ⟨_, follows.widen more, fun a ρ mem => ?_, Function.update_self ..⟩
  obtain ⟨le, known⟩ := there a ρ (fewer mem)
  refine ⟨le, known.trans ?_⟩
  rcases eq_or_ne a code.size with rfl | other
  · rwa [Function.update_self]
  · rw [Function.update_of_ne other]

/-- The end may be come back to. -/
theorem mark (h : code.Laid most marks waiting σ) :
    code.Laid most (insert (code.size, σ) marks) waiting σ := by
  obtain ⟨plan, follows, there, here⟩ := h
  refine ⟨plan, follows, fun a ρ mem => ?_, here⟩
  rcases mem with same | mem
  · cases same
    exact ⟨Nat.le_refl _, here.ge⟩
  · exact there a ρ mem

/-- An instruction behind code. -/
theorem push (h : code.Laid most marks waiting σ) {i : Instruction} {waiting' : Spots}
    (goes : i.Goes σ σ' taken)
    (waits : ∀ x ∈ waiting', x ∈ waiting ∨ i.op.isBranch = true ∧ x = (code.size, taken))
    (more : waiting ⊆ waiting')
    (lands : (code.size, taken) ∈ waiting' ∨ taken = ∅ ∨
      ∃ target ρ, i.target? = some target ∧ (target, ρ) ∈ marks ∧ taken ⊆ ρ)
    (callable : i.op = .call → i.operand.Callable most) :
    (code.push i).Laid most marks waiting' σ' := by
  obtain ⟨plan, follows, there, rfl⟩ := h
  refine ⟨_, follows.push goes waits more (lands.imp_right ?_) callable, fun a ρ mem => ?_, ?_⟩
  · rintro (rfl | ⟨target, ρ, aimed, mem, within⟩)
    · exact Set.empty_subset _
    · rw [Instruction.aim, aimed]
      exact within.trans (there target ρ mem).2
  · obtain ⟨le, known⟩ := there a ρ mem
    rw [Code.size_push, Function.update_of_ne (Nat.lt_succ_of_le le).ne]
    exact ⟨Nat.le_succ_of_le le, known⟩
  · rw [Code.size_push, Function.update_self]

/-- An instruction that does not branch. -/
theorem emit (h : code.Laid most marks waiting σ) {i : Instruction} (goes : i.Goes σ σ' ∅)
    (callable : i.op = .call → i.operand.Callable most) : (code.push i).Laid most marks waiting σ' :=
  h.push goes (fun _ => .inl) subset_rfl (.inr (.inl rfl)) callable

/-- A branch that waits for its target. -/
theorem await (h : code.Laid most marks waiting σ) {i : Instruction} (branch : i.op.isBranch = true)
    (goes : i.Goes σ σ' ρ) : (code.push i).Laid most marks (insert (code.size, ρ) waiting) σ' := by
  refine h.push goes ?_ (Set.subset_insert _ _) (.inl (Set.mem_insert _ _)) fun call => ?_
  · rintro x (rfl | mem)
    · exact .inr ⟨branch, rfl⟩
    · exact .inl mem
  · rw [call] at branch
    cases branch

/-- A branch back to what was passed. -/
theorem back (h : code.Laid most marks waiting σ) {i : Instruction} {target : Nat}
    (aimed : i.target? = some target) (goes : i.Goes σ σ' taken) (mem : (target, ρ) ∈ marks)
    (within : taken ⊆ ρ) : (code.push i).Laid most marks waiting σ' := by
  refine h.push goes (fun _ => .inl) subset_rfl (.inr (.inr ⟨target, ρ, aimed, mem, within⟩))
    fun call => ?_
  simp [Instruction.target?, call, Opcode.isBranch] at aimed

/-- A branch that gets its target waits no longer. It leads to what was passed, or to the end. -/
theorem patch (h : code.Laid most marks (insert (a, ρ) waiting) σ) {target : Nat}
    (lands : (∃ ρ', (target, ρ') ∈ marks ∧ ρ ⊆ ρ') ∨ target = code.size ∧ ρ ⊆ σ)
    (patched : code.setAddress a target = .ok code') : code'.Laid most marks waiting σ := by
  obtain ⟨plan, follows, there, rfl⟩ := h
  have leads : ρ ⊆ plan target := by
    rcases lands with ⟨ρ', mem, within⟩ | ⟨rfl, within⟩
    · exact within.trans (there target ρ' mem).2
    · exact within
  obtain ⟨branching, found, branch, goes⟩ := follows.waits a ρ (Set.mem_insert _ _)
  unfold Code.setAddress at patched
  split at patched
  · cases patched
  cases patched
  set f : Instruction → Instruction := fun i => { i with operand := .address target } with readdressed
  have size : (code.instructions.modify a f).size = code.size := Array.size_modify ..
  -- what stands at an address now, and what stood there before
  have get (b : Nat) : (code.instructions.modify a f)[b]? =
      if a = b then some (f branching) else code.instructions[b]? := by
    rw [Array.getElem?_modify]
    split
    · next same => rw [← same, found]; rfl
    · rfl
  refine ⟨plan, ⟨fun b behind => follows.within b (size ▸ behind), fun b i stands => ?_,
    fun b ρ' waits => ?_, fun i mem call => ?_⟩, fun b ρ' mem => ?_, congrArg plan size⟩
  · rw [get] at stands
    split at stands
    · next same =>
      cases stands
      cases same
      refine .inr ((goes.readdress branch target).mono subset_rfl subset_rfl ?_)
      rw [Instruction.aim, Instruction.target?, show (f branching).op.isBranch = true from branch]
      exact leads
    · next other =>
      refine (follows.goes b i stands).imp_left (Exists.imp fun ρ' mem => ?_)
      exact (Set.mem_insert_iff.1 mem).resolve_left fun same => other (congrArg Prod.fst same).symm
  · obtain ⟨i, stood, branch', goes'⟩ := follows.waits b ρ' (Set.mem_insert_of_mem _ waits)
    rw [get]
    split
    · next same =>
      cases same
      cases found.symm.trans stood
      exact ⟨_, rfl, branch', goes'.readdress branch' target⟩
    · exact ⟨i, stood, branch', goes'⟩
  · obtain ⟨b, stands⟩ := Array.getElem?_of_mem mem
    rw [get] at stands
    split at stands
    · cases stands
      rw [show (f branching).op = branching.op from rfl] at call
      rw [call] at branch
      cases branch
    · exact follows.callable i (Array.mem_of_getElem? stands) call
  · exact ⟨(there b ρ' mem).1.trans_eq size.symm, (there b ρ' mem).2⟩

/-- Code behind other code. -/
theorem append {other : Code} {fewer : Nat} (h : code.Laid most marks waiting σ)
    (follows : other.Carries fewer σ σ') (few : fewer ≤ most)
    (joined : code.append other = .ok code') : code'.Laid most marks waiting σ' := by
  obtain ⟨plan', behind, there', rfl⟩ := follows
  -- more may come to where the other code starts
  have starts := (there' 0 σ (Set.mem_singleton _)).2
  obtain ⟨plan, before, there, here⟩ := h.mono subset_rfl starts
  have instructions := Code.append_instructions joined
  have size : code'.size = code.size + other.size := by simp [Code.size, instructions]
  set whole : Nat → Spot := fun a => if a ≤ code.size then plan a else plan' (a - code.size)
  have early {a : Nat} (le : a ≤ code.size) : whole a = plan a := if_pos le
  have late (a : Nat) : whole (a + code.size) = plan' a := by
    rcases Nat.eq_zero_or_pos a with rfl | positive
    · rw [Nat.zero_add, early (Nat.le_refl _), here]
    · exact (if_neg (by omega)).trans (congrArg plan' (Nat.add_sub_cancel a _))
  have grows (a : Nat) : plan a ⊆ whole a := by
    rcases Nat.lt_or_ge code.size a with beyond | le
    · rw [before.within a beyond]
      exact Set.empty_subset _
    · rw [early le]
  have old {a : Nat} {i : Instruction} (found : code.instructions[a]? = some i) :
      code'.instructions[a]? = some i := by
    rw [instructions, Array.getElem?_append_left (Array.getElem?_eq_some_iff.1 found).1, found]
  refine ⟨whole, ⟨fun a beyond => ?_, fun a i found => ?_, fun a ρ waits => ?_, fun i mem call => ?_⟩,
    fun a ρ mem => ?_, ?_⟩
  · obtain ⟨b, rfl⟩ : ∃ b, a = b + code.size := ⟨a - code.size, by omega⟩
    rw [late]
    exact behind.within b (by omega)
  · rw [instructions, Array.getElem?_append] at found
    split at found
    · next inside =>
      have inside : a < code.size := inside
      rw [early inside.le, early inside]
      exact (before.goes a i found).imp_right fun goes =>
        goes.mono subset_rfl subset_rfl (Instruction.aim_mono grows)
    · next outside =>
      obtain ⟨b, rfl⟩ : ∃ b, a = b + code.size :=
        ⟨a - code.size, (Nat.sub_add_cancel (Nat.le_of_not_lt outside)).symm⟩
      rw [show b + code.size - code.instructions.size = b from Nat.add_sub_cancel .., Array.getElem?_map,
        Option.map_eq_some_iff] at found
      obtain ⟨j, found, rfl⟩ := found
      have goes := behind.leads found
      rw [Nat.add_right_comm, late, late]
      refine .inr ((goes.retarget _).mono subset_rfl subset_rfl ?_)
      rw [Instruction.aim_retarget]
      exact Instruction.aim_mono fun a => (late a).ge
  · obtain ⟨i, found, branch, goes⟩ := before.waits a ρ waits
    have inside : a < code.size := (Array.getElem?_eq_some_iff.1 found).1
    rw [early inside.le, early inside]
    exact ⟨i, old found, branch, goes⟩
  · rw [instructions, Array.mem_append, Array.mem_map] at mem
    obtain mem | ⟨j, mem, rfl⟩ := mem
    · exact before.callable i mem call
    · exact Instruction.retarget_callable (fun call => (behind.callable j mem call).mono few) call
  · obtain ⟨le, known⟩ := there a ρ mem
    exact ⟨by omega, known.trans (grows a)⟩
  · rw [size, Nat.add_comm, late]

/-- The call at the end of code may be asked for every result. -/
theorem requestAll (h : code.Laid most marks waiting (.above 1 σ)) {i : Instruction}
    (last : code.instructions.back? = some i) (call : i.op = .call)
    (asked : code.emitAt (code.size - 1) .call i.operand.everyResult = .ok code') :
    code'.Laid most marks waiting (.given true σ) := by
  obtain ⟨plan, follows, there, here⟩ := h
  obtain ⟨op, operand⟩ := i
  obtain rfl : op = .call := call
  rw [Array.back?_eq_getElem?] at last
  obtain ⟨n, length⟩ : ∃ n, code.size = n + 1 :=
    ⟨code.size - 1, by have := (Array.getElem?_eq_some_iff.1 last).1; unfold Code.size; omega⟩
  rw [show code.instructions.size - 1 = n from Nat.sub_eq_of_eq_add length] at last
  rw [length, Nat.add_sub_cancel] at asked
  -- a call waits for no target
  have settled {ρ : Spot} (waits : (n, ρ) ∈ waiting) : False := by
    obtain ⟨j, found, branch, -⟩ := follows.waits _ _ waits
    cases found.symm.trans last
    cases branch
  have callable := follows.callable _ (Array.mem_of_getElem? last) rfl
  have goes := (follows.goes n _ last).resolve_left fun ⟨_, waits⟩ => settled waits
  rw [← length, here] at goes
  have more : plan code.size ⊆ .given true σ := here ▸ Spot.above_subset_given true
  have wide := follows.widen more
  set plan' := Function.update plan code.size (.given true σ)
  have last' : plan' code.size = .given true σ := Function.update_self ..
  have before : plan' n = plan n := Function.update_of_ne (by omega) ..
  have there' (a : Nat) (ρ : Spot) (mem : (a, ρ) ∈ marks) : a ≤ code.size ∧ ρ ⊆ plan' a := by
    refine (there a ρ mem).imp_right fun known => known.trans ?_
    rcases eq_or_ne a code.size with rfl | other
    · rwa [last']
    · exact (Function.update_of_ne other ..).ge
  unfold Code.emitAt at asked
  split at asked
  · cases asked
  split at asked
  · cases asked
  cases asked
  set every : Instruction := ⟨.call, operand.everyResult⟩
  have size : (code.instructions.setIfInBounds n every).size = code.size :=
    Array.size_setIfInBounds ..
  have get (b : Nat) : (code.instructions.setIfInBounds n every)[b]? =
      if n = b then some every else code.instructions[b]? := by
    have within : n < code.instructions.size := (Nat.lt_succ_self n).trans_eq length.symm
    rw [Array.getElem?_setIfInBounds, if_pos within]
  refine ⟨plan', ⟨fun b behind => wide.within b (size ▸ behind), fun b j stands => ?_,
    fun b ρ waits => ?_, fun j mem calls => ?_⟩, fun b ρ mem => ?_, (congrArg plan' size).trans last'⟩
  · rw [get] at stands
    split at stands
    · next same =>
      cases stands
      cases same
      rw [before, ← length, last']
      exact .inr goes.multiple
    · exact wide.goes b j stands
  · obtain ⟨j, found, branch, goes⟩ := wide.waits b ρ waits
    rw [get, if_neg fun same => settled (same ▸ waits)]
    exact ⟨j, found, branch, goes⟩
  · obtain ⟨b, stands⟩ := Array.getElem?_of_mem mem
    rw [get] at stands
    split at stands
    · cases stands
      exact callable.everyResult
    · exact follows.callable j (Array.mem_of_getElem? stands) calls
  · exact ⟨(there' b ρ mem).1.trans_eq size.symm, (there' b ρ mem).2⟩

end Code.Laid

namespace Code.Carries

variable {code code' : Code} {σ σ' : Spot} {most : Nat}

/-- Without the call at its end code leads to where the call would be made, or past it. -/
theorem withoutCall (h : code.Carries most σ σ') {operand : Operand}
    (last : code.instructions.back? = some ⟨.call, operand⟩)
    (removed : code.remove (code.size - 1) = .ok code') :
    operand.Callable most ∧ ∃ pre, Instruction.Goes ⟨.call, operand⟩ pre σ' ∅ ∧
      code'.Carries most σ (pre ∪ σ') := by
  obtain ⟨plan, follows, there, here⟩ := h
  rw [Array.back?_eq_getElem?] at last
  obtain ⟨n, length⟩ : ∃ n, code.size = n + 1 :=
    ⟨code.size - 1, by have := (Array.getElem?_eq_some_iff.1 last).1; unfold Code.size; omega⟩
  rw [show code.instructions.size - 1 = n from Nat.sub_eq_of_eq_add length] at last
  rw [length, Nat.add_sub_cancel] at removed
  have goes := follows.leads last
  rw [← length, here] at goes
  refine ⟨follows.callable _ (Array.mem_of_getElem? last) rfl, plan n, goes, ?_⟩
  have size : code'.size = n := by
    rw [Code.size_remove (by omega) removed, length, Nat.add_sub_cancel]
  -- what comes to the end comes to where the call stood
  set plan' : Nat → Spot := fun a => if a < n then plan a else if a = n then plan n ∪ σ' else ∅
  have moves (a : Nat) : plan a ⊆ plan' (shift n a) := by
    unfold shift
    rcases Nat.lt_trichotomy a n with before | rfl | behind
    · rw [if_neg (by omega)]
      exact (if_pos before).ge
    · rw [if_neg (Nat.lt_irrefl _)]
      exact Set.subset_union_left.trans_eq ((if_neg (Nat.lt_irrefl _)).trans (if_pos rfl)).symm
    · rw [if_pos behind]
      rcases eq_or_ne a code.size with rfl | beyond
      · rw [here, show code.size - 1 = n by omega]
        exact Set.subset_union_right.trans_eq ((if_neg (Nat.lt_irrefl _)).trans (if_pos rfl)).symm
      · rw [follows.within a (by omega)]
        exact Set.empty_subset _
  -- the instructions that are left
  have left {a : Nat} {i : Instruction} (found : code'.instructions[a]? = some i) :
      ∃ j, code.instructions[a]? = some j ∧ i = j.retarget (shift n) ∧ a < n := by
    have before : a < n := size ▸ (Array.getElem?_eq_some_iff.1 found).1
    have moved := Code.remove_get (by omega) removed before.ne
    rw [shift, if_neg (by omega), found] at moved
    obtain ⟨j, stood, same⟩ := Option.map_eq_some_iff.1 moved.symm
    exact ⟨j, stood, same.symm, before⟩
  refine ⟨plan', ⟨fun a behind => ?_, fun a i found => ?_,
    fun _ _ mem => absurd mem (Set.notMem_empty _), fun i mem call => ?_⟩, fun a ρ mem => ?_, ?_⟩
  · rw [size] at behind
    exact (if_neg (by omega)).trans (if_neg (by omega))
  · obtain ⟨j, stood, rfl, before⟩ := left found
    refine .inr (((follows.leads stood).retarget _).mono (if_pos before).le ?_ ?_)
    · have next := moves (a + 1)
      rwa [shift, if_neg (by omega)] at next
    · rw [Instruction.aim_retarget]
      exact Instruction.aim_mono moves
  · obtain ⟨a, found⟩ := Array.getElem?_of_mem mem
    obtain ⟨j, stood, rfl, -⟩ := left found
    exact Instruction.retarget_callable (follows.callable j (Array.mem_of_getElem? stood)) call
  · cases mem
    have start := moves 0
    rw [shift, if_neg (Nat.not_lt_zero _)] at start
    exact ⟨Nat.zero_le _, (there 0 σ rfl).2.trans start⟩
  · rw [size]
    exact (if_neg (Nat.lt_irrefl _)).trans (if_pos rfl)

/-! ### Sealing -/

/-- Sealed code does what the plan says of the code that was sealed. -/
theorem visits {plan : Nat → Spot} (follows : code.Follows most plan ∅) (starts : .level 0 0 ⊆ plan 0)
    {move : Nat → Nat} {kept : Nat → Prop} (trims : Trimming code code' move kept)
    {a : Nat} {p : Point} (comes : code'.Visits a p) :
    ∃ b, kept b ∧ move b = a ∧ b ≤ code.size ∧ p ∈ plan b := by
  -- what stood where an instruction stands now
  have stood {b : Nat} {i : Instruction} (live : kept b) (le : b ≤ code.size)
      (found : code'.instructions[move b]? = some i) : ∃ j, code.instructions[b]? = some j ∧
        i = j.retarget move ∧ (j.retarget move).Goes (plan b) (plan (b + 1)) (j.aim plan) := by
    have inside : b < code.size := by
      refine lt_of_le_of_ne le ?_
      rintro rfl
      rw [trims.last] at found
      exact Nat.lt_irrefl _ (Array.getElem?_eq_some_iff.1 found).1
    have there := Array.getElem?_eq_getElem inside
    cases found.symm.trans (trims.found live there)
    exact ⟨_, there, rfl, (follows.leads there).retarget _⟩
  induction comes with
  | start => exact ⟨0, trims.first, trims.start, Nat.zero_le _, starts rfl⟩
  | falls _ found falls ih =>
    obtain ⟨b, live, rfl, le, mem⟩ := ih
    obtain ⟨j, there, rfl, goes⟩ := stood live le found
    have next := trims.next live there (Instruction.retarget_op j move ▸ falls.goesOn)
    exact ⟨b + 1, next, trims.adjacent live next, (Array.getElem?_eq_some_iff.1 there).1,
      (goes _ mem).2.1 _ falls⟩
  | @jumps _ target _ _ _ _ found jumps operand _ ih =>
    obtain ⟨b, live, rfl, le, mem⟩ := ih
    obtain ⟨j, there, rfl, goes⟩ := stood live le found
    have aimed : (j.retarget move).target? = some target := by
      rw [Instruction.target?, jumps.branch, operand]
    rw [Instruction.target?_retarget, Option.map_eq_some_iff] at aimed
    obtain ⟨t, aimed, rfl⟩ := aimed
    have lands := (goes _ mem).2.2 _ jumps
    rw [Instruction.aim, aimed] at lands
    change _ ∈ plan t at lands
    refine ⟨t, trims.target live there aimed, rfl, le_of_not_gt fun beyond => ?_, lands⟩
    rw [follows.within t beyond] at lands
    exact lands

/-- Trimmed code is balanced, and ends where it led to before it was trimmed. -/
theorem balanced (h : code.Carries most (.level 0 0) σ) {move : Nat → Nat} {kept : Nat → Prop}
    (trims : Trimming code code' move kept) : code'.Balanced ∧ code'.EndsIn (· ∈ σ) := by
  obtain ⟨plan, follows, there, rfl⟩ := h
  have starts := (there 0 _ rfl).2
  refine ⟨fun a p i comes found => ?_, fun p comes => ?_⟩
  · obtain ⟨b, live, rfl, le, mem⟩ := visits follows starts trims comes
    rcases le.lt_or_eq with inside | rfl
    · have there := Array.getElem?_eq_getElem inside
      cases found.symm.trans (trims.found live there)
      exact ((follows.leads there).retarget move p mem).1
    · rw [trims.last] at found
      exact absurd (Array.getElem?_eq_some_iff.1 found).1 (Nat.lt_irrefl _)
  · obtain ⟨b, live, last, le, mem⟩ := visits follows starts trims comes
    rcases le.lt_or_eq with inside | rfl
    · have found := trims.found live (Array.getElem?_eq_getElem inside)
      rw [last] at found
      exact absurd (Array.getElem?_eq_some_iff.1 found).1 (Nat.lt_irrefl _)
    · exact mem

/-- Code that leads from its start to a spot is balanced when it is sealed, and ends in that spot. -/
theorem close_balanced (h : code.Carries most (.level 0 0) σ) :
    code.close.Balanced ∧ code.close.EndsIn (· ∈ σ) := by
  cases isSealed : code.isSealed with
  | true =>
    rw [Code.close, isSealed, if_pos rfl]
    exact h.balanced (.refl code)
  | false =>
    obtain ⟨move, kept, trims⟩ := Code.close_trims isSealed
    exact h.balanced trims

end Code.Carries

end StackScript
