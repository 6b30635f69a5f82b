import Mathlib.Order.Nat
import StackScript.Proofs.Compiling.Leading
import StackScript.Proofs.Compiling.Sealing
import StackScript.Proofs.Compiling.Emission
import StackScript.Proofs.Expressions.Moving

/-!
# Settled code

Code is ready when each of its branches leads to an address of the code other than its start, and
each function that it pushes has a finished unit. While code is emitted some branches wait for their
targets; it is settled when all but these are ready and each constant that is recorded with it is
declared in it. An instruction that does not wait is there for good, unless it is a call at the end
of the code, which may still be asked for every result.

Main statements: `Code.Settled.setAddress` (a branch that gets its target waits no longer),
`Code.Settled.append` (settled code stays settled when it is joined), `Code.Settled.close` and
`Code.Settled.recorded` (what it comes to when it is sealed), and one lemma for each way to edit code
by which `Code.Keeps` lasts.
-/
namespace StackScript

/-- An operand that refers to no unit and stands for nothing that only runs make. -/
def Operand.isPlain : Operand → Bool
  | .value (.function ..) | .value (.frame _) | .value (.error _) | .value (.struct _)
  | .value (.tuple _) => false
  | _ => true

theorem Operand.Inert.of_isPlain {operand : Operand} (plain : operand.isPlain = true) :
    operand.Inert := by
  constructor <;>
  · rintro f rfl
    cases plain

/-- An instruction that is ready to run: a branch has a target, a function has a unit from `base`
on and before `limit`, and the operand is inert. -/
structure Instruction.Settled (base limit size : Nat) (i : Instruction) : Prop where
  branch : i.op.isBranch = true → ∃ t, i.operand = .address t ∧ 0 < t ∧ t ≤ size
  function : ∀ r env, i.operand = .value (.function r env) → base ≤ r.index ∧ r.index < limit
  inert : i.operand.Inert

/-- Code whose instructions are ready to run. -/
def Code.Ready (base limit : Nat) (code : Code) : Prop :=
  ∀ (a : Nat) (i : Instruction), code.instructions[a]? = some i → i.Settled base limit code.size

/-! ## Declarations of constants -/

/-- The instructions that convert the top of the stack to a declared type. -/
def declaredCode : Option Ty → List Instruction
  | some t => if t.isInterface then [] else [⟨.coerce, .value (.type t)⟩]
  | none => []

/-- The instructions that declare a constant. -/
def constantCode (declared : Option Ty) (name : String) (v : Value) : List Instruction :=
  [⟨.push, .value v⟩] ++ declaredCode declared ++ [⟨.constant, .name name⟩]

/-- Code declares a constant. -/
def Code.Declares (code : Code) (name : String) (v : Value) : Prop :=
  ∃ (declared : Option Ty) (pc : Nat), Placed code pc (constantCode declared name v)

/-- All constants that are recorded with a unit were declared in it when it was sealed. -/
def Code.Recorded (code : Code) : Prop :=
  ∃ (written : Code) (move : Nat → Nat) (kept : Nat → Prop), Trimming written code move kept ∧
    ∀ e ∈ code.constants, written.Declares e.1 e.2

theorem constantCode_plain (declared : Option Ty) (name : String) (v : Value) :
    ∀ i ∈ constantCode declared name v, i.IsPlain := by
  have converts : ∀ i ∈ declaredCode declared, i.IsPlain := by
    cases declared with
    | none => exact nofun
    | some t =>
      rw [declaredCode]
      split
      · exact nofun
      · simp [Instruction.IsPlain, Opcode.isTransfer, Opcode.isBranch]
  intro i mem
  rcases List.mem_append.1 mem with mem | mem
  · rcases List.mem_append.1 mem with mem | mem
    · cases List.mem_singleton.1 mem
      exact ⟨rfl, rfl⟩
    · exact converts i mem
  · cases List.mem_singleton.1 mem
    exact ⟨rfl, rfl⟩

theorem constantCode_uncalling (declared : Option Ty) (name : String) (v : Value) :
    ∀ i ∈ constantCode declared name v, i.op ≠ .call := by
  cases declared with
  | none => simp [constantCode, declaredCode]
  | some t =>
    rw [constantCode, declaredCode]
    split <;> simp

/-- Code whose instructions are ready, but for branches that wait for their targets, and that
declares the constants that are recorded with it. -/
structure Code.Settled (base limit : Nat) (waiting : List Nat) (code : Code) : Prop where
  ready : ∀ (a : Nat) (i : Instruction), code.instructions[a]? = some i →
    a ∈ waiting ∨ i.Settled base limit code.size
  branches : ∀ a ∈ waiting, ∃ i, code.instructions[a]? = some i ∧ i.op.isBranch = true
  constants : ∀ e ∈ code.constants, code.Declares e.1 e.2

/-- Code behind other code, with its branches moved along. -/
theorem Code.append_instructions {code other code' : Code} (joined : code.append other = .ok code') :
    code'.instructions =
      code.instructions ++ other.instructions.map (·.retarget (· + code.size)) := by
  unfold Code.append at joined
  split at joined <;> cases joined
  have pushed : ∀ is : List Instruction,
      (is.foldl (fun c i => c.push (i.retarget (· + code.size))) code).instructions =
        code.instructions ++ (is.map (·.retarget (· + code.size))).toArray := fun is => by
    rw [← Code.pushAll_instructions, Code.pushAll, List.foldl_map]
  rw [← Array.foldl_toList, Code.addConstants, pushed, ← Array.toList_map]

variable {base limit : Nat}

namespace Instruction.Settled

variable {i : Instruction} {size : Nat}

theorem mono (h : i.Settled base limit size) {limit' size' : Nat} (units : limit ≤ limit')
    (longer : size ≤ size') : i.Settled base limit' size' where
  branch is := by
    obtain ⟨t, operand, positive, within⟩ := h.branch is
    exact ⟨t, operand, positive, within.trans longer⟩
  function r env is := ⟨(h.function r env is).1, (h.function r env is).2.trans_le units⟩
  inert := h.inert

/-- An instruction that does not branch. -/
theorem plain (goesOn : i.op.isBranch = false) (plain : i.operand.isPlain = true) :
    i.Settled base limit size where
  branch is := by rw [goesOn] at is; cases is
  function r env is := by rw [is] at plain; cases plain
  inert := .of_isPlain plain

/-- Moving targets to addresses of other code. -/
theorem retarget (h : i.Settled base limit size) {f : Nat → Nat} {size' : Nat}
    (moves : ∀ t, i.target? = some t → 0 < t → t ≤ size → 0 < f t ∧ f t ≤ size') :
    (i.retarget f).Settled base limit size' := by
  obtain ⟨op, operand⟩ := i
  constructor
  · intro is
    rw [Instruction.retarget_op] at is
    obtain ⟨t, rfl, positive, within⟩ := h.branch is
    have target : Instruction.target? ⟨op, .address t⟩ = some t := by simp [target?, is]
    obtain ⟨positive, within⟩ := moves t target positive within
    exact ⟨f t, by rw [Instruction.retarget, target], positive, within⟩
  · intro r env is
    refine h.function r env ?_
    unfold Instruction.retarget at is
    split at is
    · cases is
    · exact is
  · unfold Instruction.retarget
    split
    · exact Operand.Inert.of_isPlain rfl
    · exact h.inert

end Instruction.Settled

namespace Code.Declares

variable {code code' : Code} {name : String} {v : Value}

/-- An edit that leaves the instructions alone that do not jump and are no calls. -/
theorem edited (h : code.Declares name v)
    (same : ∀ (a : Nat) (i : Instruction), code.instructions[a]? = some i → i.IsPlain → i.op ≠ .call →
      code'.instructions[a]? = some i) : code'.Declares name v := by
  obtain ⟨declared, pc, placed⟩ := h
  refine ⟨declared, pc, fun j i found => ?_⟩
  have mem := List.mem_of_getElem? found
  exact same _ i (placed j i found) (constantCode_plain declared name v i mem)
    (constantCode_uncalling declared name v i mem)

/-- Code behind other code. -/
theorem behind {other : Code} (h : other.Declares name v)
    (same : code'.instructions =
      code.instructions ++ other.instructions.map (·.retarget (· + code.size))) :
    code'.Declares name v := by
  obtain ⟨declared, pc, placed⟩ := h
  refine ⟨declared, code.size + pc, fun j i found => ?_⟩
  have plain := constantCode_plain declared name v i (List.mem_of_getElem? found)
  rw [same, Nat.add_assoc, Code.size, Array.getElem?_append_right (Nat.le_add_right _ _),
    Nat.add_sub_cancel_left, Array.getElem?_map, placed j i found, Option.map_some,
    Instruction.retarget_plain plain.2]

end Code.Declares

theorem Association.mem_insert {α β : Type} [BEq α] [LawfulBEq α] {key : α} {v : β}
    {entries : List (α × β)} {e : α × β} (mem : e ∈ insert key v entries) :
    e = (key, v) ∨ e ∈ entries := by
  induction entries with
  | nil => exact .inl (List.mem_singleton.1 mem)
  | cons first rest ih =>
    unfold insert at mem
    split at mem
    · rename_i same
      rcases List.mem_cons.1 mem with rfl | later
      · exact .inl (by rw [eq_of_beq same])
      · exact .inr (List.mem_cons_of_mem _ later)
    · rcases List.mem_cons.1 mem with rfl | later
      · exact .inr List.mem_cons_self
      · exact (ih later).imp_right (List.mem_cons_of_mem _)

theorem Code.mem_addConstants {code : Code} {more : List (String × Value)} {e : String × Value}
    (mem : e ∈ (code.addConstants more).constants) : e ∈ code.constants ∨ e ∈ more := by
  change e ∈ more.foldl (fun acc e => if Association.has e.1 acc then acc else acc ++ [e]) code.constants
    at mem
  generalize code.constants = own at mem ⊢
  induction more generalizing own with
  | nil => exact .inl mem
  | cons first rest ih =>
    rw [List.foldl_cons] at mem
    split at mem
    · exact (ih own mem).imp_right (List.mem_cons_of_mem _)
    · rcases ih _ mem with before | later
      · rcases List.mem_append.1 before with before | here
        · exact .inl before
        · exact .inr (List.mem_singleton.1 here ▸ List.mem_cons_self)
      · exact .inr (List.mem_cons_of_mem _ later)

/-- Constants of joined code were recorded with one of its parts. -/
theorem Code.append_constants {code other code' : Code} (joined : code.append other = .ok code')
    {e : String × Value} (mem : e ∈ code'.constants) : e ∈ code.constants ∨ e ∈ other.constants := by
  unfold Code.append at joined
  split at joined <;> cases joined
  have same (is : List Instruction) (c : Code) :
      (is.foldl (fun c i => c.push (i.retarget (· + code.size))) c).constants = c.constants := by
    induction is generalizing c with
    | nil => rfl
    | cons i is ih => exact ih _
  rw [← Array.foldl_toList] at mem
  exact (Code.mem_addConstants mem).imp_left fun own => same _ code ▸ own

namespace Code.Settled

variable {code code' : Code} {waiting waiting' : List Nat} {i : Instruction}

theorem mono (h : code.Settled base limit waiting) {limit' : Nat} (units : limit ≤ limit') :
    code.Settled base limit' waiting :=
  { h with ready := fun a i found => (h.ready a i found).imp_right fun settled =>
      settled.mono units (Nat.le_refl _) }

/-- The branches that wait may be counted in another order. -/
theorem reorder (h : code.Settled base limit waiting) (same : ∀ a, a ∈ waiting ↔ a ∈ waiting') :
    code.Settled base limit waiting' where
  ready a i found := (h.ready a i found).imp_left (same a).1
  branches a mem := h.branches a ((same a).2 mem)
  constants := h.constants

theorem of_same (h : code.Settled base limit waiting)
    (instructions : code'.instructions = code.instructions)
    (constants : ∀ e ∈ code'.constants, e ∈ code.constants) : code'.Settled base limit waiting where
  ready a i found := by
    rw [instructions] at found
    rw [Code.size, instructions]
    exact h.ready a i found
  branches := instructions ▸ h.branches
  constants e mem := (h.constants e (constants e mem)).edited fun _ _ found _ _ => instructions ▸ found

theorem inert (h : code.Settled base limit []) : code.Inert := by
  intro i mem
  obtain ⟨a, found⟩ := Array.getElem?_of_mem mem
  exact ((h.ready a i found).resolve_left (by simp)).inert

/-- Code without instructions. -/
theorem empty {name : String} : Code.Settled base limit [] { name := name } :=
  ⟨fun a i found => by simp at found, nofun, nofun⟩

/-- A branch that waits for its target stays a branch. -/
theorem branches_edited (h : code.Settled base limit waiting)
    (same : ∀ (a : Nat) (i : Instruction), code.instructions[a]? = some i → i.op.isBranch = true →
      ∃ j, code'.instructions[a]? = some j ∧ j.op = i.op) (fewer : waiting' ⊆ waiting) :
    ∀ a ∈ waiting', ∃ i, code'.instructions[a]? = some i ∧ i.op.isBranch = true := by
  intro a mem
  obtain ⟨i, found, branch⟩ := h.branches a (fewer mem)
  obtain ⟨j, there, op⟩ := same a i found branch
  exact ⟨j, there, op ▸ branch⟩

theorem getElem?_push {a : Nat} {j : Instruction} (found : code.instructions[a]? = some j) :
    (code.push i).instructions[a]? = some j := by
  have inside := (Array.getElem?_eq_some_iff.1 found).1
  simp [Code.push, Array.getElem?_push, inside.ne, found]

/-- The instruction at the end of code is settled or a branch that waits. -/
theorem push (h : code.Settled base limit waiting) (more : waiting ⊆ waiting')
    (last : i.Settled base limit (code.size + 1) ∧ waiting' ⊆ waiting ∨
      i.op.isBranch = true ∧ waiting' = code.size :: waiting) :
    (code.push i).Settled base limit waiting' where
  ready a j found := by
    rw [size_push]
    rcases Nat.lt_trichotomy a code.size with before | rfl | behind
    · have there : code.instructions[a]? = some j := by
        have : a ≠ code.instructions.size := Nat.ne_of_lt before
        simpa [Code.push, Array.getElem?_push, this] using found
      exact (h.ready a j there).imp (@more a) fun settled => settled.mono (Nat.le_refl _) (Nat.le_succ _)
    · have there : i = j := by simpa [Code.push, Code.size] using found
      exact last.elim (fun settled => .inr (there ▸ settled.1)) fun waits =>
        .inl (waits.2 ▸ List.mem_cons_self)
    · have : code.instructions.size < a := behind
      simp [Code.push, Array.getElem?_push] at found
      grind
  branches a mem := by
    have before (mem : a ∈ waiting) : ∃ j, (code.push i).instructions[a]? = some j ∧
        j.op.isBranch = true :=
      h.branches_edited (fun a j found _ => ⟨j, getElem?_push found, rfl⟩) (List.Subset.refl _) a mem
    rcases last with settled | ⟨branch, rfl⟩
    · exact before (settled.2 mem)
    · rcases List.mem_cons.1 mem with rfl | mem
      · exact ⟨i, by simp [Code.push, Code.size], branch⟩
      · exact before mem
  constants e mem := (h.constants e mem).edited fun _ _ found _ _ => getElem?_push found

/-- An instruction that is ready. -/
theorem emit (h : code.Settled base limit waiting) {op : Opcode} {operand : Operand}
    (last : Instruction.Settled base limit (code.size + 1) ⟨op, operand⟩)
    (emitted : code.emit op operand = .ok code') :
    code'.Settled base limit waiting ∧ code'.size = code.size + 1 := by
  unfold Code.emit at emitted
  split at emitted <;> cases emitted
  exact ⟨h.push (List.Subset.refl _) (.inl ⟨last, List.Subset.refl _⟩), size_push _ _⟩

/-- A branch that waits for its target. -/
theorem emitBranch (h : code.Settled base limit waiting) {op : Opcode} (branch : op.isBranch = true)
    {operand : Operand} (emitted : code.emit op operand = .ok code') :
    code'.Settled base limit (code.size :: waiting) ∧ code'.size = code.size + 1 := by
  unfold Code.emit at emitted
  split at emitted <;> cases emitted
  exact ⟨h.push (List.subset_cons_self _ _) (.inr ⟨branch, rfl⟩), size_push _ _⟩

/-- A branch that gets its target waits no longer. -/
theorem setAddress (h : code.Settled base limit (a :: waiting)) {target : Nat}
    (positive : 0 < target) (patched : code.setAddress a target = .ok code') :
    code'.Settled base limit waiting ∧ code'.size = code.size := by
  unfold Code.setAddress at patched
  split at patched <;> cases patched
  rename_i inside
  have size : ∀ f, (code.instructions.modify a f).size = code.size := fun f => by simp [Code.size]
  refine ⟨⟨fun b i found => ?_, h.branches_edited (fun b i found _ => ?_) (List.subset_cons_self _ _),
    fun e mem => (h.constants e mem).edited fun b i found plain _ => ?_⟩, size _⟩
  · rw [Code.size, size]
    simp only [Array.getElem?_modify] at found
    split at found
    · obtain ⟨j, -, rfl⟩ := Option.map_eq_some_iff.1 found
      exact .inr ⟨fun _ => ⟨target, rfl, positive, by omega⟩, fun _ _ is => (by cases is),
        Operand.Inert.of_isPlain rfl⟩
    · rename_i other
      exact (h.ready b i found).imp (fun mem => (List.mem_cons.1 mem).resolve_left (Ne.symm other)) id
  · simp only [Array.getElem?_modify, found]
    split <;> exact ⟨_, rfl, rfl⟩
  · -- what is patched is a branch
    have other : a ≠ b := by
      rintro rfl
      obtain ⟨j, there, branch⟩ := h.branches a List.mem_cons_self
      rw [found, Option.some.injEq] at there
      rw [← there, plain.2] at branch
      cases branch
    simp [Array.getElem?_modify, other, found]

/-- Asking the last call for other results. -/
theorem emitAt (h : code.Settled base limit waiting) {a : Nat} {last : Instruction} {op : Opcode}
    {operand : Operand} (there : code.instructions[a]? = some last) (call : last.op = .call)
    (settled : Instruction.Settled base limit code.size ⟨op, operand⟩)
    (emitted : code.emitAt a op operand = .ok code') :
    code'.Settled base limit waiting ∧ code'.size = code.size := by
  unfold Code.emitAt at emitted
  split at emitted
  · cases emitted
  split at emitted <;> cases emitted
  have size : ∀ i, (code.instructions.setIfInBounds a i).size = code.size := fun i => by
    simp [Code.size]
  have same {b : Nat} {i : Instruction} (found : code.instructions[b]? = some i) (other : i.op ≠ .call) :
      (code.instructions.setIfInBounds a ⟨op, operand⟩)[b]? = some i := by
    have : a ≠ b := by
      rintro rfl
      rw [there, Option.some.injEq] at found
      exact other (found ▸ call)
    simp [this, found]
  refine ⟨⟨fun b i found => ?_, h.branches_edited (fun b i found branch => ⟨i, same found ?_, rfl⟩)
    (List.Subset.refl _), fun e mem => (h.constants e mem).edited fun b i found _ => same found⟩, size _⟩
  · rw [Code.size, size]
    simp only [Array.getElem?_setIfInBounds] at found
    split at found
    · split at found <;> cases found
      exact .inr settled
    · exact h.ready b i found
  · intro is
    rw [is] at branch
    cases branch

/-- Settled code behind other code. -/
theorem append {other : Code} (h : code.Settled base limit waiting)
    (settled : other.Settled base limit []) (joined : code.append other = .ok code') :
    code'.Settled base limit waiting ∧ code.size ≤ code'.size := by
  have instructions := Code.append_instructions joined
  have size : code'.size = code.size + other.size := by simp [Code.size, instructions]
  have before {a : Nat} {i : Instruction} (found : code.instructions[a]? = some i) :
      code'.instructions[a]? = some i := by
    rw [instructions, Array.getElem?_append_left (Array.getElem?_eq_some_iff.1 found).1, found]
  refine ⟨⟨fun a i found => ?_, h.branches_edited (fun a i found _ => ⟨i, before found, rfl⟩)
    (List.Subset.refl _), fun e mem => ?_⟩, by omega⟩
  · rw [instructions, Array.getElem?_append] at found
    rw [size]
    split at found
    · exact (h.ready a i found).imp id fun settled => settled.mono (Nat.le_refl _) (Nat.le_add_right _ _)
    · rw [Array.getElem?_map, Option.map_eq_some_iff] at found
      obtain ⟨i, found, rfl⟩ := found
      refine .inr (((settled.ready _ i found).resolve_left (by simp)).retarget
        fun t _ positive within => ?_)
      omega
  · rcases Code.append_constants joined mem with own | others
    · exact (h.constants e own).edited fun _ _ found _ _ => before found
    · exact (settled.constants e others).behind instructions

/-! ### Sealing -/

/-- When all branches have their targets, all instructions are ready. -/
theorem all_ready (h : code.Settled base limit []) : code.Ready base limit :=
  fun a i found => (h.ready a i found).resolve_left List.not_mem_nil

end Code.Settled

namespace Code.Ready

variable {code code' : Code}

theorem mono (h : code.Ready base limit) {limit' : Nat} (units : limit ≤ limit') :
    code.Ready base limit' := fun a i found => (h a i found).mono units (Nat.le_refl _)

theorem of_instructions (h : code.Ready base limit) (same : code'.instructions = code.instructions) :
    code'.Ready base limit := by
  intro a i found
  rw [same] at found
  rw [Code.size, same]
  exact h a i found

theorem inert (h : code.Ready base limit) : code.Inert := by
  intro i mem
  obtain ⟨a, found⟩ := Array.getElem?_of_mem mem
  exact (h a i found).inert

/-- Deleting an instruction, but not the first one of several. -/
theorem remove (h : code.Ready base limit) {a : Nat} (behind : 0 < a ∨ code.size = 1)
    (removed : code.remove a = .ok code') : code'.Ready base limit := by
  have inside : a < code.size := by
    unfold Code.remove at removed
    split at removed <;> cases removed
    omega
  have size := Code.size_remove inside removed
  intro b i found
  have later : b < code'.size := (Array.getElem?_eq_some_iff.1 found).1
  -- the instruction at `b` stood at `b` or behind it
  obtain ⟨there, other, moved⟩ : ∃ there, there ≠ a ∧ shift a there = b := by
    rcases Nat.lt_or_ge b a with before | behind
    · exact ⟨b, by omega, by rw [shift, if_neg (by omega)]⟩
    · exact ⟨b + 1, by omega, by rw [shift, if_pos (by omega)]; omega⟩
  rw [← moved, Code.remove_get inside removed other, Option.map_eq_some_iff] at found
  obtain ⟨j, found, rfl⟩ := found
  refine (h there j found).retarget fun t _ positive within => ?_
  have : there < code.size := (Array.getElem?_eq_some_iff.1 found).1
  unfold shift
  split <;> omega

theorem close (h : code.Ready base limit) : code.close.Ready base limit := by
  have trimmed := Code.trimFrom_keeps (P := Code.Ready base limit)
    (fun h _ _ _ removed => h.remove (.inl (Nat.succ_pos _)) removed) h code.size 0
  unfold Code.close
  split
  · exact h
  · exact trimmed

end Code.Ready

theorem Code.Recorded.of_same {code code' : Code} (h : code.Recorded)
    (instructions : code'.instructions = code.instructions) (constants : code'.constants = code.constants) :
    code'.Recorded := by
  obtain ⟨written, move, kept, trims, declares⟩ := h
  have size : code'.size = code.size := congrArg Array.size instructions
  exact ⟨written, move, kept, ⟨trims.first, trims.start, trims.last.trans size.symm,
    fun live found => instructions ▸ trims.found live found, trims.next, trims.adjacent, trims.target⟩,
    constants ▸ declares⟩

/-- The constants of settled code are declared in it when it is sealed. -/
theorem Code.Settled.recorded {code : Code} (h : code.Settled base limit []) : code.close.Recorded := by
  obtain ⟨move, kept, trims⟩ : ∃ move kept, Trimming code code.close move kept := by
    cases isSealed : code.isSealed with
    | true =>
      rw [Code.close, isSealed, if_pos rfl]
      exact ⟨_, _, .refl code⟩
    | false => exact Code.close_trims isSealed
  exact ⟨code, move, kept, trims, fun e mem => h.constants e (code.close_keeps.2.2.2 ▸ mem)⟩

/-- Deleting the call at the end of code. -/
theorem Code.Settled.withoutCall {code code' : Code} (h : code.Settled base limit [])
    {last : Instruction} (found : code.instructions.back? = some last) (call : last.op = .call)
    (removed : code.remove (code.size - 1) = .ok code') : code'.Settled base limit [] := by
  rw [Array.back?_eq_getElem?] at found
  have inside : code.size - 1 < code.size := (Array.getElem?_eq_some_iff.1 found).1
  have ready := h.all_ready.remove (by omega) removed
  refine ⟨fun a i there => .inr (ready a i there), nofun, fun e mem => ?_⟩
  have same : code'.constants = code.constants := by
    unfold Code.remove at removed
    split at removed <;> cases removed
    rfl
  refine (h.constants e (same ▸ mem)).edited fun a i there plain uncalling => ?_
  have before : a < code.size - 1 := by
    have within : a < code.size := (Array.getElem?_eq_some_iff.1 there).1
    have other : a ≠ code.size - 1 := by
      rintro rfl
      exact uncalling (Option.some.inj (there.symm.trans found) ▸ call)
    omega
  have moved := Code.remove_get inside removed before.ne
  rwa [shift, if_neg (by omega), there, Option.map_some, Instruction.retarget_plain plain.2] at moved

/-! ## Instructions that stay -/

/-- Instructions that code has at addresses and that no later edit changes. -/
structure Code.Keeps (kept : List (Nat × Instruction)) (waiting : List Nat) (code : Code) : Prop where
  found : ∀ p ∈ kept, code.instructions[p.1]? = some p.2
  settled : ∀ p ∈ kept, p.1 ∉ waiting
  inner : ∀ p ∈ kept, p.2.op = .call → p.1 + 1 < code.size

namespace Code.Keeps

variable {code code' : Code} {kept : List (Nat × Instruction)} {waiting waiting' : List Nat}

theorem nothing (waiting : List Nat) (code : Code) : code.Keeps [] waiting := ⟨nofun, nofun, nofun⟩

theorem mono (h : code.Keeps kept waiting) (fewer : waiting' ⊆ waiting) : code.Keeps kept waiting' :=
  { h with settled := fun p mem waits => h.settled p mem (fewer waits) }

theorem of_instructions (h : code.Keeps kept waiting)
    (same : code'.instructions = code.instructions) : code'.Keeps kept waiting where
  found p mem := same ▸ h.found p mem
  settled := h.settled
  inner p mem call := (h.inner p mem call).trans_eq (congrArg Array.size same).symm

/-- An edit that leaves the addresses alone. -/
theorem edited (h : code.Keeps kept waiting) (longer : code.size ≤ code'.size)
    (same : ∀ p ∈ kept, code'.instructions[p.1]? = code.instructions[p.1]?)
    (settled : ∀ p ∈ kept, p.1 ∉ waiting') : code'.Keeps kept waiting' where
  found p mem := (same p mem).trans (h.found p mem)
  settled := settled
  inner p mem call := (h.inner p mem call).trans_le longer

theorem lt (h : code.Keeps kept waiting) {p : Nat × Instruction} (mem : p ∈ kept) : p.1 < code.size :=
  (Array.getElem?_eq_some_iff.1 (h.found p mem)).1

/-- Only the instruction at the end may wait from now on. -/
theorem emit (h : code.Keeps kept waiting) {op : Opcode} {operand : Operand}
    (more : ∀ a ∈ waiting', a = code.size ∨ a ∈ waiting)
    (emitted : code.emit op operand = .ok code') : code'.Keeps kept waiting' := by
  unfold Code.emit at emitted
  split at emitted <;> cases emitted
  refine h.edited (by simp [size_push]) (fun p mem => ?_) fun p mem waits => ?_
  · have before : p.1 < code.instructions.size := h.lt mem
    simp [Code.push, Array.getElem?_push, before.ne]
  · rcases more p.1 waits with last | before
    · exact absurd last (h.lt mem).ne
    · exact h.settled p mem before

theorem setAddress (h : code.Keeps kept (a :: waiting)) {target : Nat}
    (patched : code.setAddress a target = .ok code') : code'.Keeps kept waiting := by
  unfold Code.setAddress at patched
  split at patched <;> cases patched
  refine h.edited (by simp [Code.size]) (fun p mem => ?_) fun p mem waits =>
    h.settled p mem (List.mem_cons_of_mem a waits)
  have other : a ≠ p.1 := fun same => h.settled p mem (same ▸ List.mem_cons_self)
  simp [Array.getElem?_modify, other]

/-- Asking the call at the end for other results. -/
theorem emitAt (h : code.Keeps kept waiting) {i : Instruction} {op : Opcode} {operand : Operand}
    (last : code.instructions.back? = some i) (call : i.op = .call)
    (emitted : code.emitAt (code.size - 1) op operand = .ok code') : code'.Keeps kept waiting := by
  unfold Code.emitAt at emitted
  split at emitted
  · cases emitted
  split at emitted <;> cases emitted
  refine h.edited (by simp [Code.size]) (fun p mem => ?_) h.settled
  have other : code.size - 1 ≠ p.1 := by
    intro same
    have there := h.found p mem
    rw [← same, Code.size, ← Array.back?_eq_getElem?, last] at there
    have := h.inner p mem ((congrArg Instruction.op (Option.some.inj there)).symm.trans call)
    omega
  simp [other]

theorem append (h : code.Keeps kept waiting) {other : Code} (joined : code.append other = .ok code') :
    code'.Keeps kept waiting := by
  have instructions := Code.append_instructions joined
  have longer : code.size ≤ code'.size := by simp [Code.size, instructions]
  refine h.edited longer (fun p mem => ?_) h.settled
  rw [instructions, Array.getElem?_append_left (h.lt mem)]

end Code.Keeps

end StackScript
