import Mathlib.Order.Nat
import StackScript.Proofs.Settling.Code

/-!
# Editing units

Units are built by operations that add, patch, join and delete instructions. When a unit is sealed,
those that add or overwrite instructions fail; patching an address and deleting an instruction do not.
While a unit is built its instructions move, and the targets of its branches move with them.

Main statements: `Code.sealed_edits` (what operations can still change in a sealed unit), with
`sealed_unit_shrinks` (it is not immutable), and `Code.Made.branches_follow` (a branch that holds an
address proper leads to the same instruction wherever both have gone), with `number_left_behind` (one
that holds a number does not).
-/
namespace StackScript

/-! ## Operations -/

/-- An operation on a unit. -/
inductive Edit where
  | emit (op : Opcode) (operand : Operand)
  | emitAt (address : Nat) (op : Opcode) (operand : Operand)
  | setAddress (address target : Nat)
  /-- Give an instruction the address of the next one that is emitted. -/
  | setAddressHere (address : Nat)
  | append (other : Code)
  | remove (address : Nat)
  | close

/-- Whether an operation adds or overwrites instructions. -/
def Edit.isEmission : Edit → Bool
  | emit .. | emitAt .. => true
  | append other => decide (0 < other.size)
  | _ => false

/-- Whether an operation is done to sealed units too: patches, deletions, and the addition of a unit
that brings constants only. -/
def Edit.goesThrough : Edit → Bool
  | setAddress .. | setAddressHere _ | remove _ => true
  | append other => decide (other.size = 0)
  | _ => false

namespace Code

/-- The unit that an operation makes. -/
def apply (c : Code) : Edit → Except Fault Code
  | .emit op operand => c.emit op operand
  | .emitAt address op operand => c.emitAt address op operand
  | .setAddress address target => c.setAddress address target
  | .setAddressHere address => c.setAddress address c.size
  | .append other => c.append other
  | .remove address => c.remove address
  | .close => .ok c.close

/-- A unit after an operation; if the operation fails it is what it was. -/
def edit (c : Code) (e : Edit) : Code :=
  match c.apply e with
  | .ok c => c
  | .error _ => c

/-- A unit after a sequence of operations. -/
def edits (c : Code) (es : List Edit) : Code := es.foldl edit c

/-- What is left of a unit: all that operations on a sealed unit keep. -/
structure Remains (c rest : Code) : Prop where
  isSealed : rest.isSealed = true
  name : rest.name = c.name
  /-- No operation is new and none has changed its place among the others. -/
  operations : (rest.instructions.toList.map (·.op)).Sublist (c.instructions.toList.map (·.op))
  capacity : rest.capacity ≤ c.capacity
  constants : c.constants <+: rest.constants

namespace Remains

variable {c d rest : Code}

theorem refl (closed : c.isSealed = true) : c.Remains c :=
  ⟨closed, rfl, .refl _, Nat.le_refl _, List.prefix_refl _⟩

theorem trans (first : c.Remains d) (second : d.Remains rest) : c.Remains rest :=
  ⟨second.isSealed, second.name.trans first.name, second.operations.trans first.operations,
    second.capacity.trans first.capacity, first.constants.trans second.constants⟩

end Remains

variable {c c' : Code}

theorem addConstants_prefix (c : Code) (more : List (String × Value)) :
    c.constants <+: (c.addConstants more).constants := by
  change c.constants <+:
    more.foldl (fun acc e => if Association.has e.1 acc then acc else acc ++ [e]) c.constants
  generalize c.constants = own
  induction more generalizing own with
  | nil => exact List.prefix_refl own
  | cons e more ih =>
    rw [List.foldl_cons]
    split
    · exact ih own
    · exact (List.prefix_append own [e]).trans (ih _)

theorem setAddress_remains (closed : c.isSealed = true) {address target : Nat}
    (patched : c.setAddress address target = .ok c') : c.Remains c' := by
  unfold setAddress at patched
  split at patched <;> cases patched
  refine ⟨closed, rfl, ?_, Nat.le_refl _, List.prefix_refl _⟩
  have same : (c.instructions.modify address fun i => { i with operand := .address target }).toList.map
      (·.op) = c.instructions.toList.map (·.op) := by
    refine List.ext_getElem? fun a => ?_
    simp only [List.getElem?_map, Array.getElem?_toList, Array.getElem?_modify]
    split
    · cases c.instructions[a]? <;> rfl
    · rfl
  exact same ▸ .refl _

theorem remove_remains (closed : c.isSealed = true) {address : Nat}
    (removed : c.remove address = .ok c') : c.Remains c' := by
  unfold remove at removed
  split at removed <;> cases removed
  rename_i inside
  refine ⟨closed, rfl, ?_, Nat.sub_le _ _, List.prefix_refl _⟩
  have inside : address < c.instructions.size := Nat.lt_of_not_le inside
  have less : (c.instructions.eraseIdxIfInBounds address).toList =
      c.instructions.toList.eraseIdx address := by
    simp [Array.eraseIdxIfInBounds, inside]
  have same (is : List Instruction) (f : Nat → Nat) :
      (is.map (·.retarget f)).map (·.op) = is.map (·.op) := by
    simp [Function.comp_def]
  rw [Array.toList_map, same, less]
  exact (List.eraseIdx_sublist _ _).map _

theorem append_remains (closed : c.isSealed = true) {other : Code}
    (joined : c.append other = .ok c') : c.Remains c' := by
  unfold append at joined
  split at joined
  · cases joined
  rename_i empty
  have empty : other.instructions = #[] := by
    refine Array.eq_empty_of_size_eq_zero (Nat.eq_zero_of_not_pos fun positive => ?_)
    exact empty ⟨closed, positive⟩
  simp only [empty, Array.foldl_empty] at joined
  cases joined
  exact ⟨closed, rfl, .refl _, Nat.le_refl _, c.addConstants_prefix _⟩

/-- Adding and overwriting instructions fails on a sealed unit. -/
theorem apply_emission (closed : c.isSealed = true) {e : Edit} (emits : e.isEmission = true) :
    c.apply e = .error c.sealedFault := by
  cases e with
  | emit op operand => exact emit_sealed closed op operand
  | emitAt address op operand => simp [apply, emitAt, closed]
  | append other =>
    have more : 0 < other.size := of_decide_eq_true emits
    simp [apply, append, closed, more]
  | _ => cases emits

theorem edit_remains (closed : c.isSealed = true) (e : Edit) : c.Remains (c.edit e) := by
  unfold edit
  cases done : c.apply e with
  | error => exact .refl closed
  | ok c' =>
    cases e with
    | emit op operand => exact absurd done (by rw [apply_emission closed rfl]; exact nofun)
    | emitAt address op operand => exact absurd done (by rw [apply_emission closed rfl]; exact nofun)
    | setAddress address target => exact setAddress_remains closed done
    | setAddressHere address => exact setAddress_remains closed done
    | append other => exact append_remains closed done
    | remove address => exact remove_remains closed done
    | close =>
      cases done
      rw [close, if_pos closed]
      exact .refl closed

theorem edits_remains (closed : c.isSealed = true) (es : List Edit) : c.Remains (c.edits es) := by
  induction es generalizing c with
  | nil => exact .refl closed
  | cons e es ih => exact (edit_remains closed e).trans (ih (edit_remains closed e).isSealed)

/-- An operation that does not go through leaves a sealed unit as it is. -/
theorem edit_of_not_goesThrough (closed : c.isSealed = true) {e : Edit}
    (refused : e.goesThrough = false) : c.edit e = c := by
  unfold edit
  cases e with
  | emit | emitAt => rw [apply_emission closed rfl]
  | append other =>
    have more : 0 < other.size := Nat.pos_of_ne_zero (of_decide_eq_false refused)
    rw [apply_emission closed (by simpa [Edit.isEmission] using more)]
  | close => rw [apply, close, if_pos closed]
  | setAddress | setAddressHere | remove => cases refused

theorem edits_goingThrough (closed : c.isSealed = true) (es : List Edit) :
    c.edits es = c.edits (es.filter Edit.goesThrough) := by
  induction es generalizing c with
  | nil => rfl
  | cons e es ih =>
    cases through : e.goesThrough with
    | false =>
      rw [List.filter_cons_of_neg (by simp [through]), ← ih closed, edits, List.foldl_cons,
        edit_of_not_goesThrough closed through, edits]
    | true =>
      rw [List.filter_cons_of_pos through, edits, List.foldl_cons, edits, List.foldl_cons]
      exact ih (edit_remains closed e).isSealed

/-- What operations can still change in a sealed unit. Each that adds or overwrites instructions fails
with the fault of sealed code and changes nothing, so that patches, deletions and additions of units
without instructions alone decide what the unit is: without them it is the same, and with them it
stays sealed, its operations get fewer at most, and its constants get more at most. -/
theorem sealed_edits (closed : c.isSealed = true) (es : List Edit) :
    c.Remains (c.edits es) ∧
      c.edits es = c.edits (es.filter Edit.goesThrough) ∧
      ((∀ e ∈ es, e.goesThrough = false) → c.edits es = c) ∧
      ∀ before e after, es = before ++ e :: after → e.isEmission = true →
        (c.edits before).apply e = .error c.sealedFault := by
  refine ⟨edits_remains closed es, edits_goingThrough closed es, fun refused => ?_, ?_⟩
  · rw [edits_goingThrough closed, List.filter_eq_nil_iff.2 fun e mem => by simp [refused e mem]]
    rfl
  · rintro before e after - emits
    have remains := edits_remains closed before
    rw [apply_emission remains.isSealed emits, sealedFault, sealedFault, remains.name]

end Code

/-- A sealed unit with a branch. -/
def Code.tested : Code :=
  (Code.pushAll { name := "test" } [⟨.push, .int 1⟩, ⟨.branchTrue, .address 3⟩, ⟨.stop, .none⟩]).close

theorem tested_remains :
    Code.tested.isSealed = true ∧
      Code.tested.Remains (Code.tested.edits [.emit .drop .none, .setAddress 1 0, .remove 2, .close]) ∧
      (Code.tested.edits [.setAddress 1 0]).apply (.emitAt 0 .drop .none) =
        .error Code.tested.sealedFault :=
  have edited := Code.sealed_edits (c := Code.tested) rfl
    [.emit .drop .none, .setAddress 1 0, .remove 2, .close]
  have refused := Code.sealed_edits (c := Code.tested) rfl [.setAddress 1 0, .emitAt 0 .drop .none]
  ⟨rfl, edited.1, refused.2.2.2 [.setAddress 1 0] (.emitAt 0 .drop .none) [] rfl rfl⟩

/-- Sealed units are not immutable: an instruction can be deleted. -/
theorem sealed_unit_shrinks :
    ¬ ∀ (c : Code) (es : List Edit), c.isSealed = true → (c.edits es).instructions = c.instructions := by
  intro same
  have shorter : (Code.tested.edits [.remove 0]).instructions.size = 2 := by
    decide +kernel
  rw [same _ _ rfl] at shorter
  cases shorter

/-! ## Moving instructions -/

/-- Each branch holds an address proper that is not past the end. -/
def Code.InRange (c : Code) : Prop :=
  ∀ (a : Nat) (i : Instruction), c.instructions[a]? = some i → i.op.isBranch = true →
    ∃ t ≤ c.size, i.operand = .address t

/-- Units that are built from empty ones. When one is added to another, or loses an instruction, its
branches are in range. -/
inductive Code.Made : Code → Prop where
  | new (name : String) : Made { name := name }
  | emit {c c' : Code} {op : Opcode} {operand : Operand} :
      c.Made → c.emit op operand = .ok c' → c'.Made
  | setAddress {c c' : Code} {address target : Nat} :
      c.Made → c.setAddress address target = .ok c' → c'.Made
  | append {c other c' : Code} :
      c.Made → other.Made → c.InRange → other.InRange → c.append other = .ok c' → c'.Made
  | remove {c c' : Code} {address : Nat} : c.Made → c.InRange → c.remove address = .ok c' → c'.Made

/-- Units whose instruction at an address was emitted or last patched since anything moved. -/
inductive Code.Fresh : (address : Nat) → Code → Prop where
  | emitted {c c' : Code} {op : Opcode} {operand : Operand} :
      c.Made → c.emit op operand = .ok c' → c'.Fresh c.size
  | patched {c c' : Code} {address target : Nat} :
      c.Made → c.setAddress address target = .ok c' → c'.Fresh address
  | emit {c c' : Code} {address : Nat} {op : Opcode} {operand : Operand} :
      c.Fresh address → c.emit op operand = .ok c' → c'.Fresh address
  | setAddress {c c' : Code} {address other target : Nat} :
      c.Fresh address → other ≠ address → c.setAddress other target = .ok c' → c'.Fresh address

/-- Where an instruction goes when the one at another address is deleted. -/
def placeWithout (removed address : Nat) : Option Nat :=
  if address = removed then none else some (shift removed address)

/-- What became of a unit: `place` says where its instructions stand in a later one, but for those that
were deleted. The one at `branch` was not patched meanwhile. -/
inductive Relocates (branch : Nat) (first : Code) :
    (last : Code) → (place : Nat → Option Nat) → Prop where
  | here : Relocates branch first first some
  | emit {c c' : Code} {place : Nat → Option Nat} {op : Opcode} {operand : Operand} :
      Relocates branch first c place → c.emit op operand = .ok c' → Relocates branch first c' place
  | setAddress {c c' : Code} {place : Nat → Option Nat} {address target : Nat} :
      Relocates branch first c place → place branch ≠ some address →
        c.setAddress address target = .ok c' → Relocates branch first c' place
  | append {c other c' : Code} {place : Nat → Option Nat} :
      Relocates branch first c place → c.append other = .ok c' → Relocates branch first c' place
  | appended {c before c' : Code} {place : Nat → Option Nat} :
      Relocates branch first c place → before.append c = .ok c' →
        Relocates branch first c' fun a => (place a).map (· + before.size)
  | remove {c c' : Code} {place : Nat → Option Nat} {address : Nat} :
      Relocates branch first c place → c.remove address = .ok c' →
        Relocates branch first c' fun a => (place a).bind (placeWithout address)

/-- A branch that led to `t` in one unit leads to the same place at `t'` in a later one. -/
structure SameTarget (first last : Code) (place : Nat → Option Nat) (t t' : Nat) : Prop where
  within : t' ≤ last.size
  /-- Instructions that are still there are the same operations. -/
  same : ∀ {a a'}, a < first.size → place a = some a' →
    (last.instructions[a']?).map (·.op) = (first.instructions[a]?).map (·.op)
  /-- The target follows the same instructions of the unit, of those that are still there. -/
  behind : ∀ {a a'}, a < first.size → place a = some a' → (a < t ↔ a' < t')
  /-- It is the instruction that it was, or the next one of those that are still there. -/
  next : ∀ {a a'}, t ≤ a → a < first.size → place a = some a' →
    (∀ b, t ≤ b → b < a → place b = none) → t' = a'

/-- How instructions move: `move` takes every address of a unit, its end too, to where the instructions
in front of it that are still there end. -/
structure Displacement (branch : Nat) (first last : Code) (place : Nat → Option Nat) (move : Nat → Nat) :
    Prop where
  placed : ∀ {a a'}, place a = some a' → a' = move a
  next : ∀ {a}, a < first.size → move (a + 1) = if (place a).isSome then move a + 1 else move a
  within : move first.size ≤ last.size
  found : ∀ {a a' i}, first.instructions[a]? = some i → place a = some a' →
    ∃ j, last.instructions[a']? = some j ∧ j.op = i.op
  target : ∀ {a' op t}, first.instructions[branch]? = some ⟨op, .address t⟩ → op.isBranch = true →
    place branch = some a' → last.instructions[a']? = some ⟨op, .address (move t)⟩

namespace Displacement

variable {branch : Nat} {first last last' : Code} {place : Nat → Option Nat} {move : Nat → Nat}

theorem here : Displacement branch first first some id where
  placed is := (Option.some.inj is).symm
  next _ := rfl
  within := Nat.le_refl _
  found there is := ⟨_, Option.some.inj is ▸ there, rfl⟩
  target there _ is := Option.some.inj is ▸ there

/-- An edit by which no instruction moves and the branch stays the same. -/
theorem edited (h : Displacement branch first last place move) (longer : last.size ≤ last'.size)
    (operations : ∀ (a : Nat) (i : Instruction), last.instructions[a]? = some i →
      ∃ j, last'.instructions[a]? = some j ∧ j.op = i.op)
    (unpatched : ∀ (a : Nat) (i : Instruction), place branch = some a →
      last.instructions[a]? = some i → last'.instructions[a]? = some i) :
    Displacement branch first last' place move where
  placed := h.placed
  next := h.next
  within := h.within.trans longer
  found there is := by
    obtain ⟨j, found, op⟩ := h.found there is
    obtain ⟨k, found, op'⟩ := operations _ j found
    exact ⟨k, found, op'.trans op⟩
  target there isBranch is := unpatched _ _ is (h.target there isBranch is)

theorem emit (h : Displacement branch first last place move) {op : Opcode} {operand : Operand}
    (emitted : last.emit op operand = .ok last') : Displacement branch first last' place move := by
  unfold Code.emit at emitted
  split at emitted <;> cases emitted
  exact h.edited (by simp [Code.size_push])
    (fun _ i found => ⟨i, Code.Settled.getElem?_push found, rfl⟩)
    fun _ _ _ found => Code.Settled.getElem?_push found

theorem setAddress (h : Displacement branch first last place move) {address target : Nat}
    (other : place branch ≠ some address) (patched : last.setAddress address target = .ok last') :
    Displacement branch first last' place move := by
  unfold Code.setAddress at patched
  split at patched <;> cases patched
  refine h.edited (by simp [Code.size]) (fun a i found => ?_) fun a i is found => ?_
  · simp only [Array.getElem?_modify, found]
    split <;> exact ⟨_, rfl, rfl⟩
  · have apart : address ≠ a := fun same => other (same ▸ is)
    simp [Array.getElem?_modify, apart, found]

theorem append (h : Displacement branch first last place move) {other : Code}
    (joined : last.append other = .ok last') : Displacement branch first last' place move := by
  have instructions := Code.append_instructions joined
  have before {a : Nat} {i : Instruction} (found : last.instructions[a]? = some i) :
      last'.instructions[a]? = some i := by
    rw [instructions, Array.getElem?_append_left (Array.getElem?_eq_some_iff.1 found).1, found]
  exact h.edited (by simp [Code.size, instructions]) (fun _ i found => ⟨i, before found, rfl⟩)
    fun _ _ _ found => before found

/-- Behind other code all instructions and targets move by its size. -/
theorem appended (h : Displacement branch first last place move) {before : Code}
    (joined : before.append last = .ok last') :
    Displacement branch first last' (fun a => (place a).map (· + before.size)) (move · + before.size) := by
  have instructions := Code.append_instructions joined
  have moved {a : Nat} {i : Instruction} (found : last.instructions[a]? = some i) :
      last'.instructions[a + before.size]? = some (i.retarget (· + before.size)) := by
    have : before.instructions.size ≤ a + before.size := Nat.le_add_left _ _
    rw [instructions, Array.getElem?_append_right this, Code.size, Nat.add_sub_cancel,
      Array.getElem?_map, found]
    rfl
  constructor
  · intro a a' is
    obtain ⟨b, there, rfl⟩ := Option.map_eq_some_iff.1 is
    rw [h.placed there]
  · intro a inside
    rw [h.next inside, Option.isSome_map]
    split <;> omega
  · have := h.within
    simp only [Code.size, instructions, Array.size_append, Array.size_map] at *
    omega
  · intro a a' i there is
    obtain ⟨b, place, rfl⟩ := Option.map_eq_some_iff.1 is
    obtain ⟨j, found, op⟩ := h.found there place
    exact ⟨_, moved found, by rw [Instruction.retarget_op, op]⟩
  · intro a' op t there isBranch is
    obtain ⟨b, place, rfl⟩ := Option.map_eq_some_iff.1 is
    rw [moved (h.target there isBranch place)]
    simp [Instruction.retarget, Instruction.target?, isBranch]

/-- When an instruction is deleted, what is behind it moves back by one. -/
theorem remove (h : Displacement branch first last place move) {address : Nat}
    (removed : last.remove address = .ok last') :
    Displacement branch first last' (fun a => (place a).bind (placeWithout address)) (shift address ∘ move) := by
  have inside : address < last.size := by
    unfold Code.remove at removed
    split at removed <;> cases removed
    omega
  have kept {a b a' : Nat} (is : (place a).bind (placeWithout address) = some a') (there : place a = some b) :
      b ≠ address ∧ a' = shift address b := by
    rw [there, Option.bind_some, placeWithout] at is
    split at is <;> cases is
    exact ⟨‹_›, rfl⟩
  have stood {a a' : Nat} (is : (place a).bind (placeWithout address) = some a') :
      ∃ b, place a = some b ∧ b ≠ address ∧ a' = shift address b := by
    obtain ⟨b, there, -⟩ := Option.bind_eq_some_iff.1 is
    exact ⟨b, there, kept is there⟩
  constructor
  · intro a a' is
    obtain ⟨b, there, -, rfl⟩ := stood is
    rw [Function.comp_apply, h.placed there]
  · intro a before
    have next := h.next before
    cases there : place a with
    | none =>
      rw [there] at next
      simpa using congrArg (shift address) next
    | some b =>
      rw [there, Option.isSome_some, if_pos rfl, ← h.placed there] at next
      rw [Function.comp_apply, next, Function.comp_apply, ← h.placed there, Option.bind_some, placeWithout]
      by_cases gone : b = address
      · simp [shift, gone]
      · rw [if_neg gone, Option.isSome_some, if_pos rfl, shift, shift]
        split <;> split <;> omega
  · rw [Function.comp_apply, Code.size_remove inside removed, shift]
    have := h.within
    split <;> omega
  · intro a a' i there is
    obtain ⟨b, place, other, rfl⟩ := stood is
    obtain ⟨j, found, op⟩ := h.found there place
    have there : last'.instructions[shift address b]? = some (j.retarget (shift address)) := by
      rw [Code.remove_get inside removed other, found]
      rfl
    exact ⟨_, there, by rw [Instruction.retarget_op, op]⟩
  · intro a' op t there isBranch is
    obtain ⟨b, place, other, rfl⟩ := stood is
    rw [Code.remove_get inside removed other, h.target there isBranch place]
    simp [Instruction.retarget, Instruction.target?, isBranch]

/-- Later addresses do not go before earlier ones. -/
theorem mono (h : Displacement branch first last place move) {a b : Nat} (le : a ≤ b) (inside : b ≤ first.size) :
    move a ≤ move b := by
  induction b, le using Nat.le_induction with
  | base => exact Nat.le_refl _
  | succ b _ ih =>
    have next := h.next (Nat.lt_of_succ_le inside)
    have := ih (Nat.le_of_succ_le inside)
    split at next <;> omega

/-- Where nothing is left between two addresses they go to the same. -/
theorem nothing (h : Displacement branch first last place move) {a b : Nat} (le : a ≤ b)
    (inside : b ≤ first.size) (gone : ∀ j, a ≤ j → j < b → place j = none) : move a = move b := by
  induction b, le using Nat.le_induction with
  | base => rfl
  | succ b behind ih =>
    have next := h.next (Nat.lt_of_succ_le inside)
    rw [gone b behind (Nat.lt_succ_self _)] at next
    have before := ih (Nat.le_of_succ_le inside) fun j low high => gone j low (by omega)
    exact before.trans (by simpa using next.symm)

theorem sameTarget (h : Displacement branch first last place move) {t : Nat} (within : t ≤ first.size) :
    SameTarget first last place t (move t) where
  within := (h.mono within (Nat.le_refl _)).trans h.within
  same {a a'} inside is := by
    obtain ⟨j, found, op⟩ := h.found (Array.getElem?_eq_getElem inside) is
    rw [found, Array.getElem?_eq_getElem inside, Option.map_some, Option.map_some, op]
  behind {a a'} inside is := by
    have next := h.next inside
    rw [is, Option.isSome_some, if_pos rfl, ← h.placed is] at next
    constructor
    · intro before
      have := h.mono (show a + 1 ≤ t from before) within
      omega
    · intro before
      by_contra behind
      have := h.mono (Nat.le_of_not_lt behind) inside.le
      rw [← h.placed is] at this
      omega
  next behind inside is gone := (h.nothing behind inside.le gone).trans (h.placed is).symm

end Displacement

theorem Relocates.moves {branch : Nat} {first last : Code} {place : Nat → Option Nat}
    (h : Relocates branch first last place) : ∃ move, Displacement branch first last place move := by
  induction h with
  | here => exact ⟨id, .here⟩
  | emit _ emitted ih => exact ih.imp fun _ moves => moves.emit emitted
  | setAddress _ other patched ih => exact ih.imp fun _ moves => moves.setAddress other patched
  | append _ joined ih => exact ih.imp fun _ moves => moves.append joined
  | appended _ joined ih =>
    obtain ⟨move, moves⟩ := ih
    exact ⟨_, moves.appended joined⟩
  | remove _ removed ih =>
    obtain ⟨move, moves⟩ := ih
    exact ⟨_, moves.remove removed⟩

theorem Code.Fresh.lt {c : Code} {address : Nat} (fresh : c.Fresh address) : address < c.size := by
  have longer {c c' : Code} {op : Opcode} {operand : Operand} (emitted : c.emit op operand = .ok c') :
      c'.size = c.size + 1 := by
    unfold Code.emit at emitted
    split at emitted <;> cases emitted
    exact size_push c _
  have patched {c c' : Code} {a t : Nat} (patched : c.setAddress a t = .ok c') :
      a < c'.size ∧ c'.size = c.size := by
    unfold Code.setAddress at patched
    split at patched <;> cases patched
    simp only [Code.size, Array.size_modify] at *
    exact ⟨by omega, trivial⟩
  induction fresh with
  | emitted _ emitted => exact longer emitted ▸ Nat.lt_succ_self _
  | patched _ there => exact (patched there).1
  | emit _ emitted ih => exact ih.trans (longer emitted ▸ Nat.lt_succ_self _)
  | setAddress _ _ there ih => exact (patched there).2 ▸ ih

/-- Where an instruction of a unit that was built came from. -/
theorem Code.Made.origin {code : Code} (made : code.Made) {here : Nat} {i : Instruction}
    (found : code.instructions[here]? = some i) :
    code.Fresh here ∨ ∃ (first : Code) (branch : Nat) (place : Nat → Option Nat),
      first.Fresh branch ∧ first.InRange ∧ Relocates branch first code place ∧ place branch = some here := by
  induction made generalizing here i with
  | new name => simp at found
  | @emit c c' op operand made emitted ih =>
    have pushed := emitted
    unfold Code.emit at pushed
    split at pushed <;> cases pushed
    rcases Nat.lt_or_ge here c.size with before | behind
    · rcases ih (Array.getElem?_eq_getElem before) with
        fresh | ⟨first, branch, place, fresh, range, relocates, is⟩
      · exact .inl (fresh.emit emitted)
      · exact .inr ⟨first, branch, place, fresh, range, relocates.emit emitted, is⟩
    · have last : here < c.size + 1 := size_push c _ ▸ (Array.getElem?_eq_some_iff.1 found).1
      cases Nat.le_antisymm (Nat.le_of_lt_succ last) behind
      exact .inl (.emitted made emitted)
  | @setAddress c c' address target made patched ih =>
    by_cases other : address = here
    · exact .inl (other ▸ .patched made patched)
    · have before : here < c.size := by
        have inside := (Array.getElem?_eq_some_iff.1 found).1
        unfold Code.setAddress at patched
        split at patched <;> cases patched
        simpa [Code.size] using inside
      rcases ih (Array.getElem?_eq_getElem before) with
        fresh | ⟨first, branch, place, fresh, range, relocates, is⟩
      · exact .inl (fresh.setAddress other patched)
      · have unpatched : place branch ≠ some address := by simp [is, Ne.symm other]
        exact .inr ⟨first, branch, place, fresh, range, relocates.setAddress unpatched patched, is⟩
  | @append c other c' _ _ range range' joined ih ih' =>
    rw [append_instructions joined, Array.getElem?_append] at found
    split at found
    · rcases ih found with fresh | ⟨first, branch, place, fresh, range, relocates, is⟩
      · exact .inr ⟨c, here, some, fresh, range, .append .here joined, rfl⟩
      · exact .inr ⟨first, branch, place, fresh, range, relocates.append joined, is⟩
    · rename_i behind
      rw [Array.getElem?_map, Option.map_eq_some_iff] at found
      obtain ⟨j, found, -⟩ := found
      have there : here - c.size + c.size = here := Nat.sub_add_cancel (Nat.le_of_not_lt behind)
      rcases ih' found with fresh | ⟨first, branch, place, fresh, range, relocates, is⟩
      · exact .inr ⟨other, _, _, fresh, range', .appended .here joined, congrArg some there⟩
      · refine .inr ⟨first, branch, _, fresh, range, .appended relocates joined, ?_⟩
        simp only [is, Option.map_some]
        exact congrArg some there
  | @remove c c' address _ range removed ih =>
    have inside : address < c.size := by
      unfold Code.remove at removed
      split at removed <;> cases removed
      omega
    have later : here < c'.size := (Array.getElem?_eq_some_iff.1 found).1
    have size := size_remove inside removed
    -- the instruction stood at `here` or behind it
    obtain ⟨there, within, moved⟩ : ∃ there, there < c.size ∧ placeWithout address there = some here := by
      rcases Nat.lt_or_ge here address with before | behind
      · exact ⟨here, by omega, by rw [placeWithout, if_neg (by omega), shift, if_neg (by omega)]⟩
      · exact ⟨here + 1, by omega, by rw [placeWithout, if_neg (by omega), shift, if_pos (by omega)]; rfl⟩
    rcases ih (Array.getElem?_eq_getElem within) with
      fresh | ⟨first, branch, place, fresh, range, relocates, is⟩
    · exact .inr ⟨c, there, _, fresh, range, .remove .here removed, moved⟩
    · exact .inr ⟨first, branch, _, fresh, range, .remove relocates removed, by rw [is]; exact moved⟩

/-- Branches lead to the same instruction wherever both have gone. A branch of a unit that was built
has not moved since it was emitted or last patched, or it followed from a unit in which it had not, and
then its target, as the machine reads its operand, follows the same instructions of that unit, of those
that are still there, as it did in it. -/
theorem Code.Made.branches_follow {code : Code} (made : code.Made) {here : Nat} {i : Instruction}
    (found : code.instructions[here]? = some i) (isBranch : i.op.isBranch = true) :
    code.Fresh here ∨
      ∃ (first : Code) (branch : Nat) (place : Nat → Option Nat) (j : Instruction) (t t' : Nat),
        first.Fresh branch ∧ Relocates branch first code place ∧ place branch = some here ∧
          first.instructions[branch]? = some j ∧ j.op = i.op ∧
          j.operand.asAddress? = some t ∧ i.operand.asAddress? = some t' ∧
          SameTarget first code place t t' := by
  refine (made.origin found).imp_right ?_
  rintro ⟨first, branch, place, fresh, range, relocates, is⟩
  obtain ⟨move, moves⟩ := relocates.moves
  have inside : branch < first.size := fresh.lt
  obtain ⟨k, there, op⟩ := moves.found (Array.getElem?_eq_getElem inside) is
  rw [found, Option.some.injEq] at there
  subst there
  obtain ⟨t, within, operand⟩ := range branch _ (Array.getElem?_eq_getElem inside) (op ▸ isBranch)
  have target : code.instructions[here]? = some ⟨i.op, .address (move t)⟩ :=
    moves.target (by rw [Array.getElem?_eq_getElem inside, op, ← operand]) isBranch is
  rw [found, Option.some.injEq] at target
  exact ⟨first, branch, place, _, t, move t, fresh, relocates, is, Array.getElem?_eq_getElem inside,
    op.symm, by rw [operand]; rfl, by rw [target]; rfl, moves.sameTarget within⟩

/-! ### A unit whose branches have moved -/

theorem Code.Made.pushAll {c : Code} (made : c.Made) (unsealed : c.isSealed = false)
    (is : List Instruction) : (c.pushAll is).Made := by
  induction is generalizing c with
  | nil => exact made
  | cons i is ih => exact ih (.emit made (emit_eq unsealed i.op i.operand)) unsealed

/-- A unit with a branch over two instructions. -/
def Code.skipping : Code :=
  Code.pushAll { name := "skipping" }
    [⟨.branch, .address 3⟩, ⟨.drop, .none⟩, ⟨.dup, .none⟩, ⟨.stop, .none⟩]

/-- It has lost one of them and stands behind another instruction. -/
def Code.skipped : Code :=
  Code.pushAll { name := "host" }
    [⟨.newline, .none⟩, ⟨.branch, .address 3⟩, ⟨.dup, .none⟩, ⟨.stop, .none⟩]

theorem skipping_follows :
    Code.skipped.Made ∧ (Code.skipped.Fresh 1 ∨
      ∃ (first : Code) (branch : Nat) (place : Nat → Option Nat) (j : Instruction) (t t' : Nat),
        first.Fresh branch ∧ Relocates branch first Code.skipped place ∧ place branch = some 1 ∧
          first.instructions[branch]? = some j ∧ j.op = .branch ∧
          j.operand.asAddress? = some t ∧ Operand.asAddress? (.address 3) = some t' ∧
          SameTarget first Code.skipped place t t') := by
  have range (c : Code) {t : Nat} {is : List Instruction} (within : t ≤ is.length + 1)
      (same : c.instructions = (⟨.branch, .address t⟩ :: is).toArray)
      (plain : ∀ i ∈ is, i.op.isBranch = false) : c.InRange := by
    intro a i found isBranch
    rw [same] at found
    cases a with
    | zero =>
      cases found
      exact ⟨t, by simpa [Code.size, same] using within, rfl⟩
    | succ a =>
      have mem : i ∈ is := List.mem_of_getElem? (by simpa using found)
      rw [plain i mem] at isBranch
      cases isBranch
  have first : Code.skipping.Made := .pushAll (.new _) rfl _
  have second : Code.Made { Code.skipping with
      instructions := #[⟨.branch, .address 2⟩, ⟨.dup, .none⟩, ⟨.stop, .none⟩], capacity := 31 } :=
    @Code.Made.remove _ _ 1 first (range _ (by decide) rfl (by decide)) (by with_unfolding_all rfl)
  have made : Code.skipped.Made :=
    .append (c := Code.pushAll { name := "host" } [⟨.newline, .none⟩]) (.pushAll (.new _) rfl _) second
      (fun a i found isBranch => by
        cases a with
        | zero => cases found; cases isBranch
        | succ a => simp [Code.pushAll, Code.push] at found)
      (range _ (by decide) rfl (by decide)) rfl
  exact ⟨made, @Code.Made.branches_follow _ made 1 ⟨.branch, .address 3⟩ rfl rfl⟩

/-- A number that the machine takes for an address does not move with its branch. -/
theorem number_left_behind :
    ∃ c : Code,
      (Code.pushAll { name := "host" } [⟨.newline, .none⟩]).append
        (Code.pushAll { name := "number" } [⟨.branch, .int 1⟩, ⟨.stop, .none⟩]) = .ok c ∧
      (c.instructions[1]?.map (·.operand.asAddress?)) = some (some 1) ∧
      (c.instructions[2]?.map (·.op)) = some .stop := by
  refine ⟨_, rfl, ?_, ?_⟩ <;> decide +kernel

end StackScript
