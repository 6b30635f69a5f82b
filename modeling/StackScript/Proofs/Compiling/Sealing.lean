import StackScript.Proofs.Steps

/-!
# Sealing

When code is sealed, instructions that control cannot reach are deleted and the others move. A
`Trimming` says where they went: instructions that control may reach are kept, with the targets of
their branches moved along.

Main statements: `Code.close_trims`, and `Trimming.placed` (a stretch of code that is kept is found
again as a whole).
-/
namespace StackScript

namespace Instruction

theorem target?_retarget (i : Instruction) (f : Nat → Nat) :
    (i.retarget f).target? = i.target?.map f := by
  obtain ⟨op, operand⟩ := i
  cases branch : op.isBranch <;> cases operand <;> simp [retarget, target?, branch]

theorem retarget_retarget (i : Instruction) (f g : Nat → Nat) :
    (i.retarget f).retarget g = i.retarget (g ∘ f) := by
  obtain ⟨op, operand⟩ := i
  cases branch : op.isBranch <;> cases operand <;> simp [retarget, target?, branch]

@[simp] theorem retarget_op (i : Instruction) (f : Nat → Nat) : (i.retarget f).op = i.op := by
  unfold retarget
  split <;> rfl

theorem retarget_id (i : Instruction) : i.retarget id = i := by
  obtain ⟨op, operand⟩ := i
  cases branch : op.isBranch <;> cases operand <;> simp [retarget, target?, branch]

end Instruction

/-! ## Trimmed code -/

/-- Where the instructions of code went when it was trimmed. Nothing is said of the instructions
that were not kept. -/
structure Trimming (code trimmed : Code) (move : Nat → Nat) (kept : Nat → Prop) : Prop where
  first : kept 0
  start : move 0 = 0
  last : move code.size = trimmed.size
  found : ∀ {a i}, kept a → code.instructions[a]? = some i →
    trimmed.instructions[move a]? = some (i.retarget move)
  next : ∀ {a i}, kept a → code.instructions[a]? = some i → i.op.isTransfer = false → kept (a + 1)
  adjacent : ∀ {a}, kept a → kept (a + 1) → move (a + 1) = move a + 1
  target : ∀ {a i t}, kept a → code.instructions[a]? = some i → i.target? = some t → kept t

/-- Where an address goes when the instruction at another one is deleted. -/
def shift (removed address : Nat) : Nat := if removed < address then address - 1 else address

theorem Code.size_remove {code rest : Code} {address : Nat} (inside : address < code.size)
    (removed : code.remove address = .ok rest) : rest.size = code.size - 1 := by
  rw [remove, if_neg (by omega)] at removed
  cases removed
  have inside : address < code.instructions.size := inside
  simp [size, Array.eraseIdxIfInBounds, inside]

/-- All instructions but the one that is deleted are found again. -/
theorem Code.remove_get {code rest : Code} {address a : Nat} (inside : address < code.size)
    (removed : code.remove address = .ok rest) (other : a ≠ address) :
    rest.instructions[shift address a]? =
      code.instructions[a]?.map (·.retarget (shift address)) := by
  rw [remove, if_neg (by omega)] at removed
  cases removed
  have inside : address < code.instructions.size := inside
  simp only [Array.eraseIdxIfInBounds, inside, dite_true, Array.getElem?_map,
    Array.getElem?_eraseIdx]
  have there : (if shift address a < address then code.instructions[shift address a]?
      else code.instructions[shift address a + 1]?) = code.instructions[a]? := by
    unfold shift
    split <;> split <;> first | rfl | omega | (congr 1; omega)
  rw [there]
  rfl

/-- What holds of code holds of it when it has been trimmed if it holds when an instruction behind
a transfer is deleted that no branch leads to. -/
theorem Code.trimFrom_keeps {P : Code → Prop}
    (keeps : ∀ {code rest : Code} {address : Nat}, P code → address + 1 < code.size →
      (∀ i, code.instructions[address]? = some i → i.op.isTransfer = true) →
      (∀ (a : Nat) (i : Instruction), code.instructions[a]? = some i → i.target? ≠ some (address + 1)) →
      code.remove (address + 1) = .ok rest → P rest)
    {code : Code} (h : P code) (rounds address : Nat) : P (code.trimFrom rounds address) := by
  induction rounds generalizing code address with
  | zero => exact h
  | succ rounds ih =>
    rw [Code.trimFrom]
    split
    · rename_i inside
      split
      · rename_i dead
        rw [Bool.and_eq_true] at dead
        cases removed : code.remove (address + 1) with
        | error => exact h
        | ok rest =>
          refine ih (keeps h inside (fun i found => ?_) (fun a i found => ?_) removed) address
          · simpa [found] using dead.1
          · intro target
            have free : code.isTarget (address + 1) = false := by simpa using dead.2
            rw [Code.isTarget, Array.any_eq_false] at free
            obtain ⟨inside, rfl⟩ := Array.getElem?_eq_some_iff.1 found
            exact free a inside (by simp [target])
      · exact ih h (address + 1)
    · exact h

namespace Trimming

theorem refl (code : Code) : Trimming code code id fun _ => True where
  first := trivial
  start := rfl
  last := rfl
  found _ h := by rw [Instruction.retarget_id]; exact h
  next _ _ _ := trivial
  adjacent _ _ := rfl
  target _ _ _ := trivial

variable {code trimmed : Code} {move : Nat → Nat} {kept : Nat → Prop}

/-- An instruction behind a transfer that no branch leads to may be deleted. -/
theorem remove (h : Trimming code trimmed move kept) {address : Nat}
    (inside : address + 1 < trimmed.size)
    (transfer : ∀ i, trimmed.instructions[address]? = some i → i.op.isTransfer = true)
    (free : ∀ (a : Nat) (i : Instruction), trimmed.instructions[a]? = some i →
      i.target? ≠ some (address + 1))
    {rest : Code} (removed : trimmed.remove (address + 1) = .ok rest) :
    Trimming code rest (shift (address + 1) ∘ move) fun a => kept a ∧ move a ≠ address + 1 where
  first := ⟨h.first, by rw [h.start]; omega⟩
  start := by simp [shift, h.start]
  last := by
    rw [Code.size_remove inside removed, Function.comp_apply, h.last, shift, if_pos inside]
  found := by
    rintro a i ⟨live, other⟩ found
    rw [Function.comp_apply, Code.remove_get inside removed other, h.found live found,
      Option.map_some, Instruction.retarget_retarget]
  next := by
    rintro a i ⟨live, other⟩ found plain
    have next := h.next live found plain
    refine ⟨next, fun behind => ?_⟩
    have here : move a = address := by
      have := h.adjacent live next
      omega
    have := transfer _ (here ▸ h.found live found)
    rw [Instruction.retarget_op, plain] at this
    cases this
  adjacent := by
    rintro a ⟨live, other⟩ ⟨live', other'⟩
    have := h.adjacent live live'
    simp only [Function.comp_apply, shift]
    split <;> split <;> omega
  target := by
    rintro a i t ⟨live, other⟩ found target
    refine ⟨h.target live found target, fun there => ?_⟩
    refine free _ _ (h.found live found) ?_
    rw [Instruction.target?_retarget, target, Option.map_some, there]

/-- Trimming from an address on goes on from what was trimmed before. -/
theorem trimFrom (h : Trimming code trimmed move kept) (rounds address : Nat) :
    ∃ move kept, Trimming code (trimmed.trimFrom rounds address) move kept :=
  Code.trimFrom_keeps (P := fun trimmed => ∃ move kept, Trimming code trimmed move kept)
    (fun ⟨_, _, h⟩ inside transfer free removed => ⟨_, _, h.remove inside transfer free removed⟩)
    ⟨move, kept, h⟩ rounds address

end Trimming

theorem Code.close_trims {code : Code} (unsealed : code.isSealed = false) :
    ∃ move kept, Trimming code code.close move kept := by
  obtain ⟨move, kept, h⟩ := (Trimming.refl code).trimFrom code.size 0
  rw [close, unsealed, if_neg (by simp)]
  exact ⟨move, kept, h.first, h.start, h.last, h.found, h.next, h.adjacent, h.target⟩

/-- Sealing changes nothing but instructions. -/
theorem Code.close_keeps (code : Code) : code.close.name = code.name ∧
    code.close.declaration = code.declaration ∧ code.close.package = code.package ∧
      code.close.constants = code.constants := by
  have trims := Code.trimFrom_keeps
    (P := fun c => c.name = code.name ∧ c.declaration = code.declaration ∧ c.package = code.package ∧
      c.constants = code.constants)
    (fun {c rest address} same inside _ _ removed => by
      rw [remove, if_neg (by omega)] at removed
      cases removed
      exact same)
    ⟨rfl, rfl, rfl, rfl⟩ code.size 0
  unfold close
  split
  · exact ⟨rfl, rfl, rfl, rfl⟩
  · exact trims

/-! ## Stretches that are kept -/

/-- All addresses from one to another are kept. -/
def Stays (kept : Nat → Prop) (a b : Nat) : Prop := ∀ j, a ≤ j → j ≤ b → kept j

theorem Stays.one {kept : Nat → Prop} {a : Nat} (h : kept a) : Stays kept a a :=
  fun _ low high => Nat.le_antisymm low high ▸ h

theorem Stays.append {kept : Nat → Prop} {a b c : Nat} (first : Stays kept a b)
    (second : Stays kept b c) : Stays kept a c := by
  intro j low high
  rcases Nat.le_total j b with before | behind
  · exact first j low before
  · exact second j behind high

theorem Stays.join {kept : Nat → Prop} {a b c : Nat} (first : Stays kept a b)
    (second : Stays kept (b + 1) c) : Stays kept a c := by
  intro j low high
  rcases Nat.lt_or_ge b j with behind | before
  · exact second j behind high
  · exact first j low before

theorem Stays.here {kept : Nat → Prop} {a b : Nat} (h : Stays kept a b) (le : a ≤ b) : kept b :=
  h b le (Nat.le_refl _)

namespace Trimming

variable {code trimmed : Code} {move : Nat → Nat} {kept : Nat → Prop} {start : Nat}
variable {is : List Instruction}

theorem plain (h : Trimming code trimmed move kept) {a : Nat} {i : Instruction}
    (found : code.instructions[a]? = some i) (goesOn : i.op.isTransfer = false) (live : kept a) :
    Stays kept a (a + 1) := by
  intro j low high
  rcases Nat.eq_or_lt_of_le low with rfl | behind
  · exact live
  · exact Nat.le_antisymm behind high ▸ h.next live found goesOn

/-- Instructions without a transfer are all kept if the first one is. -/
theorem straight (h : Trimming code trimmed move kept) (placed : Placed code start is)
    (goesOn : ∀ i ∈ is, i.op.isTransfer = false) (live : kept start) :
    Stays kept start (start + is.length) := by
  induction is generalizing start with
  | nil => exact .one live
  | cons i is ih =>
    have first := h.plain placed.head (goesOn i (by simp)) live
    have rest := ih placed.tail (fun i mem => goesOn i (List.mem_cons_of_mem _ mem))
      (first _ (Nat.le_succ _) (Nat.le_refl _))
    rw [Nat.add_assoc, Nat.add_comm 1] at rest
    exact first.append rest

theorem moved (h : Trimming code trimmed move kept) {a : Nat} (j : Nat)
    (stays : Stays kept a (a + j)) : move (a + j) = move a + j := by
  induction j with
  | zero => rfl
  | succ j ih =>
    have here := stays (a + j) (by omega) (by omega)
    have next := stays (a + j + 1) (by omega) (by omega)
    rw [← Nat.add_assoc, h.adjacent here next, ih fun k low high => stays k low (by omega)]
    rfl

/-- A stretch of code that is kept is found again as a whole, its branches moved along. -/
theorem placed (h : Trimming code trimmed move kept) (placed : Placed code start is)
    (stays : Stays kept start (start + is.length)) :
    Placed trimmed (move start) (is.map (·.retarget move)) := by
  intro j i found
  rw [List.getElem?_map, Option.map_eq_some_iff] at found
  obtain ⟨i, found, rfl⟩ := found
  have inside := (List.getElem?_eq_some_iff.1 found).1
  rw [← h.moved j fun k low high => stays k low (by omega)]
  exact h.found (stays _ (by omega) (by omega)) (placed j i found)

end Trimming

end StackScript
