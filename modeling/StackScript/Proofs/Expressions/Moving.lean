import StackScript.Proofs.Compiling.Sealing
import StackScript.Proofs.Expressions.Code

/-!
# Moving the code of expressions

The code of an expression starts at any address. When its instructions move together, what they
become is the code from the address that the first one moves to; and when code is sealed they do
move together, since every transfer of control is followed by the target of a branch.

Main statements: `Expr.code_moved`, `Expr.code_stays`, `Movable.append`, `Movable.shifted` (code that
is added at the end of other code) and `Movable.placed_sealed` (code in a sealed unit).
-/
namespace StackScript

variable {spell : String → String} {f : Nat → Nat} {start : Nat}

/-- Addresses from one on move together. -/
def Together (f : Nat → Nat) (start length : Nat) : Prop :=
  ∀ j ≤ length, f (start + j) = f start + j

namespace Together

variable {m n : Nat}

theorem left (h : Together f start (m + n)) : Together f start m := fun j le => h j (by omega)

theorem right (h : Together f start (m + n)) : Together f (start + m) n := by
  intro j le
  rw [Nat.add_assoc, h _ (by omega), h m (by omega), Nat.add_assoc]

end Together

/-- The instructions of an operator are no branches. -/
theorem Operation.instructions_plain (op : Operation) :
    ∀ i ∈ op.instructions, i.op.isTransfer = false ∧ i.op.isBranch = false := by
  cases op <;> simp [instructions, Opcode.isTransfer, Opcode.isBranch]

theorem Instruction.retarget_plain {i : Instruction} (plain : i.op.isBranch = false) :
    i.retarget f = i := by
  obtain ⟨op, operand⟩ := i
  simp only at plain
  simp [retarget, target?, plain]

theorem branchOn_retarget (taken : Bool) (target : Nat) :
    (branchOn taken target).retarget f = branchOn taken (f target) := by
  cases taken <;> rfl

mutual
/-- The length of the code does not depend on where it starts. -/
theorem Expr.code_length : (e : Expr) → (a b : Nat) →
    (e.code spell a).length = (e.code spell b).length
  | .literal _, _, _ | .name _, _, _ => rfl
  | .array items, a, b => by
    rw [Expr.code, Expr.code, List.length_append, List.length_append,
      Expr.itemsCode_length items a b]
  | .unary _ e, a, b => by
    rw [Expr.code, Expr.code, List.length_append, List.length_append, e.code_length a b]
  | .binary op x y, a, b => by
    simp only [Expr.code, List.length_append, Operation.rightCode]
    rw [x.code_length a b]
    cases op.decides? with
    | none =>
      simp only [List.length_append]
      rw [y.code_length _ (b + (x.code spell b).length)]
    | some decided =>
      simp only [shortCircuitCode, List.length_append, List.length_cons]
      rw [y.code_length _ (b + (x.code spell b).length + 2)]
  | .choice c x y, a, b => by
    simp only [Expr.code, choiceCode, List.length_append, List.length_cons]
    rw [c.code_length a b, x.code_length _ (b + (c.code spell b).length + 1),
      y.code_length _ (b + (c.code spell b).length +
        (x.code spell (b + (c.code spell b).length + 1)).length + 2)]
theorem Expr.itemsCode_length : (es : List Expr) → (a b : Nat) →
    (Expr.itemsCode spell a es).length = (Expr.itemsCode spell b es).length
  | [], _, _ => rfl
  | e :: es, a, b => by
    simp only [Expr.itemsCode, List.length_append]
    rw [e.code_length a b, Expr.itemsCode_length es _ (b + (e.code spell b).length)]
end

theorem Operation.instructions_moved (op : Operation) :
    op.instructions.map (·.retarget f) = op.instructions := by
  cases op <;> rfl

theorem shortCircuitCode_moved {decided : Bool} {right : List Instruction}
    (together : Together f start (shortCircuitCode decided start right).length) :
    (shortCircuitCode decided start right).map (·.retarget f) =
      shortCircuitCode decided (f start) (right.map (·.retarget f)) := by
  rw [shortCircuitCode_length] at together
  have short := together (right.length + 4) (by omega)
  have finish := together (right.length + 6) (by omega)
  rw [← Nat.add_assoc] at short finish
  simp only [shortCircuitCode, List.map_append, List.map_cons, List.map_nil, branchOn_retarget,
    List.length_map, Nat.add_assoc] at short finish ⊢
  rw [short, ← finish]
  cases decided <;> rfl

theorem choiceCode_moved {yes no : List Instruction}
    (together : Together f start (choiceCode start yes no).length) :
    (choiceCode start yes no).map (·.retarget f) =
      choiceCode (f start) (yes.map (·.retarget f)) (no.map (·.retarget f)) := by
  rw [choiceCode_length] at together
  have other := together (yes.length + 2) (by omega)
  have finish := together (yes.length + 2 + no.length) (by omega)
  simp only [choiceCode, List.map_append, List.map_cons, branchOn_retarget, List.length_map,
    Nat.add_assoc] at other finish ⊢
  rw [other, ← finish]
  rfl

mutual
/-- Instructions of an expression that move together are its code at another place. -/
theorem Expr.code_moved : (e : Expr) → (start : Nat) →
    Together f start (e.code spell start).length →
    (e.code spell start).map (·.retarget f) = e.code spell (f start)
  | .literal _, _, _ | .name _, _, _ => rfl
  | .array items, start, together => by
    rw [Expr.code, List.length_append] at together
    rw [Expr.code, List.map_append, Expr.itemsCode_moved items start together.left]
    rfl
  | .unary _ e, start, together => by
    rw [Expr.code, List.length_append] at together
    rw [Expr.code, List.map_append, e.code_moved start together.left]
    rfl
  | .binary op a b, start, together => by
    rw [Expr.code, List.length_append] at together
    have left := a.code_moved start together.left
    have right := together.right
    have here := together.left _ (Nat.le_refl _)
    rw [Expr.code, Expr.code, List.map_append, left, a.code_length (f start) start, ← here]
    congr 1
    simp only [Operation.rightCode] at right ⊢
    cases h : op.decides? with
    | some decided =>
      simp only [h] at right ⊢
      have moved := shortCircuitCode_moved right
      rw [shortCircuitCode_length] at right
      rw [moved, b.code_moved _ right.right.left, right.left 2 (Nat.le_refl _)]
    | none =>
      simp only [h, List.length_append] at right ⊢
      rw [List.map_append, b.code_moved _ right.left, op.instructions_moved]
  | .choice c a b, start, together => by
    rw [Expr.code, List.length_append] at together
    have test := c.code_moved start together.left
    have here := together.left _ (Nat.le_refl _)
    have arms := together.right
    have moved := choiceCode_moved arms
    rw [choiceCode_length] at arms
    have yes := a.code_moved _ arms.right.left
    have second : start + (c.code spell start).length +
        (a.code spell (start + (c.code spell start).length + 1)).length + 2 =
        start + (c.code spell start).length + 1 +
          (a.code spell (start + (c.code spell start).length + 1)).length + 1 := by omega
    have arm := arms.right.right.right
    rw [← second] at arm
    have no := b.code_moved _ arm
    have first := arms.left 1 (Nat.le_refl _)
    have other := arms.right.right.left 1 (Nat.le_refl _)
    rw [← second, arms.right.left _ (Nat.le_refl _), first, here] at other
    rw [here] at first moved
    rw [Expr.code, Expr.code, List.map_append, test, moved, yes, no, first, other,
      c.code_length (f start) start, a.code_length (f start + (c.code spell start).length + 1)
        (start + (c.code spell start).length + 1)]
    congr 3
    omega
theorem Expr.itemsCode_moved : (es : List Expr) → (start : Nat) →
    Together f start (Expr.itemsCode spell start es).length →
    (Expr.itemsCode spell start es).map (·.retarget f) = Expr.itemsCode spell (f start) es
  | [], _, _ => rfl
  | e :: es, start, together => by
    rw [Expr.itemsCode, List.length_append] at together
    have here := together.left _ (Nat.le_refl _)
    rw [Expr.itemsCode, Expr.itemsCode, List.map_append, e.code_moved start together.left,
      Expr.itemsCode_moved es _ together.right, e.code_length (f start) start, here]
end

/-! ## Sealing -/

variable {code trimmed : Code} {kept : Nat → Prop}

theorem branchOn_goesOn (taken : Bool) (target : Nat) :
    (branchOn taken target).op.isTransfer = false := by
  cases taken <;> rfl

theorem branchOn_target (taken : Bool) (target : Nat) :
    (branchOn taken target).target? = some target := by
  cases taken <;> rfl

theorem shortCircuitCode_stays {decided : Bool} {right : List Instruction}
    (h : Trimming code trimmed f kept) (placed : Placed code start (shortCircuitCode decided start right))
    (live : kept start)
    (inner : kept (start + 2) → Stays kept (start + 2) (start + 2 + right.length)) :
    Stays kept start (start + (shortCircuitCode decided start right).length) := by
  have dup := h.plain placed.head rfl live
  have branch := h.plain placed.tail.head (branchOn_goesOn _ _) (dup.here (by omega))
  have operand := inner (branch.here (by omega))
  have after := placed.tail.tail.right
  have logic := h.plain after.head (by cases decided <;> rfl) (operand.here (by omega))
  have short : kept (start + 1 + 1 + right.length + 1 + 1) := by
    have := h.target (dup.here (by omega)) placed.tail.head (branchOn_target _ _)
    rwa [show start + 1 + 1 + right.length + 1 + 1 = start + right.length + 4 by omega]
  have rest := h.straight after.tail.tail (by simp [Opcode.isTransfer]) short
  rw [shortCircuitCode_length]
  refine (dup.append (branch.append (operand.append (logic.join ?_))))
  simpa [Nat.add_assoc] using rest

theorem choiceCode_stays {yes no : List Instruction} (h : Trimming code trimmed f kept)
    (placed : Placed code start (choiceCode start yes no)) (live : kept start)
    (first : kept (start + 1) → Stays kept (start + 1) (start + 1 + yes.length))
    (second : kept (start + yes.length + 2) →
      Stays kept (start + yes.length + 2) (start + yes.length + 2 + no.length)) :
    Stays kept start (start + (choiceCode start yes no).length) := by
  have branch := h.plain placed.head (branchOn_goesOn _ _) live
  have arm := first (branch.here (by omega))
  have other := second (h.target live placed.head (branchOn_target _ _))
  rw [choiceCode_length]
  refine branch.append (arm.join ?_)
  simpa [Nat.add_assoc, Nat.add_comm, Nat.add_left_comm] using other

mutual
/-- The code of an expression whose start is kept is kept as a whole. -/
theorem Expr.code_stays (h : Trimming code trimmed f kept) : (e : Expr) → (start : Nat) →
    Placed code start (e.code spell start) → kept start →
    Stays kept start (start + (e.code spell start).length)
  | .literal _, start, placed, live | .name _, start, placed, live =>
    h.straight placed (by simp [Expr.code, Opcode.isTransfer]) live
  | .array items, start, placed, live => by
    have parts := Expr.itemsCode_stays h items start placed.left live
    rw [Expr.code, List.length_append, ← Nat.add_assoc]
    exact parts.append (h.plain placed.right.head rfl (parts.here (by omega)))
  | .unary _ e, start, placed, live => by
    have operand := e.code_stays h start placed.left live
    rw [Expr.code, List.length_append, ← Nat.add_assoc]
    exact operand.append (h.plain placed.right.head rfl (operand.here (by omega)))
  | .binary op a b, start, placed, live => by
    have left := a.code_stays h start placed.left live
    have next := left.here (by omega)
    have codes := placed.right
    rw [Expr.code, List.length_append, ← Nat.add_assoc]
    refine left.append ?_
    simp only [Operation.rightCode] at codes ⊢
    cases decides : op.decides? with
    | some decided =>
      simp only [decides] at codes ⊢
      exact shortCircuitCode_stays h codes next (b.code_stays h _ codes.tail.tail.left)
    | none =>
      simp only [decides, List.length_append, ← Nat.add_assoc] at codes ⊢
      have right := b.code_stays h _ codes.left next
      exact right.append (h.straight codes.right (fun i mem => (op.instructions_plain i mem).1)
        (right.here (by omega)))
  | .choice c a b, start, placed, live => by
    have test := c.code_stays h start placed.left live
    have codes : Placed code _ (choiceCode _ _ _) := placed.right
    rw [Expr.code, List.length_append, ← Nat.add_assoc]
    exact test.append (choiceCode_stays h codes (test.here (by omega))
      (a.code_stays h _ codes.tail.left) (b.code_stays h _ codes.second))
theorem Expr.itemsCode_stays (h : Trimming code trimmed f kept) : (es : List Expr) →
    (start : Nat) → Placed code start (Expr.itemsCode spell start es) → kept start →
    Stays kept start (start + (Expr.itemsCode spell start es).length)
  | [], start, _, live => .one live
  | e :: es, start, placed, live => by
    have first := e.code_stays h start placed.left live
    have rest := Expr.itemsCode_stays h es _ placed.right (first.here (by omega))
    rw [Expr.itemsCode, List.length_append, ← Nat.add_assoc]
    exact first.append rest
end

/-!
## Movable code

Code that can start anywhere, and whose instructions stay together when a unit is sealed: that of
expressions, plain instructions, and pieces of such code one after the other. Added elsewhere, or in
a sealed unit, it is the same code from another address on.
-/

/-- Code from any address on that stays together as it moves. -/
structure Movable (code : Nat → List Instruction) : Prop where
  length (a b : Nat) : (code a).length = (code b).length
  moved (f : Nat → Nat) (start : Nat) : Together f start (code start).length →
    (code start).map (·.retarget f) = code (f start)
  stays {unit trimmed : Code} {f : Nat → Nat} {kept : Nat → Prop} (start : Nat) :
    Trimming unit trimmed f kept → Placed unit start (code start) → kept start →
    Stays kept start (start + (code start).length)

/-- An instruction that neither jumps nor ends the run of its unit. -/
def Instruction.IsPlain (i : Instruction) : Prop := i.op.isTransfer = false ∧ i.op.isBranch = false

instance (i : Instruction) : Decidable i.IsPlain := inferInstanceAs (Decidable (_ ∧ _))

theorem Expr.movable (spell : String → String) (e : Expr) : Movable (e.code spell) where
  length := e.code_length
  moved _ start := e.code_moved start
  stays start trims := e.code_stays trims start

theorem Expr.itemsCode_movable (spell : String → String) (es : List Expr) :
    Movable (Expr.itemsCode spell · es) where
  length := Expr.itemsCode_length es
  moved _ start := Expr.itemsCode_moved es start
  stays start trims := Expr.itemsCode_stays trims es start

namespace Movable

variable {code more : Nat → List Instruction}

/-- Instructions that do not jump. -/
theorem plain {is : List Instruction} (plain : ∀ i ∈ is, i.IsPlain) : Movable fun _ => is where
  length _ _ := rfl
  moved f _ _ := by
    refine (List.map_congr_left fun i mem => ?_).trans (List.map_id is)
    exact Instruction.retarget_plain (plain i mem).2
  stays _ trims placed live := trims.straight placed (fun i mem => (plain i mem).1) live

theorem one {i : Instruction} (goesOn : i.op.isTransfer = false) (noBranch : i.op.isBranch = false) :
    Movable fun _ => [i] := by
  refine plain fun j mem => ?_
  cases List.mem_singleton.1 mem
  exact ⟨goesOn, noBranch⟩

theorem append (h : Movable code) (k : Movable more) :
    Movable fun start => code start ++ more (start + (code start).length) where
  length a b := by rw [List.length_append, List.length_append, h.length a b, k.length _ (b + _)]
  moved f start together := by
    rw [List.length_append] at together
    have here := together.left _ (Nat.le_refl _)
    rw [List.map_append, h.moved f start together.left, k.moved f _ together.right, here,
      h.length start (f start)]
  stays start trims placed live := by
    have first := h.stays start trims placed.left live
    rw [List.length_append, ← Nat.add_assoc]
    exact first.append (k.stays _ trims placed.right (first.here (by omega)))

/-- Code that is added behind other code. -/
theorem shifted (h : Movable code) (start by' : Nat) :
    (code start).map (·.retarget (· + by')) = code (start + by') :=
  h.moved _ start fun j _ => Nat.add_right_comm start j by'

section Sealed

variable {unit trimmed : Code} {f : Nat → Nat} {kept : Nat → Prop} {start : Nat}
variable (h : Movable code) (trims : Trimming unit trimmed f kept)
variable (placed : Placed unit start (code start)) (live : kept start)

include h trims placed live

theorem together : Together f start (code start).length := fun j le =>
  trims.moved j fun k low high => h.stays start trims placed live k low (by omega)

/-- Code in a sealed unit starts where its first instruction went. -/
theorem placed_sealed : Placed trimmed (f start) (code (f start)) := by
  have moved := trims.placed placed (h.stays start trims placed live)
  rwa [h.moved f start (h.together trims placed live)] at moved

/-- What stands behind code stands behind it in a sealed unit too. -/
theorem behind : kept (start + (code start).length) ∧
    f (start + (code start).length) = f start + (code (f start)).length := by
  refine ⟨(h.stays start trims placed live).here (by omega), ?_⟩
  rw [h.together trims placed live _ (Nat.le_refl _), h.length start (f start)]

end Sealed

end Movable

end StackScript
