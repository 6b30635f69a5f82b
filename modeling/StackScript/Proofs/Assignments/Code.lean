import StackScript.Proofs.Assignments.Destinations
import StackScript.Proofs.Expressions.Moving

/-!
# The code of elements

The instructions that stand for the container of an element, for its last step, and for reading and
storing it. Reading and storing both start with the container and the last step.

Main statements: `Element.load_computes` and `Element.store_computes`.
-/
namespace StackScript

open Exec (Does)

variable (spell : String → String)

/-! ## Instructions -/

/-- The instructions of a step, the value that it is taken from on the stack. -/
def Part.code (start : Nat) : Part → List Instruction
  | .index e => e.code spell start ++ [⟨.loadIndex, .none⟩]
  | .field name => [⟨.member, .name (spell name)⟩]

/-- The instructions of the index that a step stands for. -/
def Part.keyCode (start : Nat) : Part → List Instruction
  | .index e => e.code spell start
  | .field name => [⟨.push, .value (.string (spell name))⟩]

/-- The instructions of steps, the first one first. -/
def stepsCode (start : Nat) : List Part → List Instruction
  | [] => []
  | p :: ps => p.code spell start ++ stepsCode (start + (p.code spell start).length) ps

namespace Element

/-- The instructions of the container of an element. -/
def containerCode (start : Nat) (d : Element) : List Instruction :=
  ⟨.load, .name (spell d.name)⟩ :: stepsCode spell (start + 1) d.steps

/-- The instructions of the container and of the index in it. -/
def partsCode (start : Nat) (d : Element) : List Instruction :=
  d.containerCode spell start ++ d.last.keyCode spell (start + (d.containerCode spell start).length)

/-- The instructions that read an element. -/
def loadCode (start : Nat) (d : Element) : List Instruction :=
  d.partsCode spell start ++ [⟨.loadIndex, .none⟩]

/-- The instructions that store the top of the stack in an element. -/
def storeCode (start : Nat) (d : Element) : List Instruction :=
  d.partsCode spell start ++ [⟨.readStack, .int 2⟩, ⟨.storeIndex, .none⟩, ⟨.drop, .int 2⟩]

end Element

/-! ## Moving -/

theorem Part.code_movable (p : Part) : Movable fun start => p.code spell start := by
  cases p with
  | index e => exact (e.movable spell).append (.one rfl rfl)
  | field name => exact .one rfl rfl

theorem Part.keyCode_movable (p : Part) : Movable fun start => p.keyCode spell start := by
  cases p with
  | index e => exact e.movable spell
  | field name => exact .one rfl rfl

theorem stepsCode_movable (ps : List Part) : Movable fun start => stepsCode spell start ps := by
  induction ps with
  | nil => exact .plain nofun
  | cons p ps ih => exact (p.code_movable spell).append ih

namespace Element

variable (d : Element)

theorem containerCode_movable : Movable fun start => d.containerCode spell start :=
  .append (.one (i := ⟨.load, .name (spell d.name)⟩) rfl rfl) (stepsCode_movable spell d.steps)

theorem partsCode_movable : Movable fun start => d.partsCode spell start :=
  (d.containerCode_movable spell).append (d.last.keyCode_movable spell)

theorem loadCode_movable : Movable fun start => d.loadCode spell start :=
  (d.partsCode_movable spell).append (.one rfl rfl)

theorem storeCode_movable : Movable fun start => d.storeCode spell start :=
  (d.partsCode_movable spell).append (.plain (by decide))

end Element

/-! ## Counts -/

/-- Whether every array in a step has so few items that a number counts them. -/
def Part.Short : Part → Prop
  | .index e => e.Short
  | .field _ => True

/-- Whether every array in an element has so few items that a number counts them. -/
def Element.Short (d : Element) : Prop := (∀ p ∈ d.steps, p.Short) ∧ d.last.Short

/-! ## Instructions on parts -/

variable {c : Context} {w : World} {code : Code} {stack : Array Value}

namespace Exec.Does

variable (high : c.base ≤ stack.size)
include high

theorem loadIndex (v key : Value) : Does c w Exec.loadIndex ((stack.push v).push key)
    (onOperands Aggregate.item v key) stack.push fun _ => () :=
  operands high (fun v key => .pushed (.lift (Aggregate.item v key) stack)) v key

theorem loadMember (name : String) (v : Value) :
    Does c w (Exec.loadMember (.name name) false) (stack.push v)
      (do Aggregate.member (← v.unchanged) name false) stack.push fun _ => () := by
  refine .first (of_ok name fun _ _ => rfl) (.bind (.popValue high v) fun v => ?_)
  exact .pushed (.lift (Aggregate.member v name false) stack)

/-- The value two places below the top is read. -/
theorem readStack (v container key : Value) :
    Does c w (Exec.readStack (.int 2)) (((stack.push v).push container).push key) (pure v)
      (((stack.push v).push container).push key).push fun _ => () := by
  refine .pushed (of_ok v fun pc s => ?_)
  have two : countOf (.int 2) 0 = 2 := rfl
  have some : ¬(((stack.push v).push container).push key).size - c.base ≤ 2 := by
    simp only [Array.size_push]
    omega
  have read : (((stack.push v).push container).push key).getD
      ((((stack.push v).push container).push key).size - 1 - 2) .nil = v := by
    simp only [Array.getD_eq_getD_getElem?, Array.size_push, Nat.add_sub_cancel, Array.getElem?_push]
    rw [if_neg (by omega), if_neg (by omega), if_pos (by omega), Option.getD_some]
  unfold Exec.peek
  rw [two, Context.at_stack, Context.at_base, if_neg some, read]
  rfl

/-- A value that is popped and not a marker is the one on top. -/
theorem popped {α β : Type} {f : Value → Exec β} {g : Value → StoreM α} {rest : α → Array Value}
    {result : α → β} (v : Value) (h : Does c w (f v) stack (g v) rest result) :
    Does c w (do f (← Exec.popValue)) (stack.push v) (do g (← v.unchanged)) rest result := by
  have top := popValue (w := w) high v
  cases marked : v.isMarker with
  | true =>
    have fails : v.unchanged = throw (.of .voidReturn) := by simp [Value.unchanged, marked]
    rw [fails] at top ⊢
    intro pc s
    obtain ⟨left, failed⟩ := top pc s
    exact ⟨left, bind_of_error failed⟩
  | false =>
    have same : v.unchanged = pure v := by simp [Value.unchanged, marked]
    rw [same] at top ⊢
    rw [pure_bind]
    exact top.first h

theorem storeIndex (container key v : Value) :
    Does c w Exec.storeIndex (((stack.push container).push key).push v) (storePart container key v)
      (fun _ => stack.push container) fun _ => () := by
  refine .popped (by simp; omega) v (.popped (by simp; omega) key (.popped high container ?_))
  have stored : Does c w (do
      (Aggregate.setItem container key v : StoreM Unit)
      Exec.push container) stack (do Aggregate.setItem container key v; pure ())
      (fun _ => stack.push container) fun _ => () :=
    .bind (.lift (Aggregate.setItem container key v) stack) fun _ => of_ok () fun _ _ => rfl
  rwa [bind_pure_unit] at stored

theorem dropTwo (v container : Value) :
    Does c w (Exec.dropValues (.int 2)) ((stack.push v).push container) (pure ())
      (fun _ => stack) fun _ => () := by
  have two := popMany (w := w) high [v, container]
  have same : stack ++ [v, container].toArray = (stack.push v).push container := rfl
  rw [same] at two
  exact .first two (of_ok () fun _ _ => rfl)

end Exec.Does

/-! ## Execution -/

variable {spell : String → String} {start : Nat}

theorem Part.code_computes {p : Part} (placed : Placed code start (p.code spell start))
    (short : p.Short) (high : c.base ≤ stack.size) (v : Value) :
    Computes c w code start (start + (p.code spell start).length) (stack.push v)
      (p.take (c.setting spell) v) stack.push := by
  cases p with
  | index e =>
    have operand := e.computes (c := c) (w := w) spell start (stack.push v) short placed.left
      (by simp; omega)
    rw [Part.code, List.length_append, ← Nat.add_assoc]
    exact operand.bind (e.eval_codes _) fun key =>
      .instruction placed.right.head (by simp) (.loadIndex high v key)
  | field name => exact .instruction placed.head (by simp) (.loadMember high (spell name) v)

theorem Part.keyCode_computes {p : Part} (placed : Placed code start (p.keyCode spell start))
    (short : p.Short) (high : c.base ≤ stack.size) :
    Computes c w code start (start + (p.keyCode spell start).length) stack
      (p.key (c.setting spell)) stack.push := by
  cases p with
  | index e => exact e.computes spell start stack short placed high
  | field name => exact .instruction placed.head (by simp) (.push (.string (spell name)) stack)

theorem stepsCode_computes {ps : List Part} (placed : Placed code start (stepsCode spell start ps))
    (short : ∀ p ∈ ps, p.Short) (high : c.base ≤ stack.size) (v : Value) :
    Computes c w code start (start + (stepsCode spell start ps).length) (stack.push v)
      (follow (c.setting spell) ps v) stack.push := by
  induction ps generalizing start v with
  | nil => exact .refl v rfl
  | cons p ps ih =>
    obtain ⟨one, others⟩ := List.forall_mem_cons.1 short
    rw [stepsCode, List.length_append, ← Nat.add_assoc]
    refine (Part.code_computes placed.left one high v).bind ?_ (ih placed.right others)
    exact fun s => ((p.take_sparing (c.setting spell) v).store s).codes

namespace Element

variable {d : Element}

/-- The container and the index in it are left on the stack. -/
theorem partsCode_computes (placed : Placed code start (d.partsCode spell start)) (short : d.Short)
    (high : c.base ≤ stack.size) :
    Computes c w code start (start + (d.partsCode spell start).length) stack
      (d.parts (c.setting spell)) fun r => (stack.push r.1).push r.2 := by
  have name : Computes c w code start (start + 1) stack (lookup c.scope (spell d.name))
      stack.push := .instruction placed.left.head (by simp) (.loadName (spell d.name) stack)
  have container : Computes c w code start (start + (d.containerCode spell start).length) stack
      (d.container (c.setting spell)) stack.push := by
    rw [containerCode, List.length_cons, Nat.add_comm _ 1, ← Nat.add_assoc]
    exact name.bind (fun s => ((lookup_sparing _ _).store s).codes)
      (stepsCode_computes placed.left.tail short.1 high)
  rw [partsCode, List.length_append, ← Nat.add_assoc]
  refine container.bind (fun s => ((d.container_sparing (c.setting spell)).store s).codes)
    fun v => ?_
  exact (Part.keyCode_computes placed.right short.2 (by simp; omega)).map
    (fun s => ((d.last.key_sparing (c.setting spell)).store s).codes) (v, ·) fun _ => rfl

/-- Reading an element has the effect of its code. -/
theorem load_computes (placed : Placed code start (d.loadCode spell start)) (short : d.Short)
    (high : c.base ≤ stack.size) :
    Computes c w code start (start + (d.loadCode spell start).length) stack
      (d.load (c.setting spell)) stack.push := by
  rw [loadCode, List.length_append, ← Nat.add_assoc]
  refine (partsCode_computes placed.left short high).bind
    (fun s => ((d.parts_sparing (c.setting spell)).store s).codes) fun r => ?_
  exact .instruction placed.right.head (by simp) (.loadIndex high r.1 r.2)

/-- Storing the top of the stack in an element has the effect of its code. -/
theorem store_computes (placed : Placed code start (d.storeCode spell start)) (short : d.Short)
    (high : c.base ≤ stack.size) (v : Value) :
    Computes c w code start (start + (d.storeCode spell start).length) (stack.push v)
      (d.store (c.setting spell) v) fun _ => stack := by
  rw [storeCode, List.length_append, ← Nat.add_assoc]
  have above : c.base ≤ (stack.push v).size := by
    simp
    omega
  refine (partsCode_computes placed.left short above).bind
    (fun s => ((d.parts_sparing (c.setting spell)).store s).codes) fun r => ?_
  have tail := placed.right
  refine .first (.instruction tail.head (by simp) (.readStack high v r.1 r.2)) ?_
  have stored : Computes c w code _ _ _ (storePart r.1 r.2 v) _ :=
    .instruction (w := w) tail.tail.head (by simp) (.storeIndex above r.1 r.2 v)
  have dropped : Computes c w code _ _ _ (pure ()) _ :=
    .instruction (w := w) tail.tail.tail.head (by simp) (.dropTwo high v r.1)
  have both := stored.bind (fun s => ((storePart_sparing r.1 r.2 v).store s).codes) fun _ => dropped
  rwa [bind_pure_unit] at both

end Element

end StackScript
