import Mathlib.Data.List.Basic
import StackScript.Compiler.Program

/-!
# Steps of compilation

What the steps of a compiler do when they succeed: read tokens that are ahead, and emit
instructions. `emitted` is the compiler after both.

Main statements: `emitted_emitted` (readings and emissions join), `patch_emitted` (a branch that is
patched later is one that was emitted with its target), one equation for each step, `capture_of` and
`append_holds`.
-/
namespace StackScript

/-! ## Code -/

namespace Code

/-- Add instructions one after the other. -/
def pushAll (code : Code) (is : List Instruction) : Code := is.foldl push code

variable (code : Code) (is js : List Instruction)

@[simp] theorem pushAll_nil : code.pushAll [] = code := rfl

@[simp] theorem pushAll_pushAll : (code.pushAll is).pushAll js = code.pushAll (is ++ js) := by
  simp [pushAll]

@[simp] theorem pushAll_isSealed : (code.pushAll is).isSealed = code.isSealed := by
  induction is generalizing code with
  | nil => rfl
  | cons i is ih => exact ih (code.push i)

@[simp] theorem pushAll_instructions :
    (code.pushAll is).instructions = code.instructions ++ is.toArray := by
  induction is generalizing code with
  | nil => simp
  | cons i is ih => exact (ih (code.push i)).trans (by simp [push])

@[simp] theorem size_pushAll : (code.pushAll is).size = code.size + is.length := by
  simp [size]

theorem emit_eq {code : Code} (unsealed : code.isSealed = false) (op : Opcode)
    (operand : Operand) : code.emit op operand = .ok (code.pushAll [⟨op, operand⟩]) := by
  simp [emit, unsealed, pushAll]

/-- The slots that are set aside depend on the number of instructions only. -/
theorem pushAll_capacity {a b : Code} (size : a.size = b.size) (capacity : a.capacity = b.capacity)
    {is js : List Instruction} (length : is.length = js.length) :
    (a.pushAll is).capacity = (b.pushAll js).capacity := by
  induction is generalizing a b js with
  | nil =>
    cases List.length_eq_zero_iff.1 length.symm
    exact capacity
  | cons i is ih =>
    cases js with
    | nil => cases length
    | cons j js =>
      refine ih (a := a.push i) (b := b.push j) ?_ ?_ (Nat.succ.inj length)
      · rw [size_push, size_push, size]
      · simp only [push, size, capacity]

theorem pushAll_eq :
    code.pushAll is = { code with
      instructions := code.instructions ++ is.toArray
      capacity := (code.pushAll is).capacity } := by
  induction is generalizing code with
  | nil => simp
  | cons i is ih =>
    have := ih (code.push i)
    rw [pushAll, List.foldl_cons, ← pushAll, this]
    simp [push]

/-- Patching a branch gives the code that was emitted with the target at once. -/
theorem setAddress_pushAll {target : Nat} {i : Instruction} (before : List Instruction)
    (within : target ≤ code.size + before.length + 1 + is.length) :
    (code.pushAll (before ++ i :: is)).setAddress (code.size + before.length) target =
      .ok (code.pushAll (before ++ { i with operand := .address target } :: is)) := by
  have inside : ¬((code.pushAll (before ++ i :: is)).size ≤ code.size + before.length ∨
      (code.pushAll (before ++ i :: is)).size < target) := by
    simp
    omega
  unfold setAddress
  rw [if_neg inside, pushAll_eq code (before ++ { i with operand := .address target } :: is),
    pushAll_eq code (before ++ i :: is)]
  simp only [Except.ok.injEq, mk.injEq, true_and, and_true]
  refine ⟨?_, pushAll_capacity rfl rfl (by simp)⟩
  refine Array.ext_getElem? fun j => ?_
  simp only [size, Array.getElem?_modify, Array.getElem?_append]
  grind

/-- Overwriting the last instruction gives the code that was emitted with the other one at once. -/
theorem emitAt_pushAll {code : Code} (unsealed : code.isSealed = false) (is : List Instruction)
    (i : Instruction) (op : Opcode) (operand : Operand) :
    (code.pushAll (is ++ [i])).emitAt ((code.pushAll (is ++ [i])).size - 1) op operand =
      .ok (code.pushAll (is ++ [⟨op, operand⟩])) := by
  obtain ⟨j, hj⟩ : ∃ j : Instruction, j = ⟨op, operand⟩ := ⟨_, rfl⟩
  have size : (code.pushAll (is ++ [i])).size = code.size + is.length + 1 := by simp [Nat.add_assoc]
  unfold emitAt
  rw [if_neg (by simp [unsealed]), size, if_neg (by omega), ← hj, pushAll_eq code (is ++ [j]),
    pushAll_eq code (is ++ [i])]
  simp only [Except.ok.injEq, mk.injEq, true_and, and_true, Nat.add_sub_cancel]
  refine ⟨?_, pushAll_capacity rfl rfl (by simp)⟩
  refine Array.ext_getElem? fun k => ?_
  simp only [Code.size, Array.getElem?_setIfInBounds, Array.getElem?_append]
  grind

end Code

/-! ## Compilers -/

namespace Compiler

/-- A compiler that has read tokens and emitted instructions. -/
def emitted (c : Compiler) (count : Nat) (is : List Instruction) : Compiler :=
  { c with
    cursor := { c.cursor with pos := c.cursor.pos + count }
    draft := { c.draft with code := c.draft.code.pushAll is } }

/-- The address of the next instruction. -/
def here (c : Compiler) : Nat := c.draft.code.size

variable (c : Compiler) (m n : Nat) (is js : List Instruction)

@[simp] theorem emitted_nothing : c.emitted 0 [] = c := rfl

@[simp] theorem emitted_emitted :
    (c.emitted m is).emitted n js = c.emitted (m + n) (is ++ js) := by
  simp [emitted, Nat.add_assoc]

@[simp] theorem emitted_here : (c.emitted n is).here = c.here + is.length := by
  simp [emitted, here]

@[simp] theorem emitted_isSealed :
    (c.emitted n is).draft.code.isSealed = c.draft.code.isSealed := by
  simp [emitted]

@[simp] theorem emitted_tokens : (c.emitted n is).cursor.tokens = c.cursor.tokens := rfl

@[simp] theorem emitted_pos : (c.emitted n is).cursor.pos = c.cursor.pos + n := rfl

@[simp] theorem emitted_last : (c.emitted n is).cursor.last = c.cursor.last := rfl

@[simp] theorem emitted_noStructLiteral :
    (c.emitted n is).noStructLiteral = c.noStructLiteral := rfl

@[simp] theorem emitted_structTypes : (c.emitted n is).structTypes = c.structTypes := rfl

@[simp] theorem emitted_normalize : (c.emitted n is).normalize = c.normalize := rfl

/-- A compiler that has read as far as another one reads on as the other does. -/
theorem emitted_cursor {c' : Compiler} {m n k : Nat} (h : c'.cursor = (c.emitted m []).cursor)
    (total : k = m + n) : (c'.emitted n is).cursor = (c.emitted k js).cursor := by
  simp only [emitted] at h ⊢
  rw [h, total, Nat.add_assoc]

/-! ## Tokens ahead -/

/-- The next tokens of a compiler are these. -/
def Ahead (c : Compiler) (ts : List Token) : Prop := ts <+: c.cursor.tokens.toList.drop c.cursor.pos

variable {c} {ts us : List Token} {t : Token}

theorem Ahead.left (h : c.Ahead (ts ++ us)) : c.Ahead ts := (List.prefix_append ts us).trans h

theorem Ahead.right (h : c.Ahead (ts ++ us)) (is : List Instruction) :
    (c.emitted ts.length is).Ahead us := by
  obtain ⟨rest, h⟩ := h
  refine ⟨rest, ?_⟩
  rw [emitted_tokens, emitted_pos, ← List.drop_drop, ← h]
  simp

theorem Ahead.head (h : c.Ahead (t :: ts)) : c.cursor.tokens[c.cursor.pos]? = some t := by
  obtain ⟨rest, h⟩ := h
  have := congrArg (·[0]?) h
  simpa [List.getElem?_drop] using this.symm

theorem Ahead.tail (h : c.Ahead (t :: ts)) (is : List Instruction) : (c.emitted 1 is).Ahead ts :=
  @Ahead.right c [t] ts h is

theorem Ahead.lt (h : c.Ahead (t :: ts)) : c.cursor.pos < c.cursor.tokens.size :=
  (Array.getElem?_eq_some_iff.1 h.head).1

theorem Ahead.current (h : c.Ahead (t :: ts)) : c.cursor.current = t := by
  simp only [Token.Cursor.current, Token.Cursor.peek, Nat.sub_self, Nat.add_zero,
    Array.getD_eq_getD_getElem?, h.head, Option.getD_some]

theorem Ahead.bound (h : c.Ahead ts) : ts.length ≤ c.cursor.tokens.size - c.cursor.pos := by
  simpa using List.IsPrefix.length_le h

theorem Ahead.isNext (h : c.Ahead (t :: ts)) (text : String) :
    c.cursor.isNext text = t.is text := by
  rw [Token.Cursor.isNext, h.current]

theorem Ahead.atEnd (h : c.Ahead (t :: ts)) : c.cursor.atEnd = false := by
  simpa [Token.Cursor.atEnd] using h.lt

/-- Whether the next token stands on the line of the one before it. -/
def sameLine (c : Compiler) : Bool :=
  !c.cursor.atEnd && c.cursor.current.line == c.cursor.previous.line

/-- The token read last is the one that was ahead before it was read. -/
theorem previous_emitted (c : Compiler) (n : Nat) (is js : List Instruction) :
    (c.emitted (n + 1) is).cursor.previous = (c.emitted n js).cursor.current := by
  rw [Token.Cursor.previous, if_neg (by rw [emitted_pos]; omega)]
  rfl

/-- Behind the last token there is the one that stands for the end. -/
theorem current_atEnd (h : c.cursor.atEnd = true) : c.cursor.current = c.cursor.last := by
  have : c.cursor.tokens.size ≤ c.cursor.pos := by simpa [Token.Cursor.atEnd] using h
  rw [Token.Cursor.current, Token.Cursor.peek, Array.getD_eq_getD_getElem?,
    Array.getElem?_eq_none (by omega), Option.getD_none]

theorem current_of_not_atEnd (c : Compiler) (h : c.cursor.atEnd = false) :
    c.cursor.tokens[c.cursor.pos]? = some c.cursor.current := by
  have : c.cursor.pos < c.cursor.tokens.size := by simpa [Token.Cursor.atEnd] using h
  rw [Token.Cursor.current, Token.Cursor.peek, Array.getD_eq_getD_getElem?, Nat.sub_self,
    Nat.add_zero, Array.getElem?_eq_getElem this, Option.getD_some]

/-- Behind tokens the one that was read last is the last of them. -/
theorem Ahead.previous (h : c.Ahead (ts ++ us)) (some : ts ≠ []) (is : List Instruction) :
    (c.emitted ts.length is).cursor.previous = ts.getLast some := by
  obtain ⟨before, last, rfl⟩ : ∃ before last, ts = before ++ [last] :=
    ⟨_, _, (List.dropLast_concat_getLast some).symm⟩
  rw [List.length_append, List.length_singleton, previous_emitted c _ is is, List.getLast_concat]
  rw [List.append_assoc] at h
  exact (h.right is).current

/-- Whether the token behind others stands on the line of the last one is known. -/
theorem Ahead.sameLine_eq (h : c.Ahead (ts ++ t :: us)) (some : ts ≠ []) (is : List Instruction) :
    (c.emitted ts.length is).sameLine = (t.line == (ts.getLast some).line) := by
  have next := h.right is
  rw [Compiler.sameLine, next.atEnd, next.current, h.previous some is]
  rfl

/-- A token on the line of the last one that was read is known as such. -/
theorem Ahead.sameLine (h : c.Ahead (ts ++ t :: us)) (some : ts ≠ [])
    (follows : ∀ u ∈ ts.getLast?, t.line = u.line) (is : List Instruction) :
    (c.emitted ts.length is).sameLine = true := by
  rw [h.sameLine_eq some is, beq_iff_eq]
  exact follows _ (List.getLast?_eq_getLast_of_ne_nil some)

end Compiler

/-! ## Steps -/

namespace CompileM

variable {α β : Type} {c c' : Compiler} {t : Token} {ts : List Token} {text : String}

/-- A sequence whose first part has succeeded goes on with the second. -/
theorem bind_of_ok {m : CompileM α} {f : α → CompileM β} {a : α} (h : m c = (.ok a, c')) :
    (m >>= f) c = f a c' := by
  simp only [Bind.bind, ExceptT.bind, ExceptT.mk, StateT.bind, h]
  rfl

theorem get_eq (c : Compiler) : (get : CompileM Compiler) c = (.ok c, c) := rfl

theorem current_of (h : c.Ahead (t :: ts)) : current c = (.ok t, c) := by
  rw [← h.current]
  rfl

theorem sameLine_eq (c : Compiler) : sameLine c = (.ok c.sameLine, c) := rfl

theorem skip_of (h : c.Ahead (t :: ts)) :
    moveCursor Token.Cursor.skip c = (.ok (), c.emitted 1 []) := by
  have : moveCursor Token.Cursor.skip c =
      (.ok (), { c with cursor := c.cursor.skip }) := rfl
  rw [this, Token.Cursor.skip, if_pos h.lt]
  rfl

theorem isNext_of (h : c.Ahead (t :: ts)) (text : String) :
    isNext text c = (.ok (t.is text), c) := by
  rw [← h.isNext]
  rfl

theorem accept_of (h : c.Ahead (t :: ts)) (is : t.is text) :
    accept text c = (.ok true, c.emitted 1 []) := by
  refine (bind_of_ok (isNext_of h text)).trans ?_
  rw [if_pos is]
  exact bind_of_ok (skip_of h)

theorem accept_other (h : c.cursor.isNext text = false) : accept text c = (.ok false, c) := by
  have : isNext text c = (.ok false, c) := by
    rw [← h]
    rfl
  exact bind_of_ok this

theorem expect_of (h : c.Ahead (t :: ts)) (is : t.is text) :
    expect text c = (.ok (), c.emitted 1 []) :=
  bind_of_ok (accept_of h is)

theorem editCode_of {f : Code → Except Fault Code} {code : Code}
    (h : f c.draft.code = .ok code) :
    editCode f c = (.ok (), { c with draft := { c.draft with code := code } }) := by
  unfold editCode
  refine (bind_of_ok (get_eq c)).trans ?_
  rw [h]
  rfl

theorem editCode_error {f : Code → Except Fault Code} {fault : Fault}
    (h : f c.draft.code = .error fault) : editCode f c = (.error fault, c) := by
  unfold editCode
  refine (bind_of_ok (get_eq c)).trans ?_
  rw [h]
  rfl

theorem emit_of (unsealed : c.draft.code.isSealed = false) (op : Opcode) (operand : Operand) :
    emit op operand c = (.ok (), c.emitted 0 [⟨op, operand⟩]) :=
  editCode_of (Code.emit_eq unsealed op operand)

theorem emitFixup_of (unsealed : c.draft.code.isSealed = false) (op : Opcode) :
    emitFixup op c = (.ok c.here, c.emitted 0 [⟨op, .address 0⟩]) := by
  have marked : mark c = (.ok c.here, c) := rfl
  exact (bind_of_ok marked).trans (bind_of_ok (emit_of unsealed op (.address 0)))

/-- Patching a branch that was emitted gives the compiler that emitted it with its target. -/
theorem patch_emitted {target fixup : Nat} {i : Instruction} {before is : List Instruction}
    (n : Nat) (address : fixup = c.here + before.length)
    (within : target ≤ c.here + before.length + 1 + is.length) :
    patch fixup target (c.emitted n (before ++ i :: is)) =
      (.ok (), c.emitted n (before ++ { i with operand := .address target } :: is)) := by
  subst address
  exact editCode_of (Code.setAddress_pushAll c.draft.code is before within)

theorem emit_emitted (unsealed : c.draft.code.isSealed = false) (n : Nat) (is : List Instruction)
    (op : Opcode) (operand : Operand) :
    emit op operand (c.emitted n is) = (.ok (), c.emitted n (is ++ [⟨op, operand⟩])) := by
  refine (emit_of ((c.emitted_isSealed n is).trans unsealed) op operand).trans ?_
  rw [c.emitted_emitted, Nat.add_zero]

theorem emitFixup_emitted (unsealed : c.draft.code.isSealed = false) (n : Nat)
    (is : List Instruction) (op : Opcode) :
    emitFixup op (c.emitted n is) =
      (.ok (c.here + is.length), c.emitted n (is ++ [⟨op, .address 0⟩])) := by
  refine (emitFixup_of ((c.emitted_isSealed n is).trans unsealed) op).trans ?_
  rw [c.emitted_here, c.emitted_emitted, Nat.add_zero]

theorem patchHere_emitted {target fixup : Nat} (n : Nat) (before : List Instruction)
    (i : Instruction) (is : List Instruction) (address : fixup = c.here + before.length)
    (here : target = c.here + before.length + 1 + is.length) :
    patchHere fixup (c.emitted n (before ++ i :: is)) =
      (.ok (), c.emitted n (before ++ { i with operand := .address target } :: is)) := by
  have marked : mark (c.emitted n (before ++ i :: is)) =
      (.ok target, c.emitted n (before ++ i :: is)) := by
    have : mark (c.emitted n (before ++ i :: is)) =
        (.ok (c.emitted n (before ++ i :: is)).here, c.emitted n (before ++ i :: is)) := rfl
    rw [this, c.emitted_here, here]
    simp [Nat.add_assoc, Nat.add_comm 1]
  exact (bind_of_ok marked).trans (patch_emitted n address (Nat.le_of_eq here))

/-! ## Turns -/

/-- A turn that is followed by others while it asks for them. -/
def whileTurn (turn : CompileM Bool) : Unit → CompileM (Turn Unit Unit) := fun _ => do
  if ← turn then pure (.again ()) else pure (.done ())

variable {σ : Type} {turn : CompileM Bool}

theorem turns_again {step : σ → CompileM (Turn σ β)} {state state' : σ}
    (h : step state c = (.ok (.again state'), c')) (left : Nat) :
    turns step (left + 1) state c = turns step left state' c' := bind_of_ok h

theorem turns_done {step : σ → CompileM (Turn σ β)} {state : σ} {b : β}
    (h : step state c = (.ok (.done b), c')) (left : Nat) :
    turns step (left + 1) state c = (.ok b, c') := bind_of_ok h

theorem while_again (h : turn c = (.ok true, c')) (left : Nat) :
    turns (whileTurn turn) (left + 1) () c = turns (whileTurn turn) left () c' :=
  turns_again (bind_of_ok h) left

theorem while_done (h : turn c = (.ok false, c')) (left : Nat) :
    turns (whileTurn turn) (left + 1) () c = (.ok (), c') := turns_done (bind_of_ok h) left

theorem repeatWhile_eq (turn : CompileM Bool) (c : Compiler) :
    repeatWhile turn c =
      turns (whileTurn turn) (c.cursor.tokens.size - c.cursor.pos + 2) () c := rfl

theorem repeatTurns_eq (state : σ) (step : σ → CompileM (Turn σ β)) (c : Compiler) :
    repeatTurns state step c = turns step (c.cursor.tokens.size - c.cursor.pos + 2) state c := rfl

theorem repeatWhile_done (h : turn c = (.ok false, c')) : repeatWhile turn c = (.ok (), c') := by
  rw [repeatWhile_eq]
  exact while_done h _

end CompileM

/-!
## Code on the side

Some code is compiled before it is known where it goes: it is captured, kept, and added later, once
or more than once. Its branches move along to where it is added.
-/

/-- Code that is made of nothing but these instructions. -/
structure Code.Holds (code : Code) (is : List Instruction) : Prop where
  instructions : code.instructions = is.toArray
  unsealed : code.isSealed = false
  constants : code.constants = []

namespace Code.Holds

variable {code other : Code} {is js : List Instruction}

theorem size (h : code.Holds is) : code.size = is.length := by simp [Code.size, h.instructions]

/-- A unit with nothing in it but a name. -/
theorem empty (name : String) : ({ name := name } : Code).Holds [] := ⟨rfl, rfl, rfl⟩

theorem pushAll (h : code.Holds is) (js : List Instruction) :
    (code.pushAll js).Holds (is ++ js) where
  instructions := by simp [h.instructions]
  unsealed := by simp [h.unsealed]
  constants := by rw [pushAll_eq]; exact h.constants

/-- Code that was made on the side moves to where it is added. -/
theorem append (h : other.Holds js) (unsealed : code.isSealed = false) :
    code.append other = .ok (code.pushAll (js.map (·.retarget (· + code.size)))) := by
  unfold Code.append
  rw [if_neg (by simp [unsealed]), h.instructions, h.constants]
  simp only [addConstants, List.foldl_nil, List.size_toArray, List.foldl_toArray', Code.pushAll,
    List.foldl_map]

end Code.Holds

/-- Code that was compiled on the side. -/
def aside (is : List Instruction) : Code := Code.pushAll { name := "scratch" } is

theorem aside_holds (is : List Instruction) : (aside is).Holds is := (Code.Holds.empty _).pushAll is

namespace CompileM

variable {c : Compiler}

theorem capture_of {step : CompileM Unit} {n : Nat} {is : List Instruction}
    (h : step (setCode { name := "scratch" } c) =
      (.ok (), (setCode { name := "scratch" } c).emitted n is)) :
    capture step c = (.ok (aside is), c.emitted n []) := by
  unfold capture
  rw [h]
  rfl

/-- Code that was compiled on the side is moved to where it is added. -/
theorem append_holds {code : Code} {is : List Instruction} (h : code.Holds is)
    (unsealed : c.draft.code.isSealed = false) :
    append code c = (.ok (), c.emitted 0 (is.map (·.retarget (· + c.here)))) :=
  editCode_of (h.append unsealed)

end CompileM

end StackScript
