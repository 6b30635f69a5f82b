import StackScript.Proofs.Statements.Syntax

/-!
# Prologues

The instructions that every function starts with: they check the number of arguments, fetch an
argument for each parameter, the last one of a variadic function all that are left, and bind the
receiver. None of them jumps, so they stay at the start when the unit is sealed.

Main statements: `Declaration.prologue_plain` and `Declaration.Enters.close`.
-/
namespace StackScript

/-! ## Parameters -/

/-- The instructions that convert the top of the stack as a parameter of a type asks. -/
def Ty.receiveCode (strict : Bool) (t : Ty) : List Instruction :=
  if t.isInterface || t.kind == .function || t.kind == .pointer then []
  else if t.kind == .struct then [⟨.copy, .none⟩]
  else [⟨if strict then .coerce else .requiredType, .value (.type t)⟩]

/-- The instructions that push an argument. -/
def fetchArgument (index : Nat) : List Instruction :=
  [⟨.load, .name "_args"⟩, ⟨.push, .value (.int (Int64.ofNat index))⟩, ⟨.loadIndex, .none⟩]

/-- The instructions that push the array of all arguments from a place on. -/
def fetchRest (index : Nat) : List Instruction :=
  [⟨.load, .name "_args"⟩, ⟨.push, .value (.int (Int64.ofNat index))⟩, ⟨.load, .name "len"⟩,
    ⟨.load, .name "_args"⟩, ⟨.call, callOperand 1 ({} : CallFlags).toInt⟩, ⟨.loadSlice, .none⟩]

/-- The type that is asked of what a parameter is bound to; `isRest` if those are all arguments that
are left. -/
def Parameter.target (p : Parameter) (isRest : Bool) : Ty :=
  if isRest && !p.type.isInterface then .array p.type else p.type

/-- The instructions that bind a parameter. -/
def Parameter.code (strict isRest : Bool) (index : Nat) (p : Parameter) : List Instruction :=
  (if isRest then fetchRest index else fetchArgument index) ++
    (p.target isRest).receiveCode strict ++ storeCode true p.name

/-- The instructions that bind parameters from a place on. -/
def parametersCode (strict variadic : Bool) : (index : Nat) → List Parameter → List Instruction
  | _, [] => []
  | index, p :: rest =>
    p.code strict (variadic && rest.isEmpty) index ++ parametersCode strict variadic (index + 1) rest

/-- The instructions that bind a receiver. -/
def receiverCode : Option CompileM.Receiver → List Instruction
  | some r => [⟨.loadThis, .none⟩] ++ (if r.shared then [] else [⟨.copy, .none⟩]) ++
      storeCode true r.name
  | none => []

/-! ## Functions -/

namespace Declaration

variable (d : Declaration)

/-- The check of the number of arguments. -/
def checkArity : Instruction :=
  ⟨.argCheck, .tuple [.int (Int64.ofNat d.minArgs),
    .int (if d.variadic then -1 else Int64.ofNat d.parameters.length), .name d.name]⟩

/-- What a function starts with, where code on line `line` follows code on line `last`. -/
def prologue (strict : Bool) (line last : Nat) (receiver : Option CompileM.Receiver) :
    List Instruction :=
  lineCode line last ++ [d.checkArity] ++ parametersCode strict d.variadic 0 d.parameters ++
    receiverCode receiver

/-- The code of a function starts with its prologue, and no two names that this binds are the
same. -/
def Enters (strict : Bool) (code : Code) : Prop :=
  ∃ (line last : Nat) (receiver : Option CompileM.Receiver),
    d.receiver = receiver.map CompileM.Receiver.name ∧
    Placed code 0 (d.prologue strict line last receiver) ∧
      ((d.parameters.map Parameter.name ++ receiver.toList.map CompileM.Receiver.name).filter
        (· ≠ "_")).Nodup

end Declaration

/-! ## Plain code -/

theorem Ty.receiveCode_plain (strict : Bool) (t : Ty) : ∀ i ∈ t.receiveCode strict, i.IsPlain := by
  unfold Ty.receiveCode
  split
  · exact nofun
  · split
    · decide
    · cases strict <;> simp [Instruction.IsPlain, Opcode.isTransfer, Opcode.isBranch]

theorem Parameter.code_plain (strict isRest : Bool) (index : Nat) (p : Parameter) :
    ∀ i ∈ p.code strict isRest index, i.IsPlain := by
  have fetches : ∀ i ∈ if isRest then fetchRest index else fetchArgument index, i.IsPlain := by
    cases isRest <;>
      simp [fetchRest, fetchArgument, Instruction.IsPlain, Opcode.isTransfer, Opcode.isBranch]
  intro i mem
  rcases List.mem_append.1 mem with mem | mem
  · exact (List.mem_append.1 mem).elim (fetches i) (Ty.receiveCode_plain strict _ i)
  · exact storeCode_plain true p.name i mem

theorem parametersCode_plain (strict variadic : Bool) (index : Nat) (ps : List Parameter) :
    ∀ i ∈ parametersCode strict variadic index ps, i.IsPlain := by
  induction ps generalizing index with
  | nil => exact nofun
  | cons p rest ih =>
    intro i mem
    exact (List.mem_append.1 mem).elim (p.code_plain strict _ index i) (ih (index + 1) i)

theorem receiverCode_plain (receiver : Option CompileM.Receiver) :
    ∀ i ∈ receiverCode receiver, i.IsPlain := by
  cases receiver with
  | none => exact nofun
  | some r =>
    intro i mem
    rcases List.mem_append.1 mem with mem | mem
    · have fetches : ∀ shared : Bool, ∀ i ∈ [⟨.loadThis, .none⟩] ++
          if shared then [] else [(⟨.copy, .none⟩ : Instruction)], i.IsPlain := by decide
      exact fetches r.shared i mem
    · exact storeCode_plain true r.name i mem

namespace Declaration

variable {d : Declaration}

theorem prologue_plain (strict : Bool) (line last : Nat) (receiver : Option CompileM.Receiver) :
    ∀ i ∈ d.prologue strict line last receiver, i.IsPlain := by
  have notes : ∀ i ∈ lineCode line last, i.IsPlain := by
    unfold lineCode
    split <;> simp [Instruction.IsPlain, Opcode.isTransfer, Opcode.isBranch]
  intro i mem
  rcases List.mem_append.1 mem with mem | mem
  · rcases List.mem_append.1 mem with mem | mem
    · rcases List.mem_append.1 mem with mem | mem
      · exact notes i mem
      · cases List.mem_singleton.1 mem
        exact ⟨rfl, rfl⟩
    · exact parametersCode_plain strict d.variadic 0 d.parameters i mem
  · exact receiverCode_plain receiver i mem

/-- Sealing a unit leaves its prologue where it is. -/
theorem Enters.close {strict : Bool} {code : Code} (h : d.Enters strict code) :
    d.Enters strict code.close := by
  obtain ⟨line, last, receiver, named, placed, distinct⟩ := h
  refine ⟨line, last, receiver, named, ?_, distinct⟩
  cases isSealed : code.isSealed with
  | true => rwa [Code.close, isSealed, if_pos rfl]
  | false =>
    obtain ⟨move, kept, trims⟩ := Code.close_trims isSealed
    have there := (Movable.plain (prologue_plain strict line last receiver)).placed_sealed trims
      placed trims.first
    rwa [trims.start] at there

end Declaration

end StackScript
