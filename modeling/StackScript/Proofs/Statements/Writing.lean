import StackScript.Proofs.Expressions.Parsing
import StackScript.Proofs.Statements.Syntax

/-!
# Compilers that write slots

A compiler emits the branch of a `break` or `continue` with a placeholder and notes where it stands
with the innermost loop. `wrote` is the compiler after both; what it knows of names, scopes and
lines changes apart from that.

Main statements: `wrote_wrote` (writings join), `patchAll_fill` and `closeLoop_of` (the end of a loop
gives all branches that were noted their targets).
-/
namespace StackScript

/-! ## Where branches stand -/

/-- The addresses of the branches of `break`, or of `continue`, in slots from an address on. -/
def leavesAt (isBreak : Bool) : (start : Nat) → List Slot → List Nat
  | _, [] => []
  | start, .plain _ :: rest => leavesAt isBreak (start + 1) rest
  | start, .leave other :: rest =>
    if other = isBreak then start :: leavesAt isBreak (start + 1) rest
    else leavesAt isBreak (start + 1) rest

theorem leavesAt_plain (isBreak : Bool) (start : Nat) (is : List Instruction) :
    leavesAt isBreak start (plain is) = [] := by
  induction is generalizing start with
  | nil => rfl
  | cons i is ih => exact ih (start + 1)

theorem leavesAt_append (isBreak : Bool) (start : Nat) (a b : List Slot) :
    leavesAt isBreak start (a ++ b) =
      leavesAt isBreak start a ++ leavesAt isBreak (start + a.length) b := by
  induction a generalizing start with
  | nil => simp [leavesAt]
  | cons slot a ih =>
    have behind : start + (slot :: a).length = start + 1 + a.length := by
      rw [List.length_cons]
      omega
    rw [behind, List.cons_append]
    cases slot with
    | plain i => exact ih (start + 1)
    | leave other =>
      simp only [leavesAt, ih (start + 1)]
      split
      · rfl
      · rfl

/-- A loop with which the branches in slots have been noted. -/
def OpenLoop.noted (l : OpenLoop) (start : Nat) (slots : List Slot) : OpenLoop :=
  { l with
    breaks := l.breaks ++ leavesAt true start slots
    continues := l.continues ++ leavesAt false start slots }

/-- Loops, with the innermost of which the branches in slots have been noted. -/
def noteLeaves (start : Nat) (slots : List Slot) : List OpenLoop → List OpenLoop
  | [] => []
  | l :: outer => l.noted start slots :: outer

theorem noteLeaves_plain (start : Nat) (is : List Instruction) (loops : List OpenLoop) :
    noteLeaves start (plain is) loops = loops := by
  cases loops with
  | nil => rfl
  | cons l outer => simp [noteLeaves, OpenLoop.noted, leavesAt_plain]

theorem noteLeaves_append (start : Nat) (a b : List Slot) (loops : List OpenLoop) :
    noteLeaves start (a ++ b) loops =
      noteLeaves (start + a.length) b (noteLeaves start a loops) := by
  cases loops with
  | nil => rfl
  | cons l outer => simp [noteLeaves, OpenLoop.noted, leavesAt_append]

theorem noteLeaves_patched (start : Nat) (a b : List Slot) (i j : Instruction)
    (loops : List OpenLoop) : noteLeaves start (a ++ .plain i :: b) loops =
      noteLeaves start (a ++ .plain j :: b) loops := by
  cases loops with
  | nil => rfl
  | cons l outer => simp [noteLeaves, OpenLoop.noted, leavesAt_append, leavesAt]

/-! ## Compilers -/

/-- Slots as they are written before `break` and `continue` are known to lead anywhere. -/
def blanks (slots : List Slot) : List Instruction := fill (fun _ => 0) slots

namespace Compiler

/-- A compiler with other loops around what it reads. -/
def inLoops (c : Compiler) (loops : List OpenLoop) : Compiler :=
  { c with draft := { c.draft with loops := loops } }

/-- A compiler that has read tokens and written slots. -/
def wrote (c : Compiler) (count : Nat) (slots : List Slot) : Compiler :=
  (c.inLoops (noteLeaves c.here slots c.draft.loops)).emitted count (blanks slots)

/-- A compiler one scope deeper. -/
def deeper (c : Compiler) : Compiler :=
  { c with draft := { c.draft with
      scopes := [] :: c.draft.scopes
      scopeDepth := c.draft.scopeDepth + 1 } }

/-- A compiler one scope less deep. -/
def shallower (c : Compiler) : Compiler :=
  { c with draft := { c.draft with
      scopes := c.draft.scopes.drop 1
      scopeDepth := c.draft.scopeDepth - 1 } }

/-- A compiler that has noted a line. -/
def atLine (c : Compiler) (line : Nat) : Compiler :=
  { c with draft := { c.draft with lastLine := line } }

/-- Scopes in the innermost of which names have been declared. -/
def declareIn (names : List String) : List (List String) → List (List String)
  | [] => []
  | top :: outer => (names.reverse ++ top) :: outer

/-- A compiler that has declared names; those of the top level are exported. -/
def declaring (c : Compiler) (names : List String) : Compiler :=
  { c with
    draft := { c.draft with scopes := declareIn names c.draft.scopes }
    exports :=
      if c.draft.returns.isNone && c.draft.scopes.length == 1 then c.exports ++ names
      else c.exports }

/-- A compiler in a new loop. -/
def looping (c : Compiler) : Compiler :=
  c.inLoops
    ({ kind := .loop, scopeDepth := c.draft.scopeDepth, tryDepth := c.draft.tryDepth } ::
      c.draft.loops)

variable (c : Compiler) (m n : Nat) (a b : List Slot) (is js : List Instruction)

@[simp] theorem inLoops_here (loops : List OpenLoop) : (c.inLoops loops).here = c.here := rfl

@[simp] theorem wrote_here : (c.wrote n a).here = c.here + a.length := by
  simp [wrote, blanks, inLoops, here, emitted]

@[simp] theorem wrote_isSealed : (c.wrote n a).draft.code.isSealed = c.draft.code.isSealed := by
  simp [wrote, inLoops]

theorem emitted_eq_wrote : c.emitted n is = c.wrote n (plain is) := by
  rw [wrote, noteLeaves_plain, blanks, fill_plain]
  rfl

theorem wrote_wrote : (c.wrote m a).wrote n b = c.wrote (m + n) (a ++ b) := by
  have loops : (c.wrote m a).draft.loops = noteLeaves c.here a c.draft.loops := rfl
  rw [wrote, loops, wrote_here, ← noteLeaves_append]
  simp only [wrote, blanks, fill_append, ← emitted_emitted]
  rfl

theorem wrote_emitted : (c.wrote m a).emitted n is = c.wrote (m + n) (a ++ plain is) := by
  rw [emitted_eq_wrote, wrote_wrote]

theorem wrote_nothing : c.wrote 0 [] = c := (c.emitted_eq_wrote 0 []).symm

/-! ## What changes apart from the code -/

theorem deeper_wrote : (c.wrote n a).deeper = c.deeper.wrote n a := rfl

theorem atLine_wrote (line : Nat) : (c.wrote n a).atLine line = (c.atLine line).wrote n a := rfl

theorem declaring_wrote (names : List String) :
    (c.wrote n a).declaring names = (c.declaring names).wrote n a := rfl

theorem declaring_declaring (xs ys : List String) :
    (c.declaring xs).declaring ys = c.declaring (xs ++ ys) := by
  obtain ⟨_, _, ⟨_, scopes, _⟩, _⟩ := c
  cases scopes with
  | nil => simp [declaring, declareIn]
  | cons top outer =>
    simp only [declaring, declareIn, List.reverse_append, List.append_assoc, List.length_cons]
    congr 1
    split <;> simp

/-- At the end of a scope what it declared is forgotten. -/
theorem shallower_deeper (inScope : c.draft.scopes ≠ []) (names : List String) :
    (c.deeper.declaring names).shallower = c := by
  obtain ⟨_, _, ⟨_, scopes, _⟩, _⟩ := c
  cases scopes with
  | nil => exact absurd rfl inScope
  | cons top outer => simp [shallower, deeper, declaring, declareIn]

theorem declaring_nothing : c.declaring [] = c := by
  obtain ⟨_, _, ⟨_, scopes, _⟩, _⟩ := c
  cases scopes <;> simp [declaring, declareIn]

end Compiler

/-! ## Giving branches their targets -/

namespace CompileM

variable {c : Compiler} {n start next target : Nat} {before behind : List Instruction}

/-- Patching a branch that was written gives the compiler that wrote it with its target. -/
theorem patch_wrote {fixup : Nat} {i : Instruction} {a b : List Slot} (n : Nat)
    (address : fixup = c.here + a.length) (within : target ≤ c.here + a.length + 1 + b.length) :
    patch fixup target (c.wrote n (a ++ .plain i :: b)) =
      (.ok (), c.wrote n (a ++ .plain { i with operand := .address target } :: b)) := by
  rw [Compiler.wrote, Compiler.wrote, noteLeaves_patched _ _ _ i { i with operand := .address target }]
  simp only [blanks, fill_append, fill_cons, Slot.fill]
  exact patch_emitted n (by simpa using address) (by simpa using within)

theorem patchHere_wrote {fixup : Nat} {i : Instruction} {a b : List Slot} (n : Nat)
    (address : fixup = c.here + a.length) (here : target = c.here + a.length + 1 + b.length) :
    patchHere fixup (c.wrote n (a ++ .plain i :: b)) =
      (.ok (), c.wrote n (a ++ .plain { i with operand := .address target } :: b)) := by
  have marked : mark (c.wrote n (a ++ .plain i :: b)) =
      (.ok target, c.wrote n (a ++ .plain i :: b)) := by
    have : mark (c.wrote n (a ++ .plain i :: b)) =
        (.ok (c.wrote n (a ++ .plain i :: b)).here, c.wrote n (a ++ .plain i :: b)) := rfl
    rw [this, Compiler.wrote_here, here, List.length_append, List.length_cons, Nat.add_assoc,
      Nat.add_assoc, Nat.add_comm 1]
  exact (bind_of_ok marked).trans (patch_wrote n address (Nat.le_of_eq here))

theorem emitFixup_wrote {a : List Slot} (unsealed : c.draft.code.isSealed = false) (n : Nat)
    (op : Opcode) : emitFixup op (c.wrote n a) =
      (.ok (c.here + a.length), c.wrote n (a ++ plain [⟨op, .address 0⟩])) := by
  refine (emitFixup_of ((c.wrote_isSealed n a).trans unsealed) op).trans ?_
  rw [c.wrote_here, c.wrote_emitted, Nat.add_zero]

theorem patchAll_cons (fixup target : Nat) (rest : List Nat) :
    patchAll (fixup :: rest) target = (do patch fixup target; patchAll rest target) := rfl

/-- The branches of one sort in slots get their target. -/
theorem patchAll_fill (isBreak : Bool) (goal : Bool → Nat) (slots : List Slot)
    (address : start = c.here + before.length)
    (within : target ≤ c.here + before.length + slots.length + behind.length) :
    patchAll (leavesAt isBreak start slots) target
        (c.emitted n (before ++ fill goal slots ++ behind)) =
      (.ok (), c.emitted n (before ++ fill (Function.update goal isBreak target) slots ++ behind)) := by
  induction slots generalizing start before with
  | nil => rfl
  | cons slot slots ih =>
    rw [List.length_cons] at within
    have rest (i : Instruction) : patchAll (leavesAt isBreak (start + 1) slots) target
        (c.emitted n (before ++ [i] ++ fill goal slots ++ behind)) = (.ok (), c.emitted n
          (before ++ [i] ++ fill (Function.update goal isBreak target) slots ++ behind)) :=
      ih (by simp [address, Nat.add_assoc]) (by simp; omega)
    simp only [List.append_assoc, List.singleton_append] at rest
    cases slot with
    | plain i => simpa [leavesAt, Slot.fill] using rest i
    | leave other =>
      by_cases same : other = isBreak
      · subst same
        have patched : patch start target (c.emitted n
            (before ++ ⟨.branch, .address (goal other)⟩ :: (fill goal slots ++ behind))) =
            (.ok (), c.emitted n
              (before ++ ⟨.branch, .address target⟩ :: (fill goal slots ++ behind))) :=
          patch_emitted n address (by simp; omega)
        rw [leavesAt, if_pos rfl, patchAll_cons]
        simp only [fill_cons, Slot.fill, List.append_assoc, List.cons_append, Function.update_self]
        exact (bind_of_ok patched).trans (rest _)
      · rw [leavesAt, if_neg same]
        simpa [Slot.fill, Function.update_of_ne same] using rest ⟨.branch, .address (goal other)⟩

/-- The end of a loop leads `continue` to an address and `break` behind the loop. -/
theorem closeLoop_of {l : OpenLoop} {outer : List OpenLoop} (fresh : l.breaks = [] ∧ l.continues = [])
    (slots : List Slot) (address : start = c.here + before.length)
    (within : next ≤ c.here + before.length + slots.length + behind.length)
    (stop : target = c.here + before.length + slots.length + behind.length) :
    closeLoop (some next) ((c.inLoops (l.noted start slots :: outer)).emitted n
        (before ++ blanks slots ++ behind)) =
      (.ok (), (c.inLoops outer).emitted n
        (before ++ fill (bif · then target else next) slots ++ behind)) := by
  have continues : (l.noted start slots).continues = leavesAt false start slots := by
    simp [OpenLoop.noted, fresh]
  have breaks : (l.noted start slots).breaks = leavesAt true start slots := by
    simp [OpenLoop.noted, fresh]
  have first : patchAll (leavesAt false start slots) next
      ((c.inLoops outer).emitted n (before ++ blanks slots ++ behind)) =
      (.ok (), (c.inLoops outer).emitted n
        (before ++ fill (Function.update (fun _ => 0) false next) slots ++ behind)) :=
    patchAll_fill false (fun _ => 0) slots address within
  have second : patchAll (leavesAt true start slots) target ((c.inLoops outer).emitted n
        (before ++ fill (Function.update (fun _ => 0) false next) slots ++ behind)) =
      (.ok (), (c.inLoops outer).emitted n (before ++ fill
        (Function.update (Function.update (fun _ => 0) false next) true target) slots ++ behind)) :=
    patchAll_fill true _ slots address (Nat.le_of_eq stop)
  have goal : Function.update (Function.update (fun _ => 0) false next) true target =
      (bif · then target else next) := by
    funext isBreak
    cases isBreak <;> simp
  have marked (goal : Bool → Nat) :
      mark ((c.inLoops outer).emitted n (before ++ fill goal slots ++ behind)) =
        (.ok target, (c.inLoops outer).emitted n (before ++ fill goal slots ++ behind)) := by
    have here : mark ((c.inLoops outer).emitted n (before ++ fill goal slots ++ behind)) =
        (.ok ((c.inLoops outer).emitted n (before ++ fill goal slots ++ behind)).here,
          (c.inLoops outer).emitted n (before ++ fill goal slots ++ behind)) := rfl
    rw [here, Compiler.emitted_here, stop]
    simp [Nat.add_assoc, Compiler.here, Compiler.inLoops]
  rw [goal] at second
  refine (bind_of_ok (get_eq _)).trans ?_
  change (do
    modifyDraft fun d => { d with loops := outer }
    patchAll (l.noted start slots).continues next
    patchAll (l.noted start slots).breaks (← mark) : CompileM Unit) _ = _
  rw [continues, breaks]
  have left (m : Compiler) : modifyDraft (fun d => { d with loops := outer }) (m.inLoops (l.noted start
      slots :: outer)) = (.ok (), m.inLoops outer) := rfl
  refine (bind_of_ok (left (c.emitted n (before ++ blanks slots ++ behind)))).trans ?_
  exact (bind_of_ok first).trans ((bind_of_ok (marked _)).trans second)

end CompileM

end StackScript
