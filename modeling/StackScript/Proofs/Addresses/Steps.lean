import StackScript.Proofs.Addresses.Instructions
import StackScript.Proofs.Calls.Return

/-!
# Calls and steps see no addresses

A call puts the address to return to into its frame and a return takes it from there, but neither
looks at it, nor does the search for a protected block when a fault is raised.

Main statements: `call_blind`, `leave_blind` and `Context.handle_moved`.
-/
namespace StackScript

open Value (moved)

variable [Relocation]

/-- A context that is back at the start of its unit. -/
def Context.parked (c : Context) : Context := { c with pc := 0 }

namespace Exec

/-! ## Results -/

theorem pushResults_blind (vs : List Value) (multi : Bool) :
    Blind id (pushResults vs multi) (pushResults (vs.map moved) multi) := by
  match vs with
  | [] => exact push_blind (.marker .void)
  | [v] => exact push_blind v
  | v :: v' :: rest =>
    have all := pushAll_blind (.marker .results :: (v :: v' :: rest).reverse)
    rw [List.map_cons, List.map_reverse] at all
    refine .ite all (.throw_eq ?_)
    simp

theorem pushResult_blind (v : Value) (multi : Bool) :
    Blind id (pushResult v multi) (pushResult v.moved multi) := by
  cases v with
  | tuple r => exact .bind (ofStore_blind fun s => s.tuple_moved r) fun vs => pushResults_blind vs multi
  | _ => exact push_blind _

theorem pushWithError_blind (v error : Value) (multi : Bool) :
    Blind id (pushWithError v error multi) (pushWithError v.moved error.moved multi) := by
  cases multi with
  | true => exact pushAll_blind [.marker .results, error, v]
  | false => exact pushAll_blind [v]

theorem complete_blind (call : PendingCall) (result : Except Fault Value) :
    Blind id (complete call result) (complete call (result.map moved)) := by
  cases result with
  | ok v => exact .ite (pushWithError_blind v .nil _) (pushResult_blind v _)
  | error f => exact .ite (.throw _ _) (.ite (pushWithError_blind .nil (.error f) _) (.throw _ _))

/-! ## Calls -/

theorem calleeScope_moved {unit unit' : Code} (name : unit'.name = unit.name)
    (rule : unit'.scopeRule = unit.scopeRule) (captured : Option TableRef) (caller : TableRef)
    (s : Store) : calleeScope unit' captured caller s.moved =
      ((calleeScope unit captured caller s).1, (calleeScope unit captured caller s).2.moved) := by
  unfold calleeScope
  rw [name, rule]
  cases unit.scopeRule with
  | lexical => exact s.newChild_moved _ _
  | caller => exact s.newBoundary_moved _ _

omit [Relocation] in
theorem calleeScope_codes (unit : Code) (captured : Option TableRef) (caller : TableRef)
    (s : Store) : (calleeScope unit captured caller s).2.codes = s.codes := by
  unfold calleeScope
  cases unit.scopeRule <;> rfl

theorem callFunction_blind (code : CodeRef) (captured : Option TableRef) (args : List Value)
    (receiver : Option Value) (multi : Bool) :
    Blind id (callFunction code captured args receiver multi)
      (callFunction code captured (args.map moved) (receiver.map moved) multi) := by
  have packed := ofStoreM (StoreM.array_blind .interface args.toArray)
  rw [List.map_toArray] at packed
  refine packed.bind fun args => ?_
  rintro ⟨c, w, s⟩
  have scope := calleeScope_moved (s.code_moved_name code) (s.code_moved_scopeRule code) captured
    c.scope s
  have codes := calleeScope_codes (s.code code) captured c.scope s
  cases receiver with
  | none =>
    refine ⟨?_, codes⟩
    simp only [Stateful.run, Relocatable.moved, Option.map_none, Context.moved_scope, scope,
      TableRef.setAlways_moved]
    simp [Context.moved, Except.map, Frame.moved, Relocation.start]
  | some v =>
    refine ⟨?_, codes⟩
    simp only [Stateful.run, Relocatable.moved, Option.map_some, Context.moved_scope, scope,
      TableRef.setAlways_moved]
    simp [Context.moved, Except.map, Frame.moved, Relocation.start]

/-- What a call of a builtin comes to: nothing more, or something that the machine has to do. -/
def movedRequest : Option (PendingCall × Answer) → Option (PendingCall × Answer) :=
  Option.map (Prod.map id Answer.moved)

theorem callNative_blind (f : Native) (args : List Value) (receiver : Option Value) (multi : Bool) :
    Blind movedRequest (callNative f args receiver multi)
      (callNative f (args.map moved) (receiver.map moved) multi) := by
  unfold callNative
  rw [List.length_map]
  cases f.checkArity args.length with
  | error fault => exact .throw _ _
  | ok u =>
    refine scope_blind.bind fun caller => .bind (f := Except.map Answer.moved) ?_ fun answer => ?_
    · rintro ⟨c, w, s⟩
      obtain ⟨same, codes⟩ := f.run_blind
        { caller := caller, receiver := receiver, multiple := multi, args := args } (w, s)
      exact ⟨congrArg (fun p => (Except.ok p.1, c.moved, p.2)) same, codes⟩
    · cases answer with
      | error fault => exact (complete_blind _ (.error fault)).bind fun _ => .pure_eq rfl
      | ok answer =>
        cases answer with
        | value v => exact (complete_blind _ (.ok v)).bind fun _ => .pure_eq rfl
        | wait request => cases request <;> exact .pure_eq rfl
        | _ => exact .pure_eq rfl

theorem callType_blind (t : Ty) (args : List Value) :
    Blind id (callType t args) (callType t (args.map moved)) := by
  match args with
  | [] => exact .bind (ofStoreM (Value.zero_blind t)) push_blind
  | [v] => exact .bind (ofStoreM (v.coerce_blind t)) push_blind
  | _ :: _ :: _ => exact .bind (f := moved) (.throw _ _) push_blind

theorem readCall_blind (operand : Operand) :
    Blind id (readCall operand) (readCall operand.moved) := by
  cases operand with
  | tuple parts =>
    simp only [readCall, Operand.moved]
    cases parts.head?.bind Operand.asInt? with
    | some n => exact .pure id _
    | none => exact wrongOperand_blind id _ (.tuple parts)
  | value v =>
    refine .pure_eq ?_
    rw [Operand.asInt?_moved]
    rfl
  | _ => exact .pure id _

theorem spreadCount_blind (count : Nat) (flags : CallFlags) :
    Blind id (spreadCount count flags) (spreadCount count flags) := by
  refine .ite (pop_blind.bind fun v => ?_) (.pure id _)
  rw [Value.asInt?_moved]
  cases v.asInt? with
  | some n => exact .pure id _
  | none => exact .throw _ _

theorem takeReceiver_blind : Blind (Option.map moved) takeReceiver takeReceiver := by
  rintro ⟨c, w, s⟩
  refine ⟨?_, rfl⟩
  simp [Stateful.run, Relocatable.moved, takeReceiver, Context.moved, Except.map]

theorem receiverOf_blind (flags : CallFlags) :
    Blind (Option.map moved) (receiverOf flags) (receiverOf flags) :=
  .ite takeReceiver_blind (.pure_eq rfl)

theorem applyValue_blind (callee : Value) (args : List Value) (receiver : Option Value)
    (multi : Bool) : Blind movedRequest (applyValue callee args receiver multi)
      (applyValue callee.moved (args.map moved) (receiver.map moved) multi) := by
  have refused (v : Value) : Blind movedRequest
      (do throw (.about .invalidFunctionCall (← ofStore v.typeName)) : Exec _)
      (do throw (.about .invalidFunctionCall (← ofStore v.moved.typeName))) :=
    .bind (ofStore_blind (f := id) fun s => v.typeName_moved s) fun _ => .throw _ _
  cases callee with
  | function code captured =>
    exact (callFunction_blind code captured args receiver multi).bind fun _ => .pure_eq rfl
  | native f => exact callNative_blind f args receiver multi
  | type t => exact (callType_blind t args).bind fun _ => .pure_eq rfl
  | _ => exact refused _

theorem call_blind (operand : Operand) : Blind movedRequest (call operand) (call operand.moved) := by
  rw [call_eq, call_eq]
  exact (readCall_blind operand).bind fun (count, flags) => (spreadCount_blind count flags).bind
    fun total => (popValues_blind total).bind fun args => popValue_blind.bind fun callee =>
    (receiverOf_blind flags).bind fun receiver => applyValue_blind callee args receiver flags.multi

/-! ## Returns -/

theorem takeFrame_blind : Blind (Option.map Frame.moved) takeFrame takeFrame := by
  rintro ⟨c, w, s⟩
  refine ⟨?_, rfl⟩
  simp only [Stateful.run, Relocatable.moved, takeFrame, Context.moved_stack, Context.moved_fp,
    shrink_moved, Array.back?_map]
  cases (c.stack.shrink (c.fp + 1)).back? with
  | none => simp [Context.moved, Except.map]
  | some v => cases v <;> simp [Context.moved, Except.map, Value.moved]

theorem restore_moved (f : Frame) (c : Context) :
    restore f.moved c.moved = (restore f c).moved := by
  simp [restore, Context.moved, Frame.moved, List.filter_map, Function.comp_def]

theorem leave_blind (count : Nat) : Blind id (leave count) (leave count) := by
  have depth : Blind id (ofContext Context.depth) (ofContext Context.depth) :=
    ofContext_blind fun _ => rfl
  refine depth.bind fun d => .ite (.throw _ _) ((popMany_blind count).bind fun vs =>
    takeFrame_blind.bind fun frame => ?_)
  cases frame with
  | some f =>
    have goesOn : Blind id (modifyContext (restore f)) (modifyContext (restore f.moved)) :=
      modifyContext_blind fun c => restore_moved f c
    exact goesOn.bind fun _ => pushResults_blind vs f.multi
  | none => exact .throw _ _

omit [Relocation] in
/-- A return, whatever lies where the frame should be. -/
theorem leave_run (count : Nat) (c : Context) (w : World) (s : Store) :
    leave count c w s =
      if c.depth = 0 then (((.error (.of .stop), c), w), s)
      else if c.stack.size < c.base + count then
        (((.error (.about .stackUnderflow (Decimal.ofNat count)), c), w), s)
      else
        let cut := (c.stack.shrink (c.stack.size - count)).shrink (c.fp + 1)
        match cut.back? with
        | some (.frame f) =>
          pushResults (c.stack.extract (c.stack.size - count) c.stack.size).toList f.multi
            (restore f { c with stack := cut.pop }) w s
        | _ => (((.error (.about .stackUnderflow "call frame"), { c with stack := cut.pop }), w), s) := by
  by_cases shallow : c.depth = 0
  · rw [if_pos shallow, leave_outside shallow]
  rw [if_neg shallow]
  refine (bind_of_ok rfl).trans ?_
  rw [if_neg shallow]
  by_cases low : c.stack.size < c.base + count
  · rw [if_pos low]
    exact bind_of_error (by simp [popMany, low])
  · rw [if_neg low]
    refine (bind_of_ok (popMany_enough (by omega) w s)).trans ?_
    refine (bind_of_ok rfl).trans ?_
    dsimp only
    cases top : ((c.stack.shrink (c.stack.size - count)).shrink (c.fp + 1)).back? with
    | none => rfl
    | some v => cases v <;> rfl

omit [Relocation] in
/-- Where a context stands makes no difference to a return. -/
theorem leave_place (count : Nat) (c : Context) (pc : Nat) (w : World) (s : Store) :
    ∃ r c₁ c₂, leave count c w s = (((r, c₁), w), s) ∧
      leave count { c with pc := pc } w s = (((r, c₂), w), s) ∧ c₁.parked = c₂.parked ∧
      ((∃ u, r = .ok u) → c₁ = c₂) := by
  have pushed (vs : List Value) (multi : Bool) (c : Context) :
      ∃ r c', pushResults vs multi c w s = (((r, c'), w), s) := by
    unfold pushResults
    split
    · exact ⟨_, _, rfl⟩
    · exact ⟨_, _, rfl⟩
    · split
      · exact ⟨_, _, rfl⟩
      · exact ⟨_, _, rfl⟩
  rw [leave_run, leave_run]
  have base : ({ c with pc := pc } : Context).base = c.base := rfl
  rw [base]
  dsimp only
  split
  · exact ⟨_, _, _, rfl, rfl, rfl, nofun⟩
  split
  · exact ⟨_, _, _, rfl, rfl, rfl, nofun⟩
  split
  · rename_i f _
    obtain ⟨r, c', h⟩ := pushed (c.stack.extract (c.stack.size - count) c.stack.size).toList f.multi
      (restore f { c with
        stack := ((c.stack.shrink (c.stack.size - count)).shrink (c.fp + 1)).pop })
    exact ⟨r, c', c', h, h, rfl, fun _ => rfl⟩
  · exact ⟨_, _, _, rfl, rfl, rfl, nofun⟩

theorem leaveTry_blind : Blind id leaveTry leaveTry := by
  refine .bind (f := List.map TryRecord.moved) (ofContext_blind fun _ => rfl) fun tries => ?_
  cases tries with
  | nil => exact .throw _ _
  | cons t rest => exact modifyContext_blind fun _ => rfl

end Exec

/-! ## Faults -/

/-- A request of a context to the machine, or the end of it, whose values have moved. -/
def Signal.moved : Signal → Signal
  | .asks call answer => .asks call answer.moved
  | .blocked call wait => .blocked call wait.moved
  | signal => signal

namespace Context

theorem catch?_moved (c : Context) (f : Fault) (s : Store) :
    c.moved.catch? f s.moved = (c.catch? f s).map (Prod.map Context.moved Store.moved) := by
  have tries : c.moved.tries.dropWhile (·.handler.isNone) =
      (c.tries.dropWhile (·.handler.isNone)).map TryRecord.moved := by
    rw [moved_tries, List.dropWhile_map]
    congr 2
    funext t
    simp
  unfold catch?
  rw [tries]
  cases c.tries.dropWhile (·.handler.isNone) with
  | nil => rfl
  | cons record rest =>
    cases handler : record.handler with
    | none => simp [handler]
    | some a =>
      have bound := TableRef.setAlways_moved record.scope caughtName (.error f) s
      simp [handler, Context.moved, TryRecord.moved]
      exact bound

theorem handle_moved (c : Context) (f : Fault) (s : Store) :
    c.moved.handle f s.moved =
      ((c.handle f s).1.moved, (c.handle f s).2.1.moved, (c.handle f s).2.2.moved) := by
  unfold handle
  split
  · rfl
  · rfl
  · simp only [moved_moduleName, moved_line, catch?_moved]
    generalize f.locate c.moduleName c.line = f
    cases f.kind.isControl with
    | true => rfl
    | false => cases c.catch? f s <;> rfl

omit [Relocation] in
theorem catch?_codes {c c' : Context} {f : Fault} {s s' : Store} (caught : c.catch? f s = some (c', s')) :
    s'.codes = s.codes := by
  unfold catch? at caught
  split at caught
  · cases caught
  · split at caught <;> cases caught
    rfl

omit [Relocation] in
theorem handle_codes (c : Context) (f : Fault) (s : Store) : (c.handle f s).2.2.codes = s.codes := by
  unfold handle
  split
  · rfl
  · rfl
  · extract_lets f
    split
    · rename_i caught
      split at caught
      · cases caught
      · exact catch?_codes caught
    · rfl

end Context

/-!
## Steps see no addresses

A step does to what a state moves to what it does to the state, if the instruction that is next has
moved to where the context has moved to, and its branch with it.

Main statements: `perform_blind` (instructions that do not branch) and `step_at`.
-/

namespace Exec

/-- An instruction that does not branch. -/
theorem perform_blind {i : Instruction} (plain : i.op.isBranch = false) :
    Blind id (perform i) (perform i.moved) := by
  obtain ⟨op, operand⟩ := i
  cases op with
  | noOperation => exact .pure id _
  | push => exact pushOperand_blind operand
  | drop => exact dropValues_blind operand
  | dup => exact dup_blind
  | swap => exact swap_blind
  | copy => exact copyTop_blind
  | readStack => exact readStack_blind operand
  | flatten => exact flatten_blind
  | dropToMarker => exact dropToMarker_blind operand
  | load => exact loadName_blind operand
  | store => exact storeName_blind operand
  | loadIndex => exact loadIndex_blind
  | storeIndex => exact storeIndex_blind
  | loadSlice => exact loadSlice_blind
  | member => exact loadMember_blind operand false
  | classMember => exact loadMember_blind operand true
  | array => exact packArray_blind operand
  | makeArray => exact makeArray_blind operand
  | struct => exact packStruct_blind operand
  | coerce => exact coerceTop_blind operand
  | explode => exact explode_blind
  | add => exact binary_blind Operator.add_blind
  | sub => exact binary_blind Operator.subtract_blind
  | mul => exact binary_blind (Operator.apply_blind _)
  | div => exact binary_blind (Operator.apply_blind _)
  | exp => exact binary_blind (Operator.apply_blind _)
  | modulo => exact binary_blind (Operator.apply_blind _)
  | negate => exact negateTop_blind
  | and => exact logical_blind _
  | or => exact logical_blind _
  | bitAnd => exact binary_blind (Operator.bitwise_blind _ _)
  | bitOr => exact binary_blind (Operator.bitwise_blind _ _)
  | bitShift => exact shiftBelow_blind
  | equal => exact equality_blind true
  | notEqual => exact equality_blind false
  | lessThan => exact binary_blind (Operator.ordered_blind _)
  | lessThanOrEqual => exact binary_blind (Operator.ordered_blind _)
  | greaterThan => exact binary_blind (Operator.ordered_blind _)
  | greaterThanOrEqual => exact binary_blind (Operator.ordered_blind _)
  | call => exact .pure id _
  | leave =>
    change Blind id (leave (countOf operand 0)) (leave (countOf operand.moved 0))
    rw [countOf_moved]
    exact leave_blind _
  | stop => exact .throw _ _
  | panic => exact panic_blind
  | atLine => exact atLine_blind operand
  | pushScope => exact openScope_blind
  | popScope => exact closeScopes_blind operand
  | symbolCreate => exact createName_blind operand
  | symbolDelete => exact deleteName_blind operand
  | constant => exact declareConstant_blind operand
  | tryPop => exact leaveTry_blind
  | print => exact print_blind operand
  | newline => exact write_blind "\n"
  | say => exact say_blind
  | log => exact log_blind
  | template => exact makeTemplate_blind operand
  | timer => exact timer_blind operand
  | setThis => exact setReceiver_blind
  | loadThis => exact loadReceiver_blind
  | argCheck => exact checkArguments_blind operand
  | requiredType => exact requireType_blind operand
  | staticTyping => exact setStrictness_blind operand
  | branchLimit => exact .throw _ _
  | tryBlock | branch | branchTrue | branchFalse => cases plain

/-! ## Branches -/

/-- An operand and where its address has moved to: both lead into the unit, or both are refused with
the same fault. -/
def Moves (r : CodeRef) (s : Store) (operand operand' : Operand) : Prop :=
  ∀ c w, c.code = r → BlindAt (Relocation.move r) (addressOf operand) (addressOf operand') (c, w, s)

omit [Relocation] in
/-- Reading an address changes nothing. -/
theorem addressOf_reads (operand : Operand) (c : Context) (w : World) (s : Store) :
    ∃ r, addressOf operand c w s = (((r, c), w), s) := by
  unfold addressOf
  rw [bind_of_ok rfl, bind_of_ok rfl]
  cases operand.asAddress? with
  | none => exact ⟨_, rfl⟩
  | some a =>
    dsimp only
    split <;> exact ⟨_, rfl⟩

variable {c : Context} {s : Store} {operand operand' : Operand}

omit [Relocation] in
/-- What an operand that is to hold an address is read as. -/
theorem addressOf_run (operand : Operand) (c : Context) (w : World) (s : Store) :
    addressOf operand c w s =
      (((match operand.asAddress? with
        | some a =>
          if a ≤ (s.code c.code).size then .ok a
          else .error (.about .invalidAddress (operand.display s))
        | none => .error (.about .invalidAddress (operand.display s)), c), w), s) := by
  unfold addressOf
  rw [bind_of_ok rfl, bind_of_ok rfl]
  cases operand.asAddress? with
  | none => rfl
  | some a =>
    dsimp only
    split <;> rfl

/-- An operand whose address stays in a unit that keeps its size. -/
theorem Moves.of_same {r : CodeRef}
    (size : (s.moved.code r).size = (s.code r).size)
    (address : operand'.asAddress? = operand.asAddress?)
    (display : operand'.display s.moved = operand.display s)
    (stays : ∀ a, operand.asAddress? = some a → Relocation.move r a = a) :
    Moves r s operand operand' := by
  rintro c w rfl
  simp only [BlindAt, Stateful.run, Relocatable.moved, addressOf_run, Context.moved_code, size, address,
    display]
  refine ⟨Prod.ext ?_ rfl, trivial⟩
  cases found : operand.asAddress? with
  | none => rfl
  | some a =>
    dsimp only
    split
    · exact congrArg Except.ok (stays a found).symm
    · rfl

/-- An operand whose address moves along with the end of the unit. -/
theorem Moves.of_within {r : CodeRef} {a : Nat} (within : a ≤ (s.code r).size)
    (within' : Relocation.move r a ≤ (s.moved.code r).size) :
    Moves r s (.address a) (.address (Relocation.move r a)) := by
  rintro c w rfl
  simp only [BlindAt, Stateful.run, Relocatable.moved, addressOf_run, Context.moved_code,
    Operand.asAddress?, if_pos within, if_pos within']
  exact ⟨rfl, trivial⟩

theorem jump_at {r : CodeRef} (here : c.code = r) (a : Nat) (w : World) :
    BlindAt id (jump a) (jump (Relocation.move r a)) (c, w, s) := by
  subst here
  exact ⟨rfl, rfl⟩

/-- What follows an address that has moved. -/
theorem Moves.bind {α α' : Type} {f : α → α'} (h : Moves c.code s operand operand') (w : World)
    {k : Nat → Exec α} {k' : Nat → Exec α'}
    (hk : ∀ a, BlindAt f (k a) (k' (Relocation.move c.code a)) (c, w, s)) :
    BlindAt f (addressOf operand >>= k) (addressOf operand' >>= k') (c, w, s) := by
  refine BlindAt.bind (h c w rfl) fun a => ?_
  obtain ⟨r, reads⟩ := addressOf_reads operand c w s
  have same : Stateful.run (addressOf operand) (c, w, s) = (r, c, w, s) := by
    simp only [Stateful.run, reads]
  rw [same]
  exact hk a

theorem branch_at (h : Moves c.code s operand operand') (w : World) :
    BlindAt id (branch operand) (branch operand') (c, w, s) :=
  h.bind w fun a => jump_at rfl a w

theorem branchIf_at (h : Moves c.code s operand operand') (taken : Bool) (w : World) :
    BlindAt id (branchIf taken operand) (branchIf taken operand') (c, w, s) := by
  refine h.bind w fun a => BlindAt.bind (popValue_blind _) fun v => ?_
  rw [Value.isTruthy_moved]
  have stays : (Stateful.run popValue (c, w, s)).2.1.code = c.code := by
    simp only [Stateful.run, popValue]
    split
    · rfl
    · split <;> rfl
  split
  · exact jump_at stays a _
  · exact Blind.pure id () _

theorem enterTry_at (h : Moves c.code s operand operand') (w : World) :
    BlindAt id (enterTry operand) (enterTry operand') (c, w, s) := by
  refine h.bind w fun a => ⟨?_, rfl⟩
  simp [Stateful.run, Relocatable.moved, modifyContext, Context.moved, TryRecord.moved, Except.map]

/-! ## Steps -/

/-- The instruction that is next has moved to where the context has moved to. -/
structure Followed (c : Context) (s : Store) : Prop where
  last : (s.code c.code).instructions[c.pc]? = none →
    (s.moved.code c.code).instructions[Relocation.move c.code c.pc]? = none
  next : ∀ i, (s.code c.code).instructions[c.pc]? = some i →
    Relocation.move c.code (c.pc + 1) = Relocation.move c.code c.pc + 1
  found : ∀ i, (s.code c.code).instructions[c.pc]? = some i → ∃ i' : Instruction,
    (s.moved.code c.code).instructions[Relocation.move c.code c.pc]? = some i' ∧ i'.op = i.op ∧
      (i.op.isBranch = false → i'.operand = i.operand.moved) ∧
      (i.op.isBranch = true → Moves c.code s i.operand i'.operand)

/-- An instruction is followed if it stays where it is, and so does what comes after it, be it the
next instruction or the target of a branch. -/
theorem Followed.of_stays
    (same : ∀ code, Relocation.rewrite c.code code = code)
    (here : Relocation.move c.code c.pc = c.pc)
    (next : ∀ i, (s.code c.code).instructions[c.pc]? = some i →
      Relocation.move c.code (c.pc + 1) = c.pc + 1)
    (target : ∀ i a, (s.code c.code).instructions[c.pc]? = some i → i.op.isBranch = true →
      i.operand.asAddress? = some a → Relocation.move c.code a = a) : Followed c s := by
  have there : (s.moved.code c.code).instructions[c.pc]? =
      (s.code c.code).instructions[c.pc]?.map Instruction.moved := by
    rw [s.code_moved_same same, Code.moved_instructions, Array.getElem?_map]
  have size : (s.moved.code c.code).size = (s.code c.code).size := by
    rw [s.code_moved_same same]
    exact Array.size_map ..
  refine ⟨fun none => ?_, fun i found => ?_, fun i found => ?_⟩
  · rw [here, there, none]
    rfl
  · rw [here, next i found]
  · refine ⟨i.moved, by rw [here, there, found]; rfl, rfl, fun _ => rfl, fun branch => ?_⟩
    exact .of_same size (by simp) (by simp) fun a address => target i a found branch address

/-- An instruction that has moved does to what a state moves to what it does to the state. -/
theorem perform_at {i i' : Instruction} (op : i'.op = i.op)
    (plain : i.op.isBranch = false → i'.operand = i.operand.moved)
    (branches : i.op.isBranch = true → Moves c.code s i.operand i'.operand) (w : World) :
    BlindAt id (perform i) (perform i') (c, w, s) := by
  obtain ⟨op', operand'⟩ := i'
  cases op
  cases branch : i.op.isBranch with
  | false =>
    cases plain branch
    exact perform_blind branch _
  | true =>
    have h := branches branch
    obtain ⟨op, operand⟩ := i
    cases op <;> cases branch
    · exact enterTry_at h w
    · exact branch_at h w
    · exact branchIf_at h true w
    · exact branchIf_at h false w

end Exec

/-- What a step leads to, with its values moved. -/
def Progress.moved : Progress → Progress
  | .asks call answer => .asks call answer.moved
  | p => p

namespace Exec

/-- What follows the fetch of an instruction that has moved. -/
theorem Followed.bind {α α' : Type} {f : α → α'} (h : Followed c s) (w : World)
    {k : Option Instruction → Exec α} {k' : Option Instruction → Exec α'}
    (ends : BlindAt f (k none) (k' none) (c, w, s))
    (goesOn : ∀ i i' : Instruction, (s.code c.code).instructions[c.pc]? = some i → i'.op = i.op →
      (i.op.isBranch = false → i'.operand = i.operand.moved) →
      (i.op.isBranch = true → Moves c.code s i.operand i'.operand) →
      BlindAt f (k (some i)) (k' (some i')) ({ c with pc := c.pc + 1 }, w, s)) :
    BlindAt f (fetch >>= k) (fetch >>= k') (c, w, s) := by
  cases found : (s.code c.code).instructions[c.pc]? with
  | none =>
    have here : fetch c w s = (((.ok none, c), w), s) := by simp only [fetch, found]
    have there : fetch c.moved w.moved s.moved = (((.ok none, c.moved), w.moved), s.moved) := by
      simp only [fetch, Context.moved_code, Context.moved_pc, h.last found]
    simp only [BlindAt, Stateful.run, Relocatable.moved, bind_of_ok here, bind_of_ok there]
    exact ends
  | some i =>
    obtain ⟨i', found', op, plain, branches⟩ := h.found i found
    have here : fetch c w s = (((.ok (some i), { c with pc := c.pc + 1 }), w), s) := by
      simp only [fetch, found]
    have there : fetch c.moved w.moved s.moved =
        (((.ok (some i'), ({ c with pc := c.pc + 1 } : Context).moved), w.moved), s.moved) := by
      simp only [fetch, Context.moved_code, Context.moved_pc, found']
      simp [Context.moved, h.next i found]
    simp only [BlindAt, Stateful.run, Relocatable.moved, bind_of_ok here, bind_of_ok there]
    exact goesOn i i' found op plain branches

/-- A step does to what a state moves to what it does to the state. -/
theorem step_at (h : Followed c s) (w : World) : BlindAt Progress.moved step step (c, w, s) := by
  refine h.bind w ?_ fun i i' _ op plain branches => ?_
  · have depth : Blind id (ofContext Context.depth) (ofContext Context.depth) :=
      ofContext_blind fun _ => rfl
    refine Blind.bind depth (fun d => ?_) _
    exact .ite ((leave_blind 0).bind fun _ => .pure_eq rfl) (.pure_eq rfl)
  · dsimp only
    rw [op]
    cases calls : i.op == .call with
    | true =>
      have same : i.op.isBranch = false := by rw [eq_of_beq calls]; rfl
      rw [plain same]
      refine Blind.bind (call_blind i.operand) (fun request => ?_) _
      cases request with
      | none => exact .pure_eq rfl
      | some request => exact .pure_eq rfl
    | false =>
      rw [if_neg Bool.false_ne_true, if_neg Bool.false_ne_true]
      exact BlindAt.bind (perform_at (c := { c with pc := c.pc + 1 }) op plain branches w) fun _ =>
        Blind.pure_eq rfl _

end Exec

end StackScript
