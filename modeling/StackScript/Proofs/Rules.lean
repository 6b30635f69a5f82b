import StackScript.Proofs.Sparing
import StackScript.Machine.Step

/-!
# What instructions are made of

An instruction is put together of a few parts: taking values from the stack and pushing them,
reading the state, computing on objects, storing under names. A judgement on computations that
holds of the parts, and of what is put together of such computations, holds of every instruction
that enters and leaves neither a call nor a protected block. The walk through the instructions is
done here once, for every such judgement.

Main statements: `Rules.callNative` and `Rules.perform`.
-/
namespace StackScript.Exec

open StoreM (Sparing)

/-- A change of a context that touches neither its stack, its frame, its calls nor its protected
blocks. -/
structure Slight (f : Context → Context) : Prop where
  stack (c : Context) : (f c).stack = c.stack
  fp (c : Context) : (f c).fp = c.fp
  depth (c : Context) : (f c).depth = c.depth
  tries (c : Context) : (f c).tries = c.tries

/-- A judgement on computations that holds of the parts of instructions and is kept by putting
them together. -/
structure Rules (J : ∀ α : Type, Exec α → Prop) : Prop where
  pure {α : Type} (a : α) : J α (Pure.pure a)
  throw {α : Type} (f : Fault) : J α (MonadExcept.throw f)
  bind {α β : Type} {m : Exec α} {f : α → Exec β} : J α m → (∀ a, J β (f a)) → J β (m >>= f)
  read {α : Type} (f : Context → World → Store → α) :
    J α fun c w s => (((.ok (f c w s), c), w), s)
  modifyContext {f : Context → Context} : Slight f → J Unit (modifyContext f)
  push (v : Value) : J Unit (push v)
  pushAll (vs : List Value) : J Unit (pushAll vs)
  pop : J Value pop
  popValue : J Value popValue
  popMany (count : Nat) : J (List Value) (popMany count)
  peek (offset : Nat) : J Value (peek offset)
  cut (label : String) : J Bool fun c w s =>
    (((.ok (dropTo label c.base c.stack.size c.stack).2,
      { c with stack := (dropTo label c.base c.stack.size c.stack).1 }), w), s)
  compute {α : Type} {m : StoreM α} : Sparing m → J α (liftM m)
  set (r : TableRef) (name : String) (v : Value) : J Unit (liftM (r.set name v))
  create (r : TableRef) (name : String) : J Unit (liftM (r.create name))
  setConstant (r : TableRef) (name : String) (v : Value) : J Unit (liftM (r.setConstant name v))
  openScope : J Unit openScope
  write (text : String) : J Unit (write text)
  takeReceiver : J (Option Value) takeReceiver
  native (f : Native) (call : NativeCall) : J (Except Fault Answer) fun c w s =>
    (((.ok (f.run call w s).1.1, c), (f.run call w s).1.2), (f.run call w s).2)

namespace Rules

variable {J : ∀ α : Type, Exec α → Prop} {α β : Type}

theorem choice {p : Prop} [Decidable p] {yes no : Exec α} (hyes : J α yes) (hno : J α no) :
    J α (if p then yes else no) := by
  split
  · exact hyes
  · exact hno

variable (h : Rules J) (operand : Operand)

include h

theorem map {m : Exec α} (hm : J α m) (f : α → β) : J β (f <$> m) := by
  rw [map_eq_pure_bind]
  exact h.bind hm fun a => h.pure (f a)

theorem ofContext (f : Context → α) : J α (ofContext f) := h.read fun c _ _ => f c

theorem ofStore (f : Store → α) : J α (ofStore f) := h.read fun _ _ s => f s

theorem getStore : J Store (getThe Store) := h.read fun _ _ s => s

theorem getWorld : J World (getThe World) := h.read fun _ w _ => w

/-- Push what is computed on objects. -/
theorem computed {m : StoreM Value} (hm : Sparing m) : J Unit (do Exec.push (← liftM m)) :=
  h.bind (h.compute hm) fun v => h.push v

/-! ## Operands -/

theorem wrongType (v : Value) : J α (wrongType v) := h.bind (h.ofStore _) fun _ => h.throw _

theorem wrongOperand (kind : FaultKind) : J α (wrongOperand kind operand) :=
  h.bind (h.ofStore _) fun _ => h.throw _

theorem nameOf : J String (nameOf operand) := by
  unfold Exec.nameOf
  split
  · exact h.pure _
  · exact h.wrongOperand operand _

theorem typeOf : J Ty (typeOf operand) := by
  unfold Exec.typeOf
  split
  · exact h.pure _
  · exact h.wrongOperand _ _

theorem addressOf : J Nat (addressOf operand) := by
  refine h.bind (h.ofContext _) fun _ => h.bind (h.ofStore _) fun _ => ?_
  split
  · exact choice (h.pure _) (h.wrongOperand operand _)
  · exact h.wrongOperand operand _

/-! ## The stack -/

theorem popValues (count : Nat) : J (List Value) (popValues count) :=
  h.bind (h.popMany count) fun _ => h.bind (choice (h.throw _) (h.pure _)) fun _ => h.pure _

theorem pushOperand : J Unit (pushOperand operand) := by
  unfold Exec.pushOperand
  split
  · refine h.bind (h.ofStore _) fun _ => ?_
    split
    · exact h.bind (h.ofContext _) fun _ => h.push _
    · exact h.push _
  · exact h.push _
  · exact h.push _
  · exact h.push _
  · exact h.push _
  · exact h.wrongOperand _ _

theorem dropValues : J Unit (dropValues operand) := h.bind (h.popMany _) fun _ => h.pure _

theorem dup : J Unit dup := h.bind (h.peek 0) fun _ => h.push _

theorem swap : J Unit swap :=
  h.bind h.pop fun _ => h.bind h.pop fun _ => h.bind (h.push _) fun _ => h.push _

theorem copyTop : J Unit copyTop := h.bind h.popValue fun v => h.computed (.copy v)

theorem readStack : J Unit (readStack operand) := h.bind (h.peek _) fun _ => h.push _

theorem flatten : J Unit flatten := by
  refine h.bind h.popValue fun v => ?_
  split
  · exact h.bind (h.ofStore _) fun _ =>
      choice (h.throw _) (h.bind (h.pushAll _) fun _ => h.push _)
  · exact h.wrongType _

theorem dropToMarker : J Unit (dropToMarker operand) :=
  h.bind (h.cut _) fun _ => choice (h.throw _) (h.pure _)

/-! ## Operators -/

theorem binary {f : Value → Value → StoreM Value} (hf : ∀ a b, Sparing (f a b)) :
    J Unit (binary f) :=
  h.bind h.popValue fun b => h.bind h.popValue fun a => h.bind (h.ofContext _) fun level =>
    h.bind (h.compute (Operator.unify_within Store.spares_addsObjects level a b)) fun (a, b) =>
      h.computed (hf a b)

theorem equality (same : Bool) : J Unit (equality same) :=
  h.binary fun _ _ => .bind .get fun _ => .pure _

theorem logical (f : Bool → Bool → Bool) : J Unit (logical f) :=
  h.bind h.popValue fun _ => h.bind h.popValue fun _ => h.push _

theorem negateTop : J Unit negateTop :=
  h.bind h.popValue fun v => h.computed (Operator.negate_within Store.spares_addsObjects v)

theorem shiftBelow : J Unit shiftBelow :=
  h.bind h.popValue fun count => h.bind h.popValue fun v =>
    h.computed (Operator.shift_within Store.spares_addsObjects v count)

/-! ## Names -/

theorem loadName : J Unit (loadName operand) := by
  refine h.bind (h.nameOf operand) fun name => h.bind (h.read _) fun v? => ?_
  split
  · exact h.push _
  · exact h.throw _

theorem storeName : J Unit (storeName operand) :=
  h.bind (h.nameOf operand) fun name => h.bind h.popValue fun v => h.bind (h.ofContext _) fun r =>
    h.set r name v

theorem leaveScopes (count : Nat) : J Unit (leaveScopes count) := by
  induction count with
  | zero => exact h.pure _
  | succ count ih =>
    refine h.bind (h.ofContext _) fun r => h.bind (h.ofStore _) fun t => ?_
    split
    · exact h.bind (h.modifyContext ⟨fun _ => rfl, fun _ => rfl, fun _ => rfl, fun _ => rfl⟩)
        fun _ => ih
    · exact h.throw _

theorem createName : J Unit (createName operand) :=
  h.bind (h.nameOf operand) fun name =>
    choice (h.pure _) (h.bind (h.ofContext _) fun r => h.create r name)

theorem declareConstant : J Unit (declareConstant operand) :=
  h.bind (h.nameOf operand) fun name => h.bind h.popValue fun v => h.bind (h.ofContext _) fun r =>
    h.setConstant r name v

/-! ## Aggregates -/

theorem loadIndex : J Unit loadIndex :=
  h.bind h.popValue fun index => h.bind h.popValue fun container =>
    h.computed (Aggregate.item_sparing container index)

theorem storeIndex : J Unit storeIndex :=
  h.bind h.popValue fun v => h.bind h.popValue fun index => h.bind h.popValue fun container =>
    h.bind (h.compute (Aggregate.setItem_sparing container index v)) fun _ => h.push _

theorem loadSlice : J Unit loadSlice :=
  h.bind h.popValue fun hi => h.bind h.popValue fun lo => h.bind h.popValue fun container =>
    h.computed (Aggregate.slice_sparing container lo hi)

theorem loadMember (inherited : Bool) : J Unit (loadMember operand inherited) :=
  h.bind (h.nameOf operand) fun name => h.bind h.popValue fun v =>
    h.computed (Aggregate.member_sparing v name inherited)

theorem packArray : J Unit (packArray operand) := by
  unfold Exec.packArray
  split
  split
  · exact h.bind (h.typeOf _) fun element => h.bind (h.popValues _) fun items =>
      h.bind (h.compute (.listMapM (fun v => .coerce v element) items)) fun _ =>
        h.computed (.array _ _)
  · exact h.bind (h.popValues _) fun _ => h.computed (.array _ _)

theorem filled (fill : Value) : J Unit (do
    let size ← Exec.popValue
    match if size.kind.isInteger then size.asInt? else none with
    | some n =>
      if n.toInt < 0 then MonadExcept.throw (Fault.about .invalidIndex (Decimal.ofInt n.toInt))
      else
        let items ← (Aggregate.copies fill n.toInt.toNat #[] : StoreM (Array Value))
        Exec.push (← (StoreM.array .interface items : StoreM Value))
    | none => MonadExcept.throw (Fault.about .invalidIndex (← Exec.ofStore size.display))) := by
  refine h.bind h.popValue fun size => ?_
  split
  · exact choice (h.throw _) <| h.bind (h.compute (Aggregate.copies_sparing fill _ _)) fun _ =>
      h.computed (.array _ _)
  · exact h.bind (h.ofStore _) fun _ => h.throw _

theorem makeArray : J Unit (makeArray operand) :=
  choice (h.bind h.popValue h.filled) (h.bind (h.pure _) h.filled)

theorem packStruct : J Unit (packStruct operand) := by
  unfold Exec.packStruct
  split
  refine h.bind (h.popValues _) fun _ => ?_
  split
  · exact h.computed (Aggregate.mapOf_sparing _ _)
  · exact h.computed (Aggregate.packageOf_sparing _ _)
  · exact h.computed (Aggregate.structOf_sparing _)

theorem coerceTop : J Unit (coerceTop operand) :=
  h.bind (h.typeOf operand) fun t => h.bind h.popValue fun v => h.computed (.coerce v t)

/-! ## Output and checks -/

theorem print : J Unit (print operand) :=
  h.bind (h.popValues _) fun _ => h.bind h.getStore fun _ => h.write _

theorem say : J Unit say :=
  h.bind h.pop fun _ => choice (h.pure _) (h.bind (h.ofStore _) fun _ => h.write _)

theorem log : J Unit log := h.bind h.popValue fun _ => h.pure _

theorem makeTemplate : J Unit (makeTemplate operand) := by
  refine h.bind h.popValue fun v => ?_
  split
  · split
    · exact h.push _
    · exact h.throw _
  · exact h.bind (h.ofStore _) fun _ => h.throw _

theorem timer : J Unit (timer operand) := by
  refine h.bind h.getWorld fun w => choice ?_ (h.bind (h.ofContext _) fun timers => ?_)
  · exact h.modifyContext ⟨fun _ => rfl, fun _ => rfl, fun _ => rfl, fun _ => rfl⟩
  · split
    · exact h.throw _
    · exact h.bind (h.modifyContext ⟨fun _ => rfl, fun _ => rfl, fun _ => rfl, fun _ => rfl⟩)
        fun _ => h.push _

theorem setReceiver : J Unit setReceiver :=
  h.bind h.popValue fun _ =>
    h.modifyContext ⟨fun _ => rfl, fun _ => rfl, fun _ => rfl, fun _ => rfl⟩

theorem loadReceiver : J Unit loadReceiver := by
  refine h.bind (h.ofContext _) fun r => h.bind (h.ofStore _) fun v => ?_
  split
  · exact h.push _
  · exact h.throw _

theorem checkArguments : J Unit (checkArguments operand) :=
  h.bind (h.map (h.bind (h.ofContext _) fun _ => h.ofStore _) _) fun _ =>
    choice (h.throw _) (h.pure _)

theorem requireType : J Unit (requireType operand) := by
  refine h.bind (h.typeOf operand) fun t => h.bind h.popValue fun v =>
    h.bind (h.ofContext _) fun level => ?_
  split
  · exact h.bind h.getStore fun _ => choice (h.throw _) (h.push _)
  · exact h.push _
  · exact h.computed (.coerce v t)

theorem setStrictness : J Unit (setStrictness operand) := by
  unfold Exec.setStrictness
  split
  · exact h.modifyContext ⟨fun _ => rfl, fun _ => rfl, fun _ => rfl, fun _ => rfl⟩
  · exact h.wrongOperand _ _

/-! ## Control -/

theorem jump (target : Nat) : J Unit (jump target) :=
  h.modifyContext ⟨fun _ => rfl, fun _ => rfl, fun _ => rfl, fun _ => rfl⟩

theorem branch : J Unit (branch operand) := h.bind (h.addressOf operand) fun _ => h.jump _

theorem branchIf (taken : Bool) : J Unit (branchIf taken operand) :=
  h.bind (h.addressOf operand) fun _ => h.bind h.popValue fun _ => choice (h.jump _) (h.pure _)

theorem panic : J Unit panic := by
  refine h.bind h.popValue fun v => ?_
  split
  · exact h.throw _
  · exact h.bind (h.ofStore _) fun _ => h.throw _

theorem atLine : J Unit (atLine operand) :=
  h.bind (h.modifyContext ⟨fun _ => rfl, fun _ => rfl, fun _ => rfl, fun _ => rfl⟩) fun _ =>
    h.bind (h.ofContext _) fun _ => choice (h.throw _) (h.pure _)

/-! ## Results -/

theorem pushResults (vs : List Value) (multi : Bool) : J Unit (pushResults vs multi) := by
  unfold Exec.pushResults
  split
  · exact h.push _
  · exact h.push _
  · exact choice (h.pushAll _) (h.throw _)

theorem pushResult (v : Value) (multi : Bool) : J Unit (pushResult v multi) := by
  unfold Exec.pushResult
  split
  · exact h.bind (h.ofStore _) fun _ => h.pushResults _ _
  · exact h.push _

theorem complete (call : PendingCall) (result : Except Fault Value) :
    J Unit (complete call result) := by
  unfold Exec.complete
  split
  · exact choice (h.pushAll _) (h.pushResult _ _)
  · exact choice (h.throw _) (choice (h.pushAll _) (h.throw _))

/-! ## Calls that save no frame -/

theorem readCall : J (Nat × CallFlags) (readCall operand) := by
  unfold Exec.readCall
  split
  · split
    · exact h.pure _
    · exact h.wrongOperand _ _
  · exact h.pure _

theorem spreadCount (count : Nat) (flags : CallFlags) : J Nat (spreadCount count flags) := by
  refine choice (h.bind h.pop fun v => ?_) (h.pure _)
  split
  · exact h.pure _
  · exact h.throw _

theorem callType (t : Ty) (args : List Value) : J Unit (callType t args) := by
  unfold Exec.callType
  split
  · exact h.computed (.zero t)
  · exact h.computed (.coerce _ t)
  · exact h.bind (h.throw _) fun _ => h.push _

theorem callNative (f : Native) (args : List Value) (receiver : Option Value) (multi : Bool) :
    J (Option (PendingCall × Answer)) (callNative f args receiver multi) := by
  unfold Exec.callNative
  split
  · exact h.throw _
  · refine h.bind (h.ofContext _) fun caller => h.bind (h.native f _) fun answer => ?_
    split
    · exact h.bind (h.complete _ _) fun _ => h.pure _
    · exact h.pure _
    · exact h.bind (h.complete _ _) fun _ => h.pure _

end Rules

/-! ## Every instruction -/

/-- Whether an operation enters or leaves a call or a protected block. -/
def delimits : Opcode → Bool
  | .call | .leave | .tryBlock | .tryPop => true
  | _ => false

/-- Whether an operation binds or removes names whatever their attributes. -/
def overrides : Opcode → Bool
  | .explode | .symbolDelete => true
  | _ => false

/-- A judgement that holds of the parts of instructions holds of an instruction that delimits and
overrides nothing. -/
theorem Rules.perform {J : ∀ α : Type, Exec α → Prop} (h : Rules J) {i : Instruction}
    (plain : delimits i.op = false) (heeds : overrides i.op = false) : J Unit (perform i) := by
  obtain ⟨op, operand⟩ := i
  have adds := Store.spares_addsObjects
  cases op with
  | noOperation => exact h.pure _
  | push => exact h.pushOperand _
  | drop => exact h.dropValues _
  | dup => exact h.dup
  | swap => exact h.swap
  | copy => exact h.copyTop
  | readStack => exact h.readStack _
  | flatten => exact h.flatten
  | dropToMarker => exact h.dropToMarker _
  | load => exact h.loadName _
  | store => exact h.storeName _
  | loadIndex => exact h.loadIndex
  | storeIndex => exact h.storeIndex
  | loadSlice => exact h.loadSlice
  | member | classMember => exact h.loadMember _ _
  | array => exact h.packArray _
  | makeArray => exact h.makeArray _
  | struct => exact h.packStruct _
  | coerce => exact h.coerceTop _
  | add => exact h.binary (Operator.add_within adds)
  | sub => exact h.binary (Operator.subtract_within adds)
  | mul => exact h.binary (Operator.apply_within adds Operator.multiplication_plain)
  | div => exact h.binary (Operator.apply_within adds Operator.division_plain)
  | exp => exact h.binary (Operator.apply_within adds Operator.power_plain)
  | modulo => exact h.binary (Operator.apply_within adds Operator.remainder_plain)
  | bitAnd | bitOr => exact h.binary (Operator.bitwise_within adds _ _)
  | equal | notEqual => exact h.equality _
  | lessThan | lessThanOrEqual | greaterThan | greaterThanOrEqual =>
    exact h.binary (Operator.ordered_within adds _)
  | negate => exact h.negateTop
  | and | or => exact h.logical _
  | bitShift => exact h.shiftBelow
  | stop | branchLimit => exact h.throw _
  | panic => exact h.panic
  | atLine => exact h.atLine _
  | pushScope => exact h.openScope
  | popScope => exact h.leaveScopes _
  | symbolCreate => exact h.createName _
  | constant => exact h.declareConstant _
  | print => exact h.print _
  | newline => exact h.write _
  | say => exact h.say
  | log => exact h.log
  | template => exact h.makeTemplate _
  | timer => exact h.timer _
  | setThis => exact h.setReceiver
  | loadThis => exact h.loadReceiver
  | argCheck => exact h.checkArguments _
  | requiredType => exact h.requireType _
  | staticTyping => exact h.setStrictness _
  | branch => exact h.branch _
  | branchTrue | branchFalse => exact h.branchIf _ _
  | explode | symbolDelete => cases heeds
  | call | leave | tryBlock | tryPop => cases plain

end StackScript.Exec
