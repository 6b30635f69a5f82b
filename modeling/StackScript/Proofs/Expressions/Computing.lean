import StackScript.Proofs.Steps
import StackScript.Proofs.Expressions.Evaluator

/-!
# Instructions that compute values

An instruction `Does` a computation on values when it takes its operands from the stack, leaves the
result there, and fails as the computation fails. A stretch of code `Computes` one when running it
has this effect; stretches are joined like the computations that they stand for.

Main statements: `Computes.bind`, `Computes.branchIf`, and one lemma for each instruction that
expressions need.
-/
namespace StackScript

/-- Counts below this are numbers that an operand can hold. -/
def countLimit : Nat := 0x8000000000000000

/-- A context at an address, with a stack. -/
def Context.at (c : Context) (pc : Nat) (stack : Array Value) : Context :=
  { c with pc := pc, stack := stack }

@[simp] theorem Context.at_base (c : Context) (pc : Nat) (stack : Array Value) :
    (c.at pc stack).base = c.base := rfl

@[simp] theorem Context.at_stack (c : Context) (pc : Nat) (stack : Array Value) :
    (c.at pc stack).stack = stack := rfl

@[simp] theorem Context.at_at (c : Context) (pc pc' : Nat) (stack stack' : Array Value) :
    (c.at pc stack).at pc' stack' = c.at pc' stack' := rfl

namespace Exec

variable {α β γ δ : Type} {c : Context} {w : World}

/-- On a stack, `x` has the effect of `m`: what is left of the stack is `rest`, the result `result`
of the value of `m`. -/
def Does (c : Context) (w : World) (x : Exec β) (stack : Array Value) (m : StoreM α)
    (rest : α → Array Value) (result : α → β) : Prop :=
  ∀ (pc : Nat) (s : Store), match m s with
    | (.ok a, s') => x (c.at pc stack) w s = (((.ok (result a), c.at pc (rest a)), w), s')
    | (.error f, s') => ∃ left, x (c.at pc stack) w s = (((.error f, c.at pc left), w), s')

namespace Does

theorem bind {x : Exec β} {f : β → Exec δ} {stack : Array Value} {m : StoreM α}
    {g : α → StoreM γ} {rest : α → Array Value} {rest' : γ → Array Value} {result : α → β}
    {result' : γ → δ} (hx : Does c w x stack m rest result)
    (hf : ∀ a, Does c w (f (result a)) (rest a) (g a) rest' result') :
    Does c w (x >>= f) stack (m >>= g) rest' result' := by
  intro pc s
  have first := hx pc s
  simp only [Bind.bind, ExceptT.bind, ExceptT.mk, StateT.bind] at first ⊢
  rcases hm : m s with ⟨r, s'⟩
  rw [hm] at first
  cases r with
  | error e =>
    obtain ⟨left, first⟩ := first
    exact ⟨left, bind_of_error first⟩
  | ok a =>
    have second := hf a pc s'
    simp only [ExceptT.bindCont]
    rcases hg : g a s' with ⟨r, s''⟩
    rw [hg] at second
    cases r with
    | error e =>
      obtain ⟨left, second⟩ := second
      exact ⟨left, (bind_of_ok first).trans second⟩
    | ok b => exact (bind_of_ok first).trans second

/-- What has the effect of a value alone comes first without a trace. -/
theorem first {x : Exec β} {f : β → Exec δ} {stack : Array Value} {a : α} {m : StoreM γ}
    {rest : α → Array Value} {rest' : γ → Array Value} {result : α → β} {result' : γ → δ}
    (hx : Does c w x stack (pure a) rest result)
    (hf : Does c w (f (result a)) (rest a) m rest' result') :
    Does c w (x >>= f) stack m rest' result' := by
  intro pc s
  have first := bind_of_ok (f := f) (hx pc s)
  have second := hf pc s
  rcases hm : m s with ⟨r, s'⟩
  rw [hm] at second
  cases r with
  | error e =>
    obtain ⟨left, second⟩ := second
    exact ⟨left, first.trans second⟩
  | ok b => exact first.trans second

theorem lift (m : StoreM α) (stack : Array Value) :
    Does c w (m : Exec α) stack m (fun _ => stack) id := by
  intro pc s
  rcases hm : m s with ⟨r, s'⟩
  have : (m : Exec α) (c.at pc stack) w s = ((((m s).1, c.at pc stack), w), (m s).2) := rfl
  rw [hm] at this
  cases r with
  | error e => exact ⟨stack, this⟩
  | ok a => exact this

theorem push (v : Value) (stack : Array Value) :
    Does c w (Exec.push v) stack (pure v) stack.push fun _ => () :=
  fun _ _ => rfl

theorem of_ok {x : Exec β} {stack left : Array Value} (a : α) {b : β}
    (h : ∀ pc s, x (c.at pc stack) w s = (((.ok b, c.at pc left), w), s)) :
    Does c w x stack (pure a) (fun _ => left) fun _ => b := h

theorem pushed {x : Exec Value} {m : StoreM Value} {stack left : Array Value}
    (hx : Does c w x stack m (fun _ => left) id) :
    Does c w (do Exec.push (← x)) stack m left.push fun _ => () := by
  have := hx.bind fun v => push v left
  rwa [bind_pure] at this

theorem popValue {stack : Array Value} (high : c.base ≤ stack.size) (v : Value) :
    Does c w Exec.popValue (stack.push v) v.unchanged (fun _ => stack) id := by
  intro pc s
  unfold Exec.popValue Value.unchanged
  have some : ¬(c.at pc (stack.push v)).stack.size ≤ (c.at pc (stack.push v)).base := by
    simp
    omega
  rw [if_neg some]
  cases hv : v.isMarker with
  | true => exact ⟨stack, by simp [Context.at, hv]⟩
  | false =>
    have same : (pure v : StoreM Value) s = (.ok v, s) := rfl
    simp [Context.at, hv, same]

theorem ofContext (f : Context → β) (same : ∀ pc stack, f (c.at pc stack) = f c)
    (stack : Array Value) :
    Does c w (Exec.ofContext f) stack (pure (f c)) (fun _ => stack) id := by
  intro pc s
  simp only [Exec.ofContext, same]
  rfl

/-! ## Operators -/

variable {stack : Array Value} (high : c.base ≤ stack.size)

include high

theorem operands {x : Value → Value → Exec Unit} {f : Value → Value → StoreM Value}
    (h : ∀ a b, Does c w (x a b) stack (f a b) stack.push fun _ => ()) (a b : Value) :
    Does c w (do let b ← Exec.popValue; let a ← Exec.popValue; x a b) ((stack.push a).push b)
      (onOperands f a b) stack.push fun _ => () := by
  refine .bind (.popValue (by simp; omega) b) fun b => ?_
  exact .bind (.popValue high a) fun a => h a b

theorem binary (f : Value → Value → StoreM Value) (a b : Value) :
    Does c w (Exec.binary f) ((stack.push a).push b) (onUnified c.strictness f a b) stack.push
      fun _ => () := by
  refine operands high (fun a b => ?_) a b
  refine .first (.ofContext Context.strictness (fun _ _ => rfl) stack) ?_
  refine .bind (.lift _ stack) fun p => ?_
  exact .pushed (.lift (f p.1 p.2) stack)

theorem shiftBelow (a b : Value) :
    Does c w Exec.shiftBelow ((stack.push a).push b) (onOperands Operator.shift a b) stack.push
      fun _ => () :=
  operands high (fun a b => .pushed (.lift (Operator.shift a b) stack)) a b

theorem logical (f : Bool → Bool → Bool) (a b : Value) :
    Does c w (Exec.logical f) ((stack.push a).push b)
      (onOperands (fun a b => pure (.bool (f a.isTruthy b.isTruthy))) a b) stack.push
      fun _ => () :=
  operands high (fun _ _ => .push _ stack) a b

theorem negateTop (v : Value) :
    Does c w Exec.negateTop (stack.push v) (negated v) stack.push fun _ => () :=
  .bind (.popValue high v) fun v => .pushed (.lift (Operator.negate v) stack)

theorem dup (v : Value) :
    Does c w Exec.dup (stack.push v) (pure v) ((stack.push v).push ·) fun _ => () := by
  have top : Does c w (Exec.peek 0) (stack.push v) (pure v) (fun _ => stack.push v) id := by
    refine of_ok v fun pc s => ?_
    have some : ¬(c.at pc (stack.push v)).stack.size - (c.at pc (stack.push v)).base ≤ 0 := by
      simp
      omega
    unfold Exec.peek
    rw [if_neg some]
    simp
  exact .pushed top

theorem popMany (vs : List Value) :
    Does c w (Exec.popMany vs.length) (stack ++ vs.toArray) (pure vs) (fun _ => stack) id := by
  refine of_ok vs fun pc s => ?_
  have some : ¬(c.at pc (stack ++ vs.toArray)).stack.size <
      (c.at pc (stack ++ vs.toArray)).base + vs.length := by
    simp
    omega
  unfold Exec.popMany
  rw [if_neg some]
  simp [Context.at, Array.shrink_eq_take, Array.extract_append]

theorem drop (v : Value) :
    Does c w (Exec.dropValues .none) (stack.push v) (pure ()) (fun _ => stack) fun _ => () :=
  .first (popMany high [v]) (of_ok () fun _ _ => rfl)

theorem popValues (vs : List Value) :
    Does c w (Exec.popValues vs.length) (stack ++ vs.toArray) (allUnchanged vs) (fun _ => stack)
      id := by
  refine .first (popMany high vs) fun pc s => ?_
  unfold refuseMarkers allUnchanged
  by_cases marked : vs.any Value.isMarker
  · simp only [id, marked, if_true]
    exact ⟨stack, rfl⟩
  · simp only [id, marked]
    rfl

theorem packArray (vs : List Value) (short : vs.length < countLimit) :
    Does c w (Exec.packArray (.int (Int64.ofNat vs.length))) (stack ++ vs.toArray) (arrayOf vs)
      stack.push fun _ => () := by
  have count : countOf (.int (Int64.ofNat vs.length)) 0 = vs.length := by
    simp only [countOf, Operand.asInt?, Int64.toInt_ofNat_of_lt (Nat.lt_of_lt_of_eq short rfl), Int.toNat_natCast]
  have packed : Does c w (do
      let items ← Exec.popValues vs.length
      Exec.push (← (StoreM.array .interface items.toArray : StoreM Value)))
      (stack ++ vs.toArray) (arrayOf vs) stack.push fun _ => () :=
    .bind (popValues high vs) fun vs => .pushed (.lift (StoreM.array .interface vs.toArray) stack)
  rw [← count] at packed
  exact packed

omit high

theorem loadName (name : String) (stack : Array Value) :
    Does c w (Exec.loadName (.name name)) stack (lookup c.scope name) stack.push fun _ => () := by
  intro pc s
  unfold lookup Exec.loadName
  rw [StoreM.bind_of_ok (StoreM.get_eq s), Exec.bind_of_ok (a := name) rfl,
    Exec.bind_of_ok (a := c.scope.get? s name false) rfl]
  cases c.scope.get? s name false with
  | some v => rfl
  | none => exact ⟨stack, rfl⟩

end Does

end Exec

/-! ## Stretches of code -/

/-- The branch that is taken when the top of the stack is true, or when it is not. -/
def branchOn (taken : Bool) (target : Nat) : Instruction :=
  ⟨if taken then .branchTrue else .branchFalse, .address target⟩

/-- Running a unit from one address to another, from a stack, has the effect of `m`: what is on the
stack in the end is `rest` of its value. -/
def Computes {α : Type} (c : Context) (w : World) (code : Code) (pc pc' : Nat)
    (stack : Array Value) (m : StoreM α) (rest : α → Array Value) : Prop :=
  ∀ s, s.code c.code = code → match m s with
    | (.ok a, s') => ∃ n, Steps n ⟨c.at pc stack, w, s⟩ ⟨c.at pc' (rest a), w, s'⟩
    | (.error f, s') => ∃ n pc₁ left, Fails n ⟨c.at pc stack, w, s⟩ f ⟨c.at pc₁ left, w, s'⟩

namespace Computes

open Exec (Does)

variable {α β : Type} {c : Context} {w : World} {code : Code} {pc pc₁ pc₂ : Nat}
  {stack : Array Value}

theorem instruction {i : Instruction} {m : StoreM α} {rest : α → Array Value}
    (found : code.instructions[pc]? = some i) (noCall : i.op ≠ .call)
    (h : Does c w (Exec.perform i) stack m rest fun _ => ()) :
    Computes c w code pc (pc + 1) stack m rest := by
  rintro s rfl
  have done := h (pc + 1) s
  rcases hm : m s with ⟨r, s'⟩
  rw [hm] at done
  cases r with
  | ok a => exact ⟨1, .one (Exec.step_ok found noCall done)⟩
  | error f =>
    obtain ⟨left, failed⟩ := done
    exact ⟨0, pc + 1, left, _, .refl, Exec.step_error found noCall failed⟩

theorem refl (a : α) {rest : α → Array Value} (same : rest a = stack) :
    Computes c w code pc pc stack (pure a : StoreM α) rest := by
  intro s _
  change ∃ n, Steps n ⟨c.at pc stack, w, s⟩ ⟨c.at pc (rest a), w, s⟩
  rw [same]
  exact ⟨0, .refl⟩

theorem bindOf {m : StoreM α} {f : α → StoreM β} {rest₁ : α → Array Value}
    {rest₂ : β → Array Value} (hm : Computes c w code pc pc₁ stack m rest₁)
    (same : ∀ s, (m s).2.codes = s.codes)
    (hf : ∀ a, (∃ s s', m s = (.ok a, s')) → Computes c w code pc₁ pc₂ (rest₁ a) (f a) rest₂) :
    Computes c w code pc pc₂ stack (m >>= f) rest₂ := by
  intro s placed
  have first := hm s placed
  have codes := same s
  simp only [Bind.bind, ExceptT.bind, ExceptT.mk, StateT.bind]
  rcases hr : m s with ⟨r, s'⟩
  rw [hr] at first codes
  cases r with
  | error e => exact first
  | ok a =>
    obtain ⟨n, steps⟩ := first
    have second := hf a ⟨s, s', hr⟩ s' (by rw [← placed, Store.code, Store.code, codes])
    simp only [ExceptT.bindCont]
    rcases hg : f a s' with ⟨r, s''⟩
    rw [hg] at second
    cases r with
    | ok b =>
      obtain ⟨n', steps'⟩ := second
      exact ⟨n + n', steps.trans steps'⟩
    | error e =>
      obtain ⟨n', pc', left, failed⟩ := second
      exact ⟨n + n', pc', left, .trans steps failed⟩

theorem bind {m : StoreM α} {f : α → StoreM β} {rest₁ : α → Array Value}
    {rest₂ : β → Array Value} (hm : Computes c w code pc pc₁ stack m rest₁)
    (same : ∀ s, (m s).2.codes = s.codes)
    (hf : ∀ a, Computes c w code pc₁ pc₂ (rest₁ a) (f a) rest₂) :
    Computes c w code pc pc₂ stack (m >>= f) rest₂ :=
  hm.bindOf same fun a _ => hf a

/-- Code with no effect but on the stack comes first without a trace. -/
theorem first {a : α} {m : StoreM β} {rest₁ : α → Array Value} {rest₂ : β → Array Value}
    (h : Computes c w code pc pc₁ stack (pure a : StoreM α) rest₁)
    (hm : Computes c w code pc₁ pc₂ (rest₁ a) m rest₂) :
    Computes c w code pc pc₂ stack m rest₂ := by
  intro s placed
  obtain ⟨n, steps⟩ := h s placed
  have second := hm s placed
  rcases hr : m s with ⟨r, s'⟩
  rw [hr] at second
  cases r with
  | ok b =>
    obtain ⟨n', steps'⟩ := second
    exact ⟨n + n', steps.trans steps'⟩
  | error e =>
    obtain ⟨n', pc', left, failed⟩ := second
    exact ⟨n + n', pc', left, .trans steps failed⟩

theorem map {m : StoreM α} {rest : α → Array Value} (hm : Computes c w code pc pc₁ stack m rest)
    (same : ∀ s, (m s).2.codes = s.codes) (f : α → β) {rest' : β → Array Value}
    (left : ∀ a, rest' (f a) = rest a) :
    Computes c w code pc pc₁ stack (do pure (f (← m))) rest' :=
  hm.bind same fun a => .refl (f a) (left a)

/-! ## Branches -/

theorem addressOf_at {target : Nat} (within : target ≤ code.size) {s : Store}
    (placed : s.code c.code = code) (pc : Nat) (stack : Array Value) :
    Exec.addressOf (.address target) (c.at pc stack) w s =
      (((.ok target, c.at pc stack), w), s) := by
  subst placed
  refine Eq.trans (b := (if target ≤ (s.code c.code).size then pure target
    else Exec.wrongOperand .invalidAddress (.address target) : Exec Nat) (c.at pc stack) w s) rfl ?_
  rw [if_pos within]
  rfl

theorem jump {target : Nat} (found : code.instructions[pc]? = some ⟨.branch, .address target⟩)
    (within : target ≤ code.size) :
    Computes c w code pc target stack (pure () : StoreM Unit) fun _ => stack := by
  rintro s rfl
  exact ⟨1, .one (Exec.step_ok found (by simp)
    (Exec.bind_of_ok (addressOf_at within rfl (pc + 1) stack)))⟩

/-- A jump behind code has no effect but on where to go on. -/
theorem thenJump {target : Nat} {m : StoreM α} {rest : α → Array Value}
    (hm : Computes c w code pc pc₁ stack m rest) (same : ∀ s, (m s).2.codes = s.codes)
    (found : code.instructions[pc₁]? = some ⟨.branch, .address target⟩)
    (within : target ≤ code.size) : Computes c w code pc target stack m rest := by
  have := hm.bind (f := pure) same fun a => (jump found within).first (.refl a rfl)
  rwa [bind_pure] at this

theorem branchOn_noCall (taken : Bool) (target : Nat) : (branchOn taken target).op ≠ .call := by
  cases taken <;> simp [branchOn]

theorem perform_branchOn (taken : Bool) (target : Nat) :
    Exec.perform (branchOn taken target) = Exec.branchIf taken (.address target) := by
  cases taken <;> rfl

/-- A branch takes a value off the stack, and a marker is none. -/
theorem branchOn_fails {taken : Bool} {target : Nat} {v : Value} {s : Store}
    (high : c.base ≤ stack.size) (placed : s.code c.code = code)
    (found : code.instructions[pc]? = some (branchOn taken target)) (within : target ≤ code.size)
    (marked : v.isMarker = true) :
    ∃ left, Exec.step (c.at pc (stack.push v)) w s =
      (((.error (.of .voidReturn), c.at (pc + 1) left), w), s) := by
  have fails : v.unchanged = throw (.of .voidReturn) := by simp [Value.unchanged, marked]
  have popped := Does.popValue (w := w) high v (pc + 1) s
  rw [fails] at popped
  obtain ⟨left, popped⟩ := popped
  subst placed
  refine ⟨left, Exec.step_error found (branchOn_noCall taken target) ?_⟩
  rw [perform_branchOn]
  exact (Exec.bind_of_ok (addressOf_at within rfl _ _)).trans (Exec.bind_of_error popped)

theorem branchOn_goes {taken : Bool} {target : Nat} {v : Value} {s : Store}
    (high : c.base ≤ stack.size) (placed : s.code c.code = code)
    (found : code.instructions[pc]? = some (branchOn taken target)) (within : target ≤ code.size)
    (marked : v.isMarker = false) :
    Exec.step (c.at pc (stack.push v)) w s = (((.ok .goesOn,
      c.at (if v.isTruthy == taken then target else pc + 1) stack), w), s) := by
  have same : v.unchanged = pure v := by simp [Value.unchanged, marked]
  have popped := Does.popValue (w := w) high v (pc + 1) s
  rw [same] at popped
  subst placed
  refine Exec.step_ok found (branchOn_noCall taken target) ?_
  rw [perform_branchOn]
  refine (Exec.bind_of_ok (addressOf_at within rfl _ _)).trans
    ((Exec.bind_of_ok popped).trans ?_)
  simp only [id]
  split <;> rfl

theorem branchIf {taken : Bool} {target : Nat} {m m' : StoreM α} {rest : α → Array Value} (v : Value)
    (high : c.base ≤ stack.size) (found : code.instructions[pc]? = some (branchOn taken target))
    (within : target ≤ code.size)
    (yes : v.isMarker = false → v.isTruthy = taken → Computes c w code target pc₂ stack m rest)
    (no : v.isMarker = false → v.isTruthy = !taken → Computes c w code (pc + 1) pc₂ stack m' rest) :
    Computes c w code pc pc₂ (stack.push v)
      (do if (← v.unchanged).isTruthy == taken then m else m') rest := by
  cases marked : v.isMarker with
  | true =>
    have fails : v.unchanged = throw (.of .voidReturn) := by simp [Value.unchanged, marked]
    intro s placed
    obtain ⟨left, failed⟩ := branchOn_fails (w := w) high placed found within marked
    rw [fails]
    exact ⟨0, pc + 1, left, _, .refl, failed⟩
  | false =>
    have same : v.unchanged = pure v := by simp [Value.unchanged, marked]
    rw [same, pure_bind]
    have goes (s : Store) (placed : s.code c.code = code) :=
      branchOn_goes (w := w) high placed found within marked
    by_cases decided : v.isTruthy = taken
    · simp only [decided, beq_self_eq_true, if_true] at goes ⊢
      have jumps : Computes c w code pc target (stack.push v) (pure () : StoreM Unit)
          fun _ => stack := fun s placed => ⟨1, .one (goes s placed)⟩
      exact jumps.first (yes marked decided)
    · have other : v.isTruthy = !taken := by
        cases hv : v.isTruthy <;> cases taken <;> simp_all
      have : (v.isTruthy == taken) = false := by simpa using decided
      simp only [this] at goes ⊢
      have falls : Computes c w code pc (pc + 1) (stack.push v) (pure () : StoreM Unit)
          fun _ => stack := fun s placed => ⟨1, .one (goes s placed)⟩
      exact falls.first (no marked other)

end Computes

end StackScript
