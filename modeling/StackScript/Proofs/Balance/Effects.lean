import StackScript.Proofs.Balance.Points
import StackScript.Proofs.Debugging.Instructions
import StackScript.Proofs.Addresses.Steps

/-!
# What instructions do to the stack

An instruction that succeeds takes values that the current call has put on the stack, and gives
others, which are no markers but where it pushes one. All else of the context it leaves as it is,
unless it opens or leaves scopes or protected blocks, branches, or sets a receiver.

Main statements: `Exec.perform_exchange` (how many values an instruction takes and gives) and
`Exec.perform_advances` (an instruction on values does to those of a call what it does to a point).
-/
namespace StackScript

/-- The values on the stack, the top first. -/
def Context.values (c : Context) : List Value := c.stack.toList.reverse

/-- Only values were taken and given. -/
structure Context.Stays (c c' : Context) : Prop where
  code : c'.code = c.code
  pc : c'.pc = c.pc
  scope : c'.scope = c.scope
  fp : c'.fp = c.fp
  depth : c'.depth = c.depth
  tries : c'.tries = c.tries
  receivers : c'.receivers = c.receivers

theorem Context.Stays.refl (c : Context) : c.Stays c := ⟨rfl, rfl, rfl, rfl, rfl, rfl, rfl⟩

theorem Context.Stays.of_stack (c : Context) (stack : Array Value) :
    c.Stays { c with stack := stack } := ⟨rfl, rfl, rfl, rfl, rfl, rfl, rfl⟩

theorem Context.Stays.trans {c c' c'' : Context} (h : c.Stays c') (k : c'.Stays c'') :
    c.Stays c'' :=
  ⟨k.code.trans h.code, k.pc.trans h.pc, k.scope.trans h.scope, k.fp.trans h.fp,
    k.depth.trans h.depth, k.tries.trans h.tries, k.receivers.trans h.receivers⟩

theorem Context.Stays.base {c c' : Context} (h : c.Stays c') : c'.base = c.base := by
  rw [Context.base, h.depth, h.fp, Context.base]

/-- Structs may be linked in any way. -/
def Links.any : Links := fun _ _ => True

theorem Value.Ordinary.tame {n : Nat} {v : Value} (h : v.Ordinary n) : v.Tame := by
  rintro m rfl
  exact h.elim

/-- So many values were taken from the top, and so many others given. -/
def Net (l : List Value) (taken given : Nat) (l' : List Value) : Prop :=
  taken ≤ l.length ∧ ∃ out : List Value, out.length = given ∧ (∀ v ∈ out, v.Tame) ∧
    l' = out ++ l.drop taken

namespace Net

variable {l : List Value} {v : Value} {k : Nat}

theorem nothing : Net l 0 0 l := ⟨Nat.zero_le _, [], rfl, List.forall_mem_nil _, rfl⟩

theorem take (taken : List Value) (length : taken.length = k) : Net (taken ++ l) k 0 l :=
  ⟨by simp [← length], [], rfl, List.forall_mem_nil _, by rw [← length, List.drop_left]; rfl⟩

theorem replace (taken : List Value) (length : taken.length = k) (tame : v.Tame) :
    Net (taken ++ l) k 1 (v :: l) :=
  ⟨by simp [← length], [v], rfl, List.forall_mem_singleton.2 tame,
    by rw [← length, List.drop_left]; rfl⟩

end Net

namespace Exec

variable {n : Nat} {l : List Value} {α β : Type} {P : Nat → α → Prop}
  {Q : Nat → α → List Value → Prop} {R : Nat → β → List Value → Prop} {m : Exec α}

/-- From a clear state with `n` structs, and with certain values of the current call on the stack, a
computation that succeeds only takes and gives values, and leads to a clear state in which certain
values of the call are there. -/
def Trades (n : Nat) (l : List Value) (m : Exec α) (Q : Nat → α → List Value → Prop) : Prop :=
  ∀ (bottom : List Value) (c : Context) (w : World) (s : Store), Watched.Clear (M := Exec) n (c, w, s) →
    c.values = l ++ bottom → bottom.length = c.base →
    ∀ (a : α) (c' : Context) (w' : World) (s' : Store), m c w s = (((.ok a, c'), w'), s') →
      ∃ n' l', n ≤ n' ∧ Watched.Clear (M := Exec) n' (c', w', s') ∧ c.Stays c' ∧
        c'.values = l' ++ bottom ∧ Q n' a l'

namespace Trades

theorem pure {a : α} (h : Q n a l) : Trades n l (Pure.pure a) Q := by
  rintro bottom c w s clear values - _ _ _ _ ⟨⟩
  exact ⟨n, l, Nat.le_refl n, clear, .refl c, values, h⟩

theorem throw (f : Fault) : Trades n l (MonadExcept.throw f : Exec α) Q := by
  rintro bottom c w s clear values - _ _ _ _ ⟨⟩

theorem bind {k : α → Exec β} (hm : Trades n l m Q)
    (hk : ∀ n' a l', n ≤ n' → Q n' a l' → Trades n' l' (k a) R) : Trades n l (m >>= k) R := by
  intro bottom c w s clear values base b c' w' s' run
  obtain ⟨a, c₁, w₁, s₁, first, second⟩ := bind_ok run
  obtain ⟨n₁, l₁, le₁, clear₁, stays₁, values₁, q⟩ := hm bottom c w s clear values base a _ _ _ first
  obtain ⟨n₂, l₂, le₂, clear₂, stays₂, values₂, r⟩ := hk n₁ a l₁ le₁ q bottom c₁ w₁ s₁ clear₁ values₁
    (base.trans stays₁.base.symm) b _ _ _ second
  exact ⟨n₂, l₂, le₁.trans le₂, clear₂, stays₁.trans stays₂, values₂, r⟩

theorem imp {Q' : Nat → α → List Value → Prop} (hm : Trades n l m Q)
    (h : ∀ n' a l', Q n' a l' → Q' n' a l') : Trades n l m Q' := by
  intro bottom c w s clear values base a c' w' s' run
  obtain ⟨n', l', le, after, stays, values', q⟩ := hm bottom c w s clear values base a c' w' s' run
  exact ⟨n', l', le, after, stays, values', h n' a l' q⟩

theorem ite {p : Prop} [Decidable p] {m' : Exec α} (yes : p → Trades n l m Q)
    (no : ¬p → Trades n l m' Q) : Trades n l (if p then m else m') Q := by
  split
  · next h => exact yes h
  · next h => exact no h

/-- What is calm and leaves the context alone. -/
theorem calm (h : Calm .any n P m) (alone : ∀ c w s, (m c w s).1.1.2 = c) :
    Trades n l m fun n' a l' => P n' a ∧ l' = l := by
  intro bottom c w s clear values base a c' w' s' run
  obtain ⟨after, kin, result, -, -⟩ := h (c, w, s) clear clear.2.2.size
  have same := alone c w s
  simp only [Stateful.run, run] at after kin result same
  cases same
  have size : s.structs.size = n := clear.2.2.size
  exact ⟨_, l, size.symm.trans_le kin.size_le, after, .refl _, values, result a rfl, rfl⟩

end Trades

/-! ## The stack -/

theorem size_of_values {c : Context} {l bottom : List Value} (values : c.values = l ++ bottom) :
    c.stack.size = l.length + bottom.length := by
  have length := congrArg List.length values
  simpa [Context.values] using length

theorem push_trades {v : Value} (hv : v.Stacked n) :
    Trades n l (push v) fun _ _ l' => l' = v :: l := by
  rintro bottom c w s ⟨hc, hw, hs⟩ values - _ _ _ _ ⟨⟩
  refine ⟨n, v :: l, Nat.le_refl n, ⟨{ hc with stack := Array.forall_push hc.stack hv }, hw, hs⟩,
    .of_stack _ _, ?_, rfl⟩
  simpa [Context.values] using values

theorem pushAll_trades {vs : List Value} (hv : ∀ v ∈ vs, v.Stacked n) :
    Trades n l (pushAll vs) fun _ _ l' => l' = vs.reverse ++ l := by
  rintro bottom c w s ⟨hc, hw, hs⟩ values - _ _ _ _ ⟨⟩
  refine ⟨n, vs.reverse ++ l, Nat.le_refl n,
    ⟨{ hc with stack := foldl_push_stacked hv hc.stack }, hw, hs⟩, .of_stack _ _, ?_, rfl⟩
  simpa [Context.values] using values

/-- What was popped lay on top of what the call has put there. -/
theorem taken_of_pop {c : Context} {bottom : List Value} {stack : Array Value} {v : Value}
    (values : c.values = l ++ bottom) (base : bottom.length = c.base) (enough : c.base < c.stack.size)
    (top : c.stack = stack.push v) : ∃ rest, l = v :: rest ∧ stack.toList.reverse = rest ++ bottom := by
  have size := size_of_values values
  rw [Context.values, top, Array.toList_push, List.reverse_append, List.reverse_singleton,
    List.singleton_append] at values
  cases l with
  | nil =>
    rw [List.length_nil] at size
    omega
  | cons u rest =>
    obtain ⟨rfl, below⟩ := List.cons.inj values
    exact ⟨rest, rfl, below⟩

/-- A computation that succeeds by popping. -/
theorem trades_of_pop {S : Value → Prop} {m : Exec Value} (still : Still .any n S m)
    (pops : ∀ {v c w s c' w' s'}, m c w s = (((.ok v, c'), w'), s') →
      pop c w s = (((.ok v, c'), w'), s')) :
    Trades n l m fun n' v l' => n' = n ∧ S v ∧ l = v :: l' := by
  intro bottom c w s clear values base v c' w' s' run
  have popped := pops run
  have still := still (c, w, s) clear clear.2.2.size
  have hv := (still.result v (congrArg (fun r => r.1.1.1) run)).2
  have after := still.clear
  obtain ⟨stack, top, rfl⟩ := pop_ok popped
  unfold pop at popped
  split at popped
  · cases popped
  next enough =>
  cases popped
  simp only [Stateful.run, run] at after
  obtain ⟨rest, rfl, below⟩ := taken_of_pop values base (Nat.lt_of_not_le enough) top
  have size : s.structs.size = n := clear.2.2.size
  exact ⟨n, rest, Nat.le_refl n, size ▸ after, .of_stack _ _, below, rfl, hv, rfl⟩

theorem pop_trades : Trades n l pop fun n' v l' => n' = n ∧ v.Stacked n ∧ l = v :: l' :=
  trades_of_pop pop_still id

theorem popValue_trades : Trades n l popValue fun n' v l' => n' = n ∧ v.Ordinary n ∧ l = v :: l' := by
  refine trades_of_pop popValue_still fun {v c w s c' w' s'} run => ?_
  unfold popValue at run
  unfold pop
  split at run
  · cases run
  next enough =>
  rw [if_neg enough]
  dsimp only at run
  split at run
  · cases run
  · exact run

theorem popMany_trades (count : Nat) : Trades n l (popMany count) fun n' vs l' =>
    n' = n ∧ (∀ v ∈ vs, v.Stacked n) ∧ vs.length = count ∧ l = vs.reverse ++ l' := by
  intro bottom c w s clear values base vs c' w' s' run
  have still := popMany_still (L := .any) count (c, w, s) clear clear.2.2.size
  have hv := (still.result vs (congrArg (fun r => r.1.1.1) run)).2
  have after := still.clear
  simp only [Stateful.run, run] at after
  obtain ⟨stack, top, length, rfl⟩ := popMany_ok run
  have enough : ¬c.stack.size < c.base + count := fun low => by
    simp only [popMany, if_pos low] at run
    cases run
  have same : (w', s') = (w, s) := by
    simp only [popMany, if_neg enough] at run
    cases run
    rfl
  cases same
  have size := size_of_values values
  rw [Context.values, top, Array.toList_append, List.reverse_append] at values
  obtain ⟨rest, rfl⟩ : vs.reverse <+: l :=
    List.prefix_of_prefix_length_le ⟨_, values⟩ (List.prefix_append l bottom) (by simp; omega)
  rw [List.append_assoc, List.append_cancel_left_eq] at values
  have same : s.structs.size = n := clear.2.2.size
  exact ⟨n, rest, Nat.le_refl n, same ▸ after, .of_stack _ _, values, rfl, hv, length, rfl⟩

theorem popValues_trades (count : Nat) : Trades n l (popValues count) fun n' vs l' =>
    n' = n ∧ (∀ v ∈ vs, v.Ordinary n) ∧ vs.length = count ∧ l = vs.reverse ++ l' := by
  refine (popMany_trades count).bind ?_
  rintro _ vs rest - ⟨rfl, stacked, length, rfl⟩
  refine (Trades.calm (refuseMarkers_still stacked) fun _ _ _ => ?_).bind ?_
  · unfold refuseMarkers
    split <;> rfl
  · rintro _ - _ - ⟨⟨rfl, ordinary⟩, rfl⟩
    exact .pure ⟨rfl, ordinary, length, rfl⟩

theorem peek_trades (offset : Nat) : Trades n l (peek offset) fun n' v l' =>
    n' = n ∧ v.Stacked n ∧ l[offset]? = some v ∧ l' = l := by
  intro bottom c w s clear values base v c' w' s' run
  have still := peek_still (L := .any) offset (c, w, s) clear clear.2.2.size
  have hv := (still.result v (congrArg (fun r => r.1.1.1) run)).2
  have size := size_of_values values
  unfold peek at run
  split at run
  · cases run
  next enough =>
  have inside : offset < l.length := by omega
  cases run
  refine ⟨n, l, Nat.le_refl n, clear, .refl c, values, rfl, hv, ?_, rfl⟩
  have found : c.values[offset]? = some (c.stack.getD (c.stack.size - 1 - offset) .nil) := by
    have below : c.stack.size - 1 - offset < c.stack.size := by omega
    rw [Context.values, List.getElem?_reverse (by simp; omega)]
    simp [Array.getElem?_eq_getElem below]
  rwa [values, List.getElem?_append_left inside] at found

/-! ## Rules -/

namespace Trades

/-- What goes on with a value from the top. -/
theorem popValue {k : Value → Exec β}
    (hk : ∀ v rest, v.Ordinary n → l = v :: rest → Trades n rest (k v) R) :
    Trades n l (Exec.popValue >>= k) R := by
  refine popValue_trades.bind ?_
  rintro _ v rest - ⟨rfl, ordinary, top⟩
  exact hk v rest ordinary top

/-- What goes on with several values from the top. -/
theorem popValues {count : Nat} {k : List Value → Exec β}
    (hk : ∀ vs rest, (∀ v ∈ vs, v.Ordinary n) → vs.length = count → l = vs.reverse ++ rest →
      Trades n rest (k vs) R) : Trades n l (Exec.popValues count >>= k) R := by
  refine (popValues_trades count).bind ?_
  rintro _ vs rest - ⟨rfl, ordinary, length, top⟩
  exact hk vs rest ordinary length top

/-- What goes on with what only looks at the state, or fails. -/
theorem looks {S : α → Prop} (still : Still .any n S m) (alone : ∀ c w s, (m c w s).1.1.2 = c)
    {k : α → Exec β} (hk : ∀ a, S a → Trades n l (k a) R) : Trades n l (m >>= k) R := by
  refine (Trades.calm still alone).bind ?_
  rintro _ a _ - ⟨⟨rfl, known⟩, rfl⟩
  exact hk a known

/-- What goes on with the result of a computation on the store. -/
theorem makes {m : StoreM α} (h : Calm .any n P m) {k : α → Exec β}
    (hk : ∀ n' a, P n' a → Trades n' l (k a) R) : Trades n l ((liftM m : Exec α) >>= k) R := by
  refine (Trades.calm (ofStoreM_calm h) fun _ _ _ => rfl).bind ?_
  rintro n' a _ - ⟨known, rfl⟩
  exact hk n' a known

variable {Q : Nat → Unit → List Value → Prop} {m : Exec Unit} {P : Nat → Unit → Prop}

/-- What ends with a computation that leaves the context alone. -/
theorem ends (h : Calm .any n P m) (alone : ∀ c w s, (m c w s).1.1.2 = c) (hQ : ∀ n', Q n' () l) :
    Trades n l m Q := by
  refine (Trades.calm h alone).imp ?_
  rintro n' _ _ ⟨-, rfl⟩
  exact hQ n'

/-- What ends with a change of a context that leaves values, code and calls alone. -/
theorem adjusts {f : Context → Context} (same : ∀ c, (f c).stack = c.stack)
    (stays : ∀ c : Context, c.Stays (f c)) (hQ : Q n () l) : Trades n l (modifyContext f) Q := by
  rintro bottom c w s ⟨hc, hw, hs⟩ values - _ _ _ _ ⟨⟩
  refine ⟨n, l, Nat.le_refl n, ⟨⟨?_, ?_⟩, hw, hs⟩, stays c, ?_, hQ⟩
  · exact (same c).symm ▸ hc.stack
  · exact (stays c).receivers.symm ▸ hc.receivers
  · rw [Context.values, same]
    exact values

/-- What ends with a value on the stack. -/
theorem push {v : Value} (hv : v.Stacked n) (hQ : ∀ n', Q n' () (v :: l)) :
    Trades n l (Exec.push v) Q := by
  refine (push_trades hv).imp ?_
  rintro n' _ _ rfl
  exact hQ n'

/-- What ends with a made value on the stack. -/
theorem made {m : StoreM Value} (h : Calm .any n Value.Ordinary m)
    (hQ : ∀ n' v, v.Tame → Q n' () (v :: l)) : Trades n l (do Exec.push (← m) : Exec Unit) Q :=
  .makes h fun _ v hv => .push hv.stacked fun n' => hQ n' v hv.tame

end Trades

/-! ## Instructions that take and give values -/

theorem wrongType_trades (v : Value) : Trades n l (wrongType v) Q :=
  .looks (text_still _) (fun _ _ _ => rfl) fun _ _ => .throw _

theorem wrongOperand_trades (kind : FaultKind) (operand : Operand) :
    Trades n l (wrongOperand kind operand) Q :=
  .looks (text_still _) (fun _ _ _ => rfl) fun _ _ => .throw _

theorem nameOf_alone (operand : Operand) (c : Context) (w : World) (s : Store) :
    (nameOf operand c w s).1.1.2 = c := by
  unfold nameOf
  cases operand.asName? <;> rfl

theorem typeOf_alone (operand : Operand) (c : Context) (w : World) (s : Store) :
    (typeOf operand c w s).1.1.2 = c := by
  cases operand with
  | value v => cases v <;> rfl
  | _ => rfl

/-- A computation that takes and gives so many values. -/
abbrev Exchanges (n : Nat) (l : List Value) (m : Exec Unit) (taken given : Nat) : Prop :=
  Trades n l m fun _ _ l' => Net l taken given l'

theorem binary_exchanges {f : Value → Value → StoreM Value}
    (hf : ∀ n a b, a.Ordinary n → b.Ordinary n → Calm .any n Value.Ordinary (f a b)) :
    Exchanges n l (binary f) 2 1 := by
  refine .popValue ?_
  rintro b _ hb rfl
  refine .popValue ?_
  rintro a rest ha rfl
  refine .looks strictness_still (fun _ _ _ => rfl) fun level _ =>
    .makes (Operator.unify_calm level ha hb) fun n' ab hab => .made (hf n' _ _ hab.1 hab.2) ?_
  exact fun _ v tame => .replace [b, a] rfl tame

theorem dropValues_exchanges (operand : Operand) :
    Exchanges n l (dropValues operand) (max (countOf operand 1) 1) 0 := by
  refine (popMany_trades _).bind ?_
  rintro _ vs rest - ⟨rfl, -, length, rfl⟩
  exact .pure (.take _ (List.length_reverse.trans length))

theorem arithmetic_exchanges {f : Operator.Arithmetic} (h : Operator.Calms f) :
    Exchanges n l (binary f.apply) 2 1 :=
  binary_exchanges fun _ a b _ _ => Operator.apply_calm h a b

theorem equality_exchanges (same : Bool) : Exchanges n l (equality same) 2 1 :=
  binary_exchanges fun _ _ _ _ _ => StoreM.get_still.bind fun _ _ => .pure trivial

theorem logical_exchanges (f : Bool → Bool → Bool) : Exchanges n l (logical f) 2 1 := by
  refine .popValue ?_
  rintro b _ - rfl
  refine .popValue ?_
  rintro a rest - rfl
  exact .push (.inr trivial) fun _ => .replace [b, a] rfl (Value.Ordinary.tame (n := 0) trivial)

/-- Replacing the top of the stack by a value that is made of it. -/
theorem remakes {make : Value → StoreM Value}
    (h : ∀ v, v.Ordinary n → Calm .any n Value.Ordinary (make v)) :
    Exchanges n l (do let v ← popValue; push (← (make v : StoreM Value))) 1 1 := by
  refine .popValue ?_
  rintro v rest hv rfl
  exact .made (h v hv) fun _ _ tame => .replace [v] rfl tame

theorem shiftBelow_exchanges : Exchanges n l shiftBelow 2 1 := by
  refine .popValue ?_
  rintro b _ - rfl
  refine .popValue ?_
  rintro a rest - rfl
  exact .made (Operator.shift_calm a b) fun _ _ tame => .replace [b, a] rfl tame

/-! ### Names -/

/-- Pushing a value that is looked up and may be missing. -/
theorem found_exchanges {read : Context → Store → Option Value} {f : Fault}
    (h : ∀ c s, s.Clear n → ∀ v ∈ read c s, v.Ordinary n)
    (same : ∀ g c s, read (Context.dressed g c) s = read c s) :
    Exchanges n l (do
      let v? : Option Value ← fun c w s => (((.ok (read c s), c), w), s)
      match v? with
      | some v => push v
      | none => throw f : Exec Unit) 0 1 := by
  have reads : @Still Exec _ _ _ _ (Option Value) .any n (fun found => ∀ v ∈ found, v.Ordinary n)
      fun c w s => (((.ok (read c s), c), w), s) := fun (c, w, s) clear size => by
    refine ⟨by exact size.symm ▸ clear, .refl s, fun _ ok => ?_, .ok _,
      fun g => congrArg (fun v => (Except.ok v, c.dressed g, w, s)) (same g c s)⟩
    cases ok
    exact ⟨size, h c s clear.2.2⟩
  refine .looks reads (fun _ _ _ => rfl) fun found hv => ?_
  cases found with
  | some v => exact .push (hv v rfl).stacked fun _ => .replace [] rfl (hv v rfl).tame
  | none => exact .throw f

theorem loadName_exchanges (operand : Operand) : Exchanges n l (loadName operand) 0 1 :=
  .looks (nameOf_still operand) (nameOf_alone operand) fun name _ =>
    found_exchanges (fun c _ hs => hs.get? c.scope name false) fun _ _ _ => rfl

theorem storeName_exchanges (operand : Operand) : Exchanges n l (storeName operand) 1 0 := by
  refine .looks (nameOf_still operand) (nameOf_alone operand) fun name _ => .popValue ?_
  rintro v rest hv rfl
  exact .looks scope_still (fun _ _ _ => rfl) fun r _ =>
    .ends (ofStoreM_calm (r.set_calm name hv)) (fun _ _ _ => rfl) fun _ => .take [v] rfl

theorem createName_exchanges (operand : Operand) : Exchanges n l (createName operand) 0 0 :=
  .looks (nameOf_still operand) (nameOf_alone operand) fun name _ =>
    .ite (fun _ => .pure .nothing) fun _ => .looks scope_still (fun _ _ _ => rfl) fun r _ =>
      .ends (ofStoreM_calm (r.create_calm name)) (fun _ _ _ => rfl) fun _ => .nothing

theorem deleteName_exchanges (operand : Operand) : Exchanges n l (deleteName operand) 0 0 :=
  .looks (nameOf_still operand) (nameOf_alone operand) fun name _ =>
    .looks scope_still (fun _ _ _ => rfl) fun r _ =>
      .ends (ofStoreM_calm (r.delete_calm name true)) (fun _ _ _ => rfl) fun _ => .nothing

theorem declareConstant_exchanges (operand : Operand) :
    Exchanges n l (declareConstant operand) 1 0 := by
  refine .looks (nameOf_still operand) (nameOf_alone operand) fun name _ => .popValue ?_
  rintro v rest hv rfl
  exact .looks scope_still (fun _ _ _ => rfl) fun r _ =>
    .ends (ofStoreM_calm (r.setConstant_calm name hv)) (fun _ _ _ => rfl) fun _ =>
      .take [v] rfl

theorem explode_exchanges : Exchanges n l explode 1 0 := by
  refine .popValue ?_
  rintro v rest - rfl
  cases v with
  | struct r =>
    exact .looks (ofStore_still fun _ hs => hs.struct _) (fun _ _ _ => rfl) fun o ho =>
      .looks scope_still (fun _ _ _ => rfl) fun table _ =>
        .ends (modifyStore_calm (fun _ hs => bindFields_clear ho.fields table _ hs)
          fun s => bindFields_structs _ _ _ s) (fun _ _ _ => rfl) fun _ => .take [.struct r] rfl
  | _ => exact wrongType_trades _

/-! ### Aggregates -/

theorem loadIndex_exchanges : Exchanges n l loadIndex 2 1 := by
  refine .popValue ?_
  rintro index _ hi rfl
  refine .popValue ?_
  rintro container rest - rfl
  exact .made (Aggregate.item_calm hi) fun _ _ tame => .replace [index, container] rfl tame

theorem storeIndex_exchanges : Exchanges n l storeIndex 3 1 := by
  refine .popValue ?_
  rintro v _ hv rfl
  refine .popValue ?_
  rintro index _ hi rfl
  refine .popValue ?_
  rintro container rest hc rfl
  have sets : Calm .any n (fun n' _ => n ≤ n') (Aggregate.setItem container index v) := fun s hs size =>
    have sets : CalmAt .any _ _ s := (Aggregate.setItem_calm hs hi hv).weaken fun _ _ _ => trivial
    { sets with result := fun _ _ => size ▸ sets.kin.size_le }
  exact .makes sets fun n' _ le => .push (hc.mono le).stacked fun _ =>
    .replace [v, index, container] rfl hc.tame

theorem loadSlice_exchanges : Exchanges n l loadSlice 3 1 := by
  refine .popValue ?_
  rintro hi _ - rfl
  refine .popValue ?_
  rintro lo _ - rfl
  refine .popValue ?_
  rintro container rest - rfl
  exact .made (Aggregate.slice_calm container lo hi) fun _ _ tame =>
    .replace [hi, lo, container] rfl tame

theorem loadMember_exchanges (operand : Operand) (inherited : Bool) :
    Exchanges n l (loadMember operand inherited) 1 1 :=
  .looks (nameOf_still operand) (nameOf_alone operand) fun name _ =>
    remakes fun v _ => Aggregate.member_calm v name inherited

theorem packArray_exchanges (operand : Operand) :
    Exchanges n l (packArray operand) (countAndPart operand).1 1 := by
  unfold packArray
  dsimp only
  split
  · refine .looks (typeOf_still _) (typeOf_alone _) fun element _ => .popValues ?_
    rintro items rest hi length rfl
    exact .makes (Calm.listMapM Value.upward Value.upward hi fun _ _ hv => Value.coerce_calm hv element)
      fun _ items' hi' => .made (StoreM.array_calm fun v mem => hi' v (List.mem_toArray.1 mem))
        fun _ _ tame => .replace _ (List.length_reverse.trans length) tame
  · refine .popValues ?_
    rintro items rest hi length rfl
    exact .made (StoreM.array_calm fun v mem => hi v (List.mem_toArray.1 mem))
      fun _ _ tame => .replace _ (List.length_reverse.trans length) tame

/-- A value that is popped first, or nil in its place. -/
theorem popOrNil_exchanges {p : Prop} [Decidable p] {f : Value → Exec Unit}
    (h : ∀ (v : Value) (taken rest : List Value), v.Ordinary n →
      Trades n rest (f v) fun _ _ l' => Net (taken ++ rest) (taken.length + 1) 1 l') :
    Exchanges n l (if p then popValue >>= f else pure .nil >>= f) (if p then 2 else 1) 1 := by
  refine .ite (fun popped => ?_) fun absent => ?_
  · rw [if_pos popped]
    refine .popValue ?_
    rintro v rest hv rfl
    exact h v [v] rest hv
  · rw [if_neg absent]
    exact .looks (S := fun v => v.Ordinary n) (Still.pure (by trivial)) (fun _ _ _ => rfl)
      fun v hv => h v [] l hv

theorem makeArray_exchanges (operand : Operand) :
    Exchanges n l (makeArray operand) (if operand.asInt? = some 2 then 2 else 1) 1 := by
  unfold makeArray
  -- what is above the size was taken to fill the array
  refine popOrNil_exchanges fun fill taken rest hf => ?_
  refine .popValue ?_
  rintro size rest - rfl
  split
  · refine .ite (fun _ => .throw _) fun _ =>
      .makes (Aggregate.copies_calm hf _ (by simp)) fun _ _ hi => .made (StoreM.array_calm hi) ?_
    intro _ _ tame
    rw [List.append_cons]
    exact .replace _ (by simp) tame
  · exact .looks (text_still _) (fun _ _ _ => rfl) fun _ _ => .throw _

theorem packStruct_exchanges (operand : Operand) :
    Exchanges n l (packStruct operand) ((countAndPart operand).1 * 2) 1 := by
  unfold packStruct
  refine .popValues ?_
  rintro vs rest hv length rfl
  have entries := Aggregate.pairs_ordinary hv
  have last {v : Value} (tame : v.Tame) :
      Net (vs.reverse ++ rest) ((countAndPart operand).1 * 2) 1 (v :: rest) :=
    .replace _ (List.length_reverse.trans length) tame
  dsimp only
  split
  · exact .made (Aggregate.mapOf_calm entries _) fun _ _ => last
  · exact .made (Aggregate.packageOf_calm entries _) fun _ _ => last
  · exact .made (Aggregate.structOf_calm entries) fun _ _ => last

theorem coerceTop_exchanges (operand : Operand) : Exchanges n l (coerceTop operand) 1 1 :=
  .looks (typeOf_still operand) (typeOf_alone operand) fun t _ =>
    remakes fun _ hv => Value.coerce_calm hv t

/-! ### Output and checks -/

theorem print_exchanges (operand : Operand) :
    Exchanges n l (print operand) (countOf operand 1) 0 := by
  refine .popValues ?_
  rintro vs rest - length rfl
  exact .looks getStore_still (fun _ _ _ => rfl) fun _ _ =>
    .ends (write_calm _) (fun _ _ _ => rfl) fun _ => .take _ (List.length_reverse.trans length)

theorem say_exchanges : Exchanges n l say 1 0 := by
  refine pop_trades.bind ?_
  rintro _ v rest - ⟨rfl, -, rfl⟩
  exact .ite (fun _ => .pure (.take [v] rfl)) fun _ =>
    .looks (text_still _) (fun _ _ _ => rfl) fun _ _ =>
      .ends (write_calm _) (fun _ _ _ => rfl) fun _ => .take [v] rfl

theorem log_exchanges : Exchanges n l log 1 0 := by
  refine .popValue ?_
  rintro v rest - rfl
  exact .pure (.take [v] rfl)

theorem makeTemplate_exchanges (operand : Operand) : Exchanges n l (makeTemplate operand) 1 1 := by
  refine .popValue ?_
  rintro v rest - rfl
  cases v with
  | string source =>
    dsimp only
    cases Template.ofSource (operand.asName?.getD "template") source with
    | ok t => exact .push (.inr trivial) fun _ => .replace [.string source] rfl nofun
    | error f => exact .throw f
  | _ => exact .looks (text_still _) (fun _ _ _ => rfl) fun _ _ => .throw _

theorem timer_exchanges (operand : Operand) :
    Exchanges n l (timer operand) 0 (if operand.asInt?.getD 0 = 0 then 0 else 1) := by
  refine .looks getWorld_still (fun _ _ _ => rfl) fun w _ => .ite (fun start => ?_) fun stop => ?_
  · rw [if_pos start]
    exact .adjusts (fun _ => rfl) (fun _ => ⟨rfl, rfl, rfl, rfl, rfl, rfl, rfl⟩) .nothing
  · rw [if_neg stop]
    refine .looks (S := fun _ => True) (ofContext_still (fun _ _ => trivial) fun _ _ => rfl)
      (fun _ _ _ => rfl) fun timers _ => ?_
    cases timers with
    | nil => exact .throw _
    | cons start rest =>
      refine Trades.bind (Q := fun _ _ l' => l' = l)
        (.adjusts (fun _ => rfl) (fun _ => ⟨rfl, rfl, rfl, rfl, rfl, rfl, rfl⟩) rfl) ?_
      rintro n' _ _ - rfl
      exact .push (.inr trivial) fun _ => .replace [] rfl nofun

theorem loadReceiver_exchanges : Exchanges n l loadReceiver 0 1 := by
  refine .looks scope_still (fun _ _ _ => rfl) fun r _ =>
    .looks (ofStore_still (R := fun found => ∀ v ∈ found, v.Ordinary n)
      fun _ hs => hs.get? r receiverName false) (fun _ _ _ => rfl) fun found hv => ?_
  cases found with
  | some v => exact .push (hv v rfl).stacked fun _ => .replace [] rfl (hv v rfl).tame
  | none => exact .throw _

theorem checkArguments_exchanges (operand : Operand) :
    Exchanges n l (checkArguments operand) 0 0 := by
  have counts : Still .any n (fun _ => True) (do pure (Int.ofNat (← argumentCount)) : Exec Int) :=
    argumentCount_still.bind fun _ _ => Still.pure trivial
  exact .looks counts (fun _ _ _ => rfl) fun _ _ => .ite (fun _ => .throw _) fun _ => .pure .nothing

theorem requireType_exchanges (operand : Operand) : Exchanges n l (requireType operand) 1 1 := by
  refine .looks (typeOf_still operand) (typeOf_alone operand) fun t _ => .popValue ?_
  rintro v rest hv rfl
  refine .looks strictness_still (fun _ _ _ => rfl) fun level _ => ?_
  cases level with
  | strict =>
    exact .looks getStore_still (fun _ _ _ => rfl) fun _ _ => .ite (fun _ => .throw _) fun _ =>
      .push hv.stacked fun _ => .replace [v] rfl hv.tame
  | dynamic => exact .push hv.stacked fun _ => .replace [v] rfl hv.tame
  | relaxed => exact .made (Value.coerce_calm hv t) fun _ _ tame => .replace [v] rfl tame

theorem setStrictness_exchanges (operand : Operand) : Exchanges n l (setStrictness operand) 0 0 := by
  unfold setStrictness
  split
  · exact .adjusts (fun _ => rfl) (fun _ => ⟨rfl, rfl, rfl, rfl, rfl, rfl, rfl⟩) .nothing
  · exact wrongOperand_trades _ _

theorem atLine_exchanges (operand : Operand) : Exchanges n l (atLine operand) 0 0 := by
  have stops (n : Nat) (d : Debugger) : Exchanges n l (if d.stopsAt (countOf operand 0) then
      throw (.about .debuggerSignal (Decimal.ofNat (countOf operand 0))) else pure ()) 0 0 :=
    .ite (fun _ => .throw _) fun _ => .pure .nothing
  refine Trades.bind (Q := fun _ _ l' => l' = l)
    (.adjusts (fun _ => rfl) (fun _ => ⟨rfl, rfl, rfl, rfl, rfl, rfl, rfl⟩) rfl) ?_
  rintro n' _ _ - same bottom c w s clear values base a c' w' s' run
  obtain ⟨_, _, _, _, ⟨⟩, run⟩ := bind_ok run
  exact stops n' _ bottom c w s clear (same ▸ values) base a c' w' s' run

/-! ### Every instruction -/

theorem pushOperand_exchanges {operand : Operand} (ordinary : operand.Ordinary n)
    (noMarker : ∀ m, operand ≠ .value (.marker m)) : Exchanges n l (pushOperand operand) 0 1 := by
  have pushes {n : Nat} {v : Value} (hv : v.Ordinary n) : Exchanges n l (push v) 0 1 :=
    .push hv.stacked fun _ => .replace [] rfl hv.tame
  unfold pushOperand
  split
  · refine .looks (S := fun _ => True) (ofStore_still fun _ _ => trivial) (fun _ _ _ => rfl)
      fun unit _ => ?_
    split
    · exact .looks scope_still (fun _ _ _ => rfl) fun _ _ => pushes trivial
    · exact pushes trivial
  · next v _ =>
    refine pushes (Value.Stacked.ordinary ordinary fun isMarker => ?_)
    cases v with
    | marker m => exact noMarker m rfl
    | _ => cases isMarker
  · exact pushes trivial
  · exact pushes trivial
  · exact pushes trivial
  · exact wrongOperand_trades _ _

/-- What an instruction does that only takes and gives values. -/
theorem perform_exchange {i : Instruction} {k g : Nat} (h : i.exchange = some (k, g))
    (ordinary : i.operand.Ordinary n) : Exchanges n l (perform i) k g := by
  obtain ⟨op, operand⟩ := i
  have none : Exchanges n l (pure ()) 0 0 := .pure .nothing
  cases op with
  | noOperation => cases h; exact none
  | atLine => cases h; exact atLine_exchanges operand
  | newline => cases h; exact .ends (write_calm _) (fun _ _ _ => rfl) fun _ => .nothing
  | argCheck => cases h; exact checkArguments_exchanges operand
  | staticTyping => cases h; exact setStrictness_exchanges operand
  | symbolCreate => cases h; exact createName_exchanges operand
  | symbolDelete => cases h; exact deleteName_exchanges operand
  | push =>
    have noMarker (m : Marker) : operand ≠ .value (.marker m) := by
      rintro rfl
      cases h
    have same : (k, g) = (0, 1) := by
      unfold Instruction.exchange at h
      dsimp only at h
      split at h <;> cases h
      rfl
    cases same
    exact pushOperand_exchanges ordinary noMarker
  | load => cases h; exact loadName_exchanges operand
  | loadThis => cases h; exact loadReceiver_exchanges
  | timer => cases h; exact timer_exchanges operand
  | store => cases h; exact storeName_exchanges operand
  | explode => cases h; exact explode_exchanges
  | log => cases h; exact log_exchanges
  | constant => cases h; exact declareConstant_exchanges operand
  | say => cases h; exact say_exchanges
  | drop => cases h; exact dropValues_exchanges operand
  | print => cases h; exact print_exchanges operand
  | member | classMember => cases h; exact loadMember_exchanges operand _
  | coerce => cases h; exact coerceTop_exchanges operand
  | copy => cases h; exact remakes fun _ hv => Value.copy_calm hv
  | template => cases h; exact makeTemplate_exchanges operand
  | requiredType => cases h; exact requireType_exchanges operand
  | negate => cases h; exact remakes fun v _ => Operator.negate_calm v
  | loadIndex => cases h; exact loadIndex_exchanges
  | add => cases h; exact binary_exchanges fun _ _ _ => Operator.add_calm
  | sub => cases h; exact binary_exchanges fun _ a b _ _ => Operator.subtract_calm a b
  | mul => cases h; exact arithmetic_exchanges Operator.multiplication_calms
  | div => cases h; exact arithmetic_exchanges Operator.division_calms
  | exp => cases h; exact arithmetic_exchanges Operator.power_calms
  | modulo => cases h; exact arithmetic_exchanges Operator.remainder_calms
  | and | or => cases h; exact logical_exchanges _
  | bitAnd | bitOr => cases h; exact binary_exchanges fun _ a b _ _ => Operator.bitwise_calm _ _ a b
  | bitShift => cases h; exact shiftBelow_exchanges
  | equal | notEqual => cases h; exact equality_exchanges _
  | lessThan | lessThanOrEqual | greaterThan | greaterThanOrEqual =>
    cases h
    exact binary_exchanges fun _ a b _ _ => Operator.ordered_calm _ a b
  | loadSlice => cases h; exact loadSlice_exchanges
  | storeIndex => cases h; exact storeIndex_exchanges
  | array => cases h; exact packArray_exchanges operand
  | makeArray => cases h; exact makeArray_exchanges operand
  | struct => cases h; exact packStruct_exchanges operand
  | _ => cases h

/-! ### Values in other orders -/

/-- What an instruction does to the values of a call is what it does to a point. -/
abbrev Advances (n : Nat) (l : List Value) (i : Instruction) : Prop :=
  Trades n l (perform i) fun _ _ l' => ∀ p : Point, p.stack = l → i.Falls p { p with stack := l' }

variable {operand : Operand}

theorem marker_advances (m : Marker) : Advances n l ⟨.push, .value (.marker m)⟩ := by
  refine .push (.inl rfl) ?_
  rintro _ p rfl
  exact ⟨m, rfl, rfl⟩

theorem dup_advances : Advances n l ⟨.dup, operand⟩ := by
  refine (peek_trades 0).bind ?_
  rintro _ v _ - ⟨rfl, stacked, top, rfl⟩
  refine .push stacked ?_
  rintro _ p rfl
  cases here : p.stack with
  | nil => simp [here] at top
  | cons u rest =>
    obtain rfl : u = v := by simpa [here] using top
    exact ⟨u, rest, here, rfl⟩

theorem swap_advances : Advances n l ⟨.swap, operand⟩ := by
  refine pop_trades.bind ?_
  rintro _ u _ - ⟨rfl, hu, rfl⟩
  refine pop_trades.bind ?_
  rintro _ v rest - ⟨rfl, hv, rfl⟩
  refine (push_trades hu).bind ?_
  rintro _ _ _ le rfl
  refine .push (hv.mono le) ?_
  rintro _ p stack
  exact ⟨u, v, rest, stack, rfl⟩

theorem readStack_advances : Advances n l ⟨.readStack, operand⟩ := by
  refine (peek_trades _).bind ?_
  rintro _ v _ - ⟨rfl, stacked, found, rfl⟩
  refine .push stacked ?_
  rintro _ p rfl
  exact ⟨v, found, rfl⟩

theorem flatten_advances : Advances n l ⟨.flatten, operand⟩ := by
  refine .popValue ?_
  rintro v rest - rfl
  cases v with
  | array r =>
    refine .looks (ofStore_still fun _ hs => hs.array _) (fun _ _ _ => rfl) fun a ha =>
      .ite (fun _ => .throw _) fun few => ?_
    have ordinary (v : Value) (mem : v ∈ a.items.toList) : v.Ordinary _ := ha v (Array.mem_toList_iff.1 mem)
    refine (pushAll_trades fun v mem => (ordinary v mem).stacked).bind ?_
    rintro _ _ _ - rfl
    refine .push (.inr trivial) ?_
    rintro _ p stack
    refine ⟨_, rest, a.items.toList.reverse, Int64.ofNat a.items.size, stack, ?_,
      fun v mem => (ordinary v (List.mem_reverse.1 mem)).tame, rfl⟩
    rw [toInt_ofNat (Nat.lt_of_not_le few), Int.toNat_natCast, List.length_reverse, Array.length_toList]
  | _ => exact wrongType_trades _

/-- What is cut off down to the marker of a label. -/
theorem dropTo_found {label : String} {base height : Nat} {stack stack' : Array Value}
    (h : dropTo label base height stack = (stack', true)) : base ≤ stack'.size ∧
      ∃ (above : List Value) (v : Value), stack.toList.reverse = above ++ v :: stack'.toList.reverse ∧
        (∀ u ∈ above, isMarkerOf label u = false) ∧ isMarkerOf label v = true := by
  induction height generalizing stack with
  | zero => cases h
  | succ height ih =>
    unfold dropTo at h
    split at h
    · cases h
    next deep =>
    obtain ⟨below, top, rfl⟩ := @Array.eq_push_of_size_ne_zero _ stack (by omega)
    simp only [Array.back?_push, Option.getD_some, Array.pop_push, Array.size_push] at h deep
    split at h
    · next marker =>
      cases h
      exact ⟨by omega, [], top, by simp, List.forall_mem_nil _, marker⟩
    · next plain =>
      obtain ⟨le, above, v, values, others, marker⟩ := ih h
      exact ⟨le, top :: above, v, by simp [values], List.forall_mem_cons.2
        ⟨Bool.eq_false_of_not_eq_true plain, others⟩, marker⟩

theorem dropToMarker_advances : Advances n l ⟨.dropToMarker, operand⟩ := by
  rintro bottom c w s ⟨hc, hw, hs⟩ values base a c' w' s' run
  obtain ⟨found, _, _, _, cut, run⟩ := bind_ok run
  cases cut
  rcases ends : dropTo (operand.asName?.getD "") c.base c.stack.size c.stack with ⟨stack, _ | _⟩ <;>
    rw [ends] at run <;> cases run
  obtain ⟨high, above, v, before, plain, marker⟩ := dropTo_found ends
  rw [← Context.values, values] at before
  -- the marker lies among the values of the call
  obtain ⟨rest, same, below⟩ : ∃ rest, stack.toList.reverse = rest ++ bottom ∧ l = above ++ v :: rest := by
    have suffix : bottom <:+ stack.toList.reverse := by
      refine List.suffix_of_suffix_length_le (List.suffix_append l bottom) (before ▸ ?_) ?_
      · exact ⟨above ++ [v], by simp⟩
      · simp only [List.length_reverse, Array.length_toList]
        omega
    obtain ⟨rest, same⟩ := suffix
    refine ⟨rest, same.symm, ?_⟩
    rw [← same, ← List.cons_append, ← List.append_assoc, List.append_cancel_right_eq] at before
    exact before
  refine ⟨n, rest, Nat.le_refl n, ⟨{ hc with stack := ?_ }, hw, hs⟩, .of_stack _ _, same, ?_⟩
  · have kept := dropTo_stacked (operand.asName?.getD "") c.base c.stack.size hc.stack
    rw [ends] at kept
    exact kept
  · rintro p rfl
    exact ⟨above, v, rest, below, plain, marker, rfl⟩

/-- Whether all that an instruction does to a context is to take and give values. -/
def onValues : Opcode → Bool
  | .call | .leave | .stop | .panic | .branchLimit | .pushScope | .popScope | .tryBlock | .tryPop
  | .setThis | .branch | .branchTrue | .branchFalse => false
  | _ => true

theorem perform_advances {i : Instruction} (plain : onValues i.op = true)
    (ordinary : i.operand.Ordinary n) : Advances n l i := by
  cases counts : i.exchange with
  | some exchange =>
    obtain ⟨k, g⟩ := exchange
    refine (perform_exchange counts ordinary).imp ?_
    rintro _ _ _ ⟨enough, out, length, tame, rfl⟩ p rfl
    rw [Instruction.Falls, counts]
    exact ⟨enough, out, length, tame, rfl⟩
  | none =>
    obtain ⟨op, operand⟩ := i
    cases op with
    | push =>
      unfold Instruction.exchange at counts
      dsimp only at counts
      split at counts
      · exact marker_advances _
      · cases counts
    | dup => exact dup_advances
    | swap => exact swap_advances
    | readStack => exact readStack_advances
    | flatten => exact flatten_advances
    | dropToMarker => exact dropToMarker_advances
    | _ => first | (cases counts; done) | cases plain

/-! ### Control -/

variable {c c' : Context} {w w' : World} {s s' : Store} {target : Nat}

theorem addressOf_ok {a : Nat}
    (done : addressOf (.address target) c w s = (((.ok a, c'), w'), s')) :
    a = target ∧ target ≤ (s.code c.code).size ∧ c' = c ∧ w' = w ∧ s' = s := by
  rw [addressOf_run] at done
  dsimp only [Operand.asAddress?] at done
  split at done <;> cases done
  next inside => exact ⟨rfl, inside, rfl, rfl, rfl⟩

theorem branch_ok (done : branch (.address target) c w s = (((.ok (), c'), w'), s')) :
    target ≤ (s.code c.code).size ∧ c' = { c with pc := target } := by
  unfold branch at done
  obtain ⟨a, _, _, _, addressed, rest⟩ := bind_ok done
  obtain ⟨rfl, inside, rfl, rfl, rfl⟩ := addressOf_ok addressed
  cases rest
  exact ⟨inside, rfl⟩

theorem branchIf_ok {taken : Bool}
    (done : branchIf taken (.address target) c w s = (((.ok (), c'), w'), s')) :
    ∃ v c₁ w₁ s₁, popValue c w s = (((.ok v, c₁), w₁), s₁) ∧
      (c' = c₁ ∨ target ≤ (s.code c.code).size ∧ c' = { c₁ with pc := target }) := by
  unfold branchIf at done
  obtain ⟨a, _, _, _, addressed, rest⟩ := bind_ok done
  obtain ⟨rfl, inside, rfl, rfl, rfl⟩ := addressOf_ok addressed
  obtain ⟨v, c₁, w₁, s₁, popped, rest⟩ := bind_ok rest
  refine ⟨v, c₁, w₁, s₁, popped, ?_⟩
  split at rest <;> cases rest
  · exact .inr ⟨inside, rfl⟩
  · exact .inl rfl

/-- What is recorded when a protected block is entered. -/
def tryRecord (c : Context) (handler : Nat) : TryRecord :=
  { handler := some handler, height := c.stack.size, fp := c.fp, depth := c.depth
    code := c.code, scope := c.scope, receivers := c.receivers.size
    moduleName := c.moduleName, line := c.line }

theorem enterTry_ok (done : enterTry (.address target) c w s = (((.ok (), c'), w'), s')) :
    target ≤ (s.code c.code).size ∧ c' = { c with tries := tryRecord c target :: c.tries } := by
  unfold enterTry at done
  obtain ⟨a, _, _, _, addressed, rest⟩ := bind_ok done
  obtain ⟨rfl, inside, rfl, rfl, rfl⟩ := addressOf_ok addressed
  cases rest
  exact ⟨inside, rfl⟩

theorem setReceiver_ok (done : setReceiver c w s = (((.ok (), c'), w'), s')) :
    ∃ v c₁ w₁ s₁, popValue c w s = (((.ok v, c₁), w₁), s₁) ∧
      c' = { c₁ with receivers := c₁.receivers.push v } := by
  unfold setReceiver at done
  obtain ⟨v, c₁, w₁, s₁, popped, rest⟩ := bind_ok done
  cases rest
  exact ⟨v, c₁, _, _, popped, rfl⟩

/-! ### Calls -/

/-- What a call takes from the stack: its flags, its arguments and the callee. -/
def takeCall (operand : Operand) : Exec (CallFlags × List Value × Value) := do
  let (count, flags) ← readCall operand
  let total ← spreadCount count flags
  let args ← popValues total
  let callee ← popValue
  pure (flags, args, callee)

theorem call_takes (operand : Operand) : call operand = (do
    let (flags, args, callee) ← takeCall operand
    let receiver ← receiverOf flags
    applyValue callee args receiver flags.multi) := by
  rw [call_eq]
  simp only [takeCall, bind_assoc, pure_bind]

theorem readCall_parts (operand : Operand) :
    readCall operand = pure ((callParts operand).1, operand.callFlags) ∨
      readCall operand = wrongOperand .invalidFunctionCall operand := by
  have none : CallFlags.ofInt 0 = {} := rfl
  cases operand with
  | tuple parts =>
    simp only [readCall, Operand.callFlags, callParts]
    cases parts.head?.bind Operand.asInt? with
    | some k => exact .inl rfl
    | none => exact .inr rfl
  | _ => exact .inl (congrArg (fun flags => pure (_, flags)) none.symm)

/-- A spread argument lies below the number of its items. -/
theorem spreadCount_trades (count : Nat) (flags : CallFlags) :
    Trades n l (spreadCount count flags) fun n' total l' => n' = n ∧
      if flags.spread then ∃ v k, l = v :: l' ∧ v.asInt? = some k ∧
        total = count - 1 + k.toInt.toNat
      else l' = l ∧ total = count := by
  refine .ite (fun spread => ?_) fun single => ?_
  · refine pop_trades.bind ?_
    rintro _ v rest - ⟨rfl, -, rfl⟩
    cases number : v.asInt? with
    | some k => exact .pure ⟨rfl, by rw [if_pos spread]; exact ⟨v, k, rfl, number, rfl⟩⟩
    | none => exact .throw _
  · exact .pure ⟨rfl, by rw [if_neg single]; exact ⟨rfl, rfl⟩⟩

theorem takeCall_trades (operand : Operand) : Trades n l (takeCall operand) fun n' taken l' =>
    n' = n ∧ taken.1 = operand.callFlags ∧ (∀ v ∈ taken.2.1, v.Ordinary n) ∧
      ∃ count, operand.CallTakes l count ∧ count ≤ l.length ∧ l' = l.drop count := by
  unfold takeCall
  rcases readCall_parts operand with same | same
  · rw [same, pure_bind]
    refine (spreadCount_trades _ _).bind ?_
    rintro _ total lower - ⟨rfl, counted⟩
    refine .popValues ?_
    rintro args _ ha length rfl
    refine .popValue ?_
    rintro callee rest - rfl
    refine .pure ⟨rfl, rfl, ha, ?_⟩
    have below : (args.reverse ++ callee :: rest).drop (total + 1) = rest := by
      rw [List.append_cons]
      exact List.drop_left' (by simp [length])
    split at counted
    · next spread =>
      obtain ⟨v, k, rfl, number, rfl⟩ := counted
      refine ⟨_, by rw [Operand.CallTakes, if_pos spread]; exact ⟨v, _, k, rfl, number, rfl⟩, ?_, ?_⟩
      · simp [length]
      · exact below.symm
    · next single =>
      obtain ⟨rfl, rfl⟩ := counted
      refine ⟨_, by rw [Operand.CallTakes, if_neg single], ?_, below.symm⟩
      simp [length]
  · rw [same]
    exact .looks (text_still _) (fun _ _ _ => rfl) fun _ _ => .throw _

/-- What a computation leaves on the stack that ends with the results of a call. -/
abbrev Yields (n : Nat) (l : List Value) (multi : Bool) (m : Exec Unit) : Prop :=
  Trades n l m fun _ _ l' => ∃ results, Accepts multi results ∧ l' = results ++ l

theorem pushResults_yields {vs : List Value} (stacked : ∀ v ∈ vs, v.Stacked n)
    (tame : ∀ v ∈ vs, v.Tame) (multi : Bool) : Yields n l multi (pushResults vs multi) := by
  match vs with
  | [] => exact .push (.inl rfl) fun _ => ⟨[_], .one Value.tame_void multi, rfl⟩
  | [v] =>
    exact .push (stacked v List.mem_cons_self) fun _ =>
      ⟨[v], .one (tame v List.mem_cons_self) multi, rfl⟩
  | u :: v :: rest =>
    cases multi with
    | false => exact .throw _
    | true =>
      refine (pushAll_trades ?_).imp ?_
      · refine List.forall_mem_cons.2 ⟨.inl rfl, fun v mem => ?_⟩
        exact stacked v (List.mem_reverse.1 mem)
      · rintro _ _ _ rfl
        exact ⟨_, .inr ⟨rfl, u :: v :: rest, by simp, tame, rfl⟩, by simp⟩

theorem pushWithError_yields {v error : Value} (hv : v.Ordinary n) (he : error.Ordinary n)
    (multi : Bool) : Yields n l multi (pushWithError v error multi) := by
  unfold pushWithError
  cases multi with
  | false =>
    refine (pushAll_trades (List.forall_mem_singleton.2 hv.stacked)).imp ?_
    rintro _ _ _ rfl
    exact ⟨[v], .one hv.tame _, rfl⟩
  | true =>
    refine (pushAll_trades ?_).imp ?_
    · simpa using And.intro (.inl rfl) (And.intro he.stacked hv.stacked)
    · rintro _ _ _ rfl
      exact ⟨_, .inr ⟨rfl, [v, error], by simp, by simpa using And.intro hv.tame he.tame, rfl⟩, rfl⟩

/-- What a builtin that has answered leaves on the stack. -/
theorem complete_yields (call : PendingCall) (result : Except Fault Value)
    (given : ∀ v, result = .ok v → v.Ordinary n) (fault : Except.Ordinary result) :
    Yields n l call.multi (complete call result) := by
  cases result with
  | ok v =>
    have hv := given v rfl
    refine .ite (fun _ => pushWithError_yields hv (show Value.nil.Ordinary n from trivial) _) fun _ => ?_
    cases v with
    | tuple r => exact hv.elim
    | _ => exact .push hv.stacked fun _ => ⟨[_], .one hv.tame _, rfl⟩
  | error f =>
    have nothing : Value.nil.Ordinary n := trivial
    have carried : (Value.error f).Ordinary n := fault f rfl
    refine .ite (fun _ => .throw f) fun _ => .ite (fun multi => ?_) fun _ => .throw _
    rw [multi]
    exact pushWithError_yields nothing carried true

/-- A group of results is spread where it is handed to a call. -/
theorem complete_tuple {call : PendingCall} (single : call.callee.returnsError = false) (r : TupleRef)
    (c : Context) (w : World) (s : Store) :
    complete call (.ok (.tuple r)) c w s = pushResults (s.tuple r) call.multi c w s := by
  rw [complete, single, if_neg Bool.false_ne_true]
  rfl

/-- What has been left on the stack when a value was called that is no function: its results, or
nothing while they are awaited. -/
def Served (multi : Bool) (l : List Value) (request : Option (PendingCall × Answer))
    (l' : List Value) : Prop :=
  match request with
  | none => ∃ results, Accepts multi results ∧ l' = results ++ l
  | some (call, _) => call.multi = multi ∧ l' = l

theorem callNative_serves (f : Native) {args : List Value} {receiver : Option Value}
    (ha : ∀ v ∈ args, v.Ordinary n) (hr : ∀ v ∈ receiver, v.Ordinary n) (multi : Bool) :
    Trades n l (callNative f args receiver multi) fun _ => Served multi l := by
  unfold callNative
  split
  · exact .throw _
  · refine .looks scope_still (fun _ _ _ => rfl) fun caller _ => ?_
    refine (Trades.calm (attempt_calm (Native.run_calm ⟨ha, hr⟩ f)) fun _ _ _ => rfl).bind ?_
    rintro n' answer _ - ⟨⟨result, ordinary⟩, rfl⟩
    split
    · refine (complete_yields ⟨f, multi⟩ _ (fun v same => ?_) (.ok _)).bind fun _ _ _ _ yields =>
        .pure yields
      cases same
      exact (result _ rfl).ordinary
    · exact .pure ⟨rfl, rfl⟩
    · next fault =>
      exact (complete_yields ⟨f, multi⟩ (.error fault) nofun (.error (ordinary _ rfl))).bind
        fun _ _ _ _ yields => .pure yields

theorem callType_yields (t : Ty) {args : List Value} (ha : ∀ v ∈ args, v.Ordinary n) (multi : Bool) :
    Yields n l multi (callType t args) := by
  have one (v : Value) (tame : v.Tame) : ∃ results, Accepts multi results ∧ v :: l = results ++ l :=
    ⟨[v], .one tame multi, rfl⟩
  unfold callType
  match args with
  | [] => exact .made (Value.zero_calm t) fun _ => one
  | [v] => exact .made (Value.coerce_calm (ha v List.mem_cons_self) t) fun _ => one
  | _ :: _ :: _ => exact .bind (Q := fun _ _ _ => False) (.throw _) fun _ _ _ _ => False.elim

/-- A value that is called and is no function. -/
theorem applyValue_serves {callee : Value} (noFunction : ∀ code captured, callee ≠ .function code captured)
    {args : List Value} {receiver : Option Value} (ha : ∀ v ∈ args, v.Ordinary n)
    (hr : ∀ v ∈ receiver, v.Ordinary n) (multi : Bool) :
    Trades n l (applyValue callee args receiver multi) fun _ => Served multi l := by
  unfold applyValue
  split
  · exact absurd rfl (noFunction _ _)
  · exact callNative_serves _ ha hr multi
  · exact (callType_yields _ ha multi).bind fun _ _ _ _ yields => .pure yields
  · exact .looks (text_still _) (fun _ _ _ => rfl) fun _ _ => .throw _

end Exec

end StackScript
