import StackScript.Proofs.Assignments.Code
import StackScript.Proofs.Parameters.Receiving

/-!
# Binding parameters

The prologue of a function finds the arguments of a call as an array. The instructions of a parameter
push the one at its place, or the array of all from its place on, convert it and bind it. One
parameter is bound after the other, each to what it makes of what the call offers it: a fixed one of
the argument at its place, the last one of a variadic function of the array of all that are left.

Main statements: `fetches_argument`, `fetches_rest`, `binds_received`, `Parameter.binds` (one
parameter) and `parameters_bind` (all of them).
-/
namespace StackScript

open Exec (Does)

section

variable {c : Context} {w : World} {code : Code} {pc : Nat} {stack : Array Value} {s : Store}

/-! ## Instructions -/

namespace Exec.Does

theorem copyTop (high : c.base ≤ stack.size) (v : Value) :
    Does c w Exec.copyTop (stack.push v) (do (← v.unchanged).copy) stack.push fun _ => () :=
  .bind (.popValue high v) fun v => .pushed (.lift v.copy stack)

theorem coerceTop (high : c.base ≤ stack.size) (t : Ty) (v : Value) :
    Does c w (Exec.coerceTop (.value (.type t))) (stack.push v) (do (← v.unchanged).coerce t)
      stack.push fun _ => () :=
  .first (of_ok t fun _ _ => rfl) (.bind (.popValue high v) fun v => .pushed (.lift (v.coerce t) stack))

theorem requireType (high : c.base ≤ stack.size) (t : Ty) (v : Value) :
    Does c w (Exec.requireType (.value (.type t))) (stack.push v)
      (do t.require c.strictness (← v.unchanged)) stack.push fun _ => () := by
  refine .first (of_ok t fun _ _ => rfl) (.bind (.popValue high v) fun v => ?_)
  refine .first (.ofContext Context.strictness (fun _ _ => rfl) stack) ?_
  unfold Ty.require
  cases c.strictness with
  | strict =>
    intro pc s
    dsimp only [id]
    rw [StoreM.bind_of_ok (StoreM.get_eq s)]
    by_cases refused : (!(v.typeOf s).compatible t && !v.isNil) = true
    · rw [if_pos refused]
      exact ⟨stack, (bind_of_ok (a := s) rfl).trans (by rw [if_pos refused]; rfl)⟩
    · rw [if_neg refused]
      exact (bind_of_ok (a := s) rfl).trans (by rw [if_neg refused]; rfl)
  | dynamic => exact .push v stack
  | relaxed => exact .pushed (.lift (v.coerce t) stack)

theorem loadSlice (high : c.base ≤ stack.size) (container lo hi : Value) :
    Does c w Exec.loadSlice (((stack.push container).push lo).push hi)
      (do
        let hi ← hi.unchanged
        let lo ← lo.unchanged
        Aggregate.slice (← container.unchanged) lo hi) stack.push fun _ => () :=
  .bind (.popValue (by simp; omega) hi) fun hi => .bind (.popValue (by simp; omega) lo) fun lo =>
    .bind (.popValue high container) fun container => .pushed (.lift (Aggregate.slice container lo hi) stack)

end Exec.Does

theorem Value.Proper.unchanged {v : Value} (h : v.Proper) : v.unchanged = pure v := by
  simp [Value.unchanged, show v.isMarker = false from h]

/-- A value is converted as a parameter of a type takes it. -/
theorem Ty.receiveCode_computes (strict : Bool) (t : Ty) {v : Value} (proper : v.Proper)
    (placed : Placed code pc (t.receiveCode strict)) (high : c.base ≤ stack.size) :
    Computes c w code pc (pc + (t.receiveCode strict).length) (stack.push v)
      (t.receive strict c.strictness v) stack.push := by
  unfold Ty.receiveCode Ty.receive at *
  split
  · exact .refl v rfl
  · rename_i typed
    rw [if_neg typed] at placed
    split
    · rename_i aggregate
      rw [if_pos aggregate] at placed
      have copies := Does.copyTop (w := w) high v
      rw [proper.unchanged, pure_bind] at copies
      exact .instruction placed.head nofun copies
    · rename_i other
      rw [if_neg other] at placed
      have coerces := Does.coerceTop (w := w) high t v
      rw [proper.unchanged, pure_bind] at coerces
      cases strict with
      | true => exact .instruction placed.head nofun coerces
      | false =>
        have requires := Does.requireType (w := w) high t v
        rw [proper.unchanged, pure_bind] at requires
        exact .instruction placed.head nofun requires

/-! ## The arguments of a call -/

/-- A table holds the arguments of a call, and these names are not bound in it yet. -/
structure Store.Awaits (s : Store) (r : TableRef) (args : List Value) (names : List String) : Prop where
  there : r.index < s.tables.size
  arguments : ∃ a : ArrayRef, r.getLocal? s Exec.argumentsName = some (.array a) ∧
    s.Has (.array a) ∧ s.array a = { items := args.toArray }
  fresh : ∀ name ∈ names, name ≠ "_" → (s.table r).binding? name = none

variable {r : TableRef} {args : List Value} {names : List String} {i : Nat} {v : Value}

/-- A name is read where it is bound. -/
theorem TableRef.get?_of_getLocal {name : String} {v : Value} (bound : r.getLocal? s name = some v) :
    r.get? s name false = some v := by
  obtain ⟨b, found, value⟩ := Option.map_eq_some_iff.1 bound
  have resolved : r.find? s name false = some r :=
    TableRef.find?_of_binds (by
      rw [Table.binds_eq]
      exact Option.isSome_iff_exists.2 ⟨b, found⟩) false
  rw [TableRef.get?, TableRef.resolve?, resolved]
  exact bound

namespace Store.Awaits

/-- What a table holds is there when another name has been bound in it. -/
theorem adds (h : s.Awaits r args names) {s' : Store} {more names' : List String}
    (added : s.Adds s' r more) (apart : Exec.argumentsName ∉ more)
    (others : ∀ name ∈ names', name ≠ "_" → name ∈ names ∧ name ∉ more) :
    s'.Awaits r args names' where
  there := added.size ▸ h.there
  arguments := by
    obtain ⟨a, bound, has, items⟩ := h.arguments
    refine ⟨a, ?_, added.grown.has _ has, ?_⟩
    · rwa [TableRef.getLocal?, added.others _ apart]
    · injection added.grown.same _ has trivial with same
      exact same.trans items
  fresh name mem named := by
    obtain ⟨before, other⟩ := others name mem named
    rw [added.others name other]
    exact h.fresh name before named

theorem lookup (h : s.Awaits r args names) : ∃ a : ArrayRef,
    lookup r "_args" s = (.ok (.array a), s) ∧ s.array a = { items := args.toArray } := by
  obtain ⟨a, bound, -, items⟩ := h.arguments
  refine ⟨a, ?_, items⟩
  have read : r.get? s "_args" false = some (.array a) := TableRef.get?_of_getLocal bound
  rw [StackScript.lookup, StoreM.bind_of_ok (StoreM.get_eq s), read]
  rfl

end Store.Awaits

theorem lookup_same (r : TableRef) (name : String) (s : Store) : (lookup r name s).2 = s := by
  rw [lookup, StoreM.bind_of_ok (StoreM.get_eq s)]
  cases r.get? s name false <;> rfl

theorem toInt_ofNat {n : Nat} (few : n < countLimit) : (Int64.ofNat n).toInt = n :=
  Int64.toInt_ofNat_of_lt (Nat.lt_of_lt_of_eq few rfl)

section

variable (awaits : s.Awaits c.scope args names) (few : args.length < countLimit)
variable (here : s.code c.code = code) (high : c.base ≤ stack.size)

include awaits few here high

/-- The argument at a place is pushed. -/
theorem fetches_argument (placed : Placed code pc (fetchArgument i)) (found : args[i]? = some v) :
    ∃ n, Steps n ⟨c.at pc stack, w, s⟩
      ⟨c.at (pc + (fetchArgument i).length) (stack.push v), w, s⟩ := by
  have fetch : Computes c w code pc (pc + 3) stack (do
      onOperands Aggregate.item (← lookup c.scope "_args") (.int (Int64.ofNat i))) stack.push := by
    refine .bind (.instruction placed.head nofun (.loadName "_args" stack)) (fun s => ?_) fun x => ?_
    · exact congrArg Store.codes (lookup_same c.scope "_args" s)
    · exact .first (.instruction placed.tail.head nofun (.push _ _))
        (.instruction placed.tail.tail.head nofun (.loadIndex high x _))
  obtain ⟨a, read, items⟩ := awaits.lookup
  have value : (do onOperands Aggregate.item (← lookup c.scope "_args") (.int (Int64.ofNat i)) : StoreM Value)
      s = (.ok v, s) := by
    have inside : i < args.length := (List.getElem?_eq_some_iff.1 found).1
    have place : Aggregate.place (.int (Int64.ofNat i)) args.toArray.size s = (.ok i, s) := by
      have known : Aggregate.indexIn (.int (Int64.ofNat i)) args.toArray.size s = .ok i := by
        change (if (Int64.ofNat i).toInt < 0 ∨ args.toArray.size ≤ (Int64.ofNat i).toInt.toNat then _
          else Except.ok (Int64.ofNat i).toInt.toNat) = _
        rw [toInt_ofNat (inside.trans few), Int.toNat_natCast, if_neg (by simp; omega)]
      rw [Aggregate.place, known]
    refine (StoreM.bind_of_ok read).trans ?_
    change Aggregate.item (.array a) (.int (Int64.ofNat i)) s = _
    refine (StoreM.bind_of_ok (StoreM.get_eq s)).trans ?_
    rw [items]
    refine (StoreM.bind_of_ok place).trans ?_
    have item : args.toArray.getD i .nil = v := by simp [found]
    rw [item]
    rfl
  have runs := fetch s here
  rw [value] at runs
  exact runs

end

/-- The builtin `len` is called on a value that has a length. -/
theorem len_goes {n : Nat}
    (found : (s.code c.code).instructions[pc]? = some ⟨.call, callOperand 1 ({} : CallFlags).toInt⟩)
    (high : c.base ≤ stack.size) (proper : v.Proper) (length : v.length? s = some n) :
    Exec.step (c.at pc ((stack.push (.native (.root .len))).push v)) w s =
      (((.ok .goesOn, c.at (pc + 1) (stack.push (.int (Int64.ofNat n)))), w), s) := by
  have args : Exec.popValues 1 (c.at (pc + 1) ((stack.push (.native (.root .len))).push v)) w s =
      (((.ok [v], c.at (pc + 1) (stack.push (.native (.root .len)))), w), s) := by
    have above : c.base ≤ (stack.push (.native (.root .len))).size := by
      rw [Array.size_push]
      omega
    have popped := Does.popValues (w := w) above [v] (pc + 1) s
    have same : allUnchanged [v] = pure [v] := by
      simp [allUnchanged, show v.isMarker = false from proper]
    rw [same] at popped
    exact popped
  have callee := Does.popValue (c := c) (w := w) high (.native (.root .len)) (pc + 1) s
  have called : Exec.call (callOperand 1 ({} : CallFlags).toInt)
      (c.at (pc + 1) ((stack.push (.native (.root .len))).push v)) w s =
        (((.ok none, c.at (pc + 1) (stack.push (.int (Int64.ofNat n)))), w), s) := by
    rw [Exec.call_eq]
    refine (Exec.bind_of_ok (a := (1, {})) rfl).trans ((Exec.bind_of_ok (a := 1) rfl).trans ?_)
    refine (Exec.bind_of_ok args).trans ((Exec.bind_of_ok callee).trans ?_)
    refine (Exec.bind_of_ok (a := none) rfl).trans ?_
    have measured : RootFn.lengthOf v w s = ((.ok (.int (Int64.ofNat n)), w), s) :=
      (WorldM.bind_of_ok (a := s) rfl).trans (by rw [length]; rfl)
    have answers : Native.run (.root .len) ⟨c.scope, none, false, [v]⟩ w s =
        ((.ok (.value (.int (Int64.ofNat n))), w), s) := by
      change (Answer.value <$> RootFn.lengthOf v) w s = _
      rw [map_eq_pure_bind]
      exact WorldM.bind_of_ok measured
    have runs : (fun c' w s =>
        let ran := Native.run (.root .len) ⟨c.scope, none, false, [v]⟩ w s
        (((.ok ran.1.1, c'), ran.1.2), ran.2) : Exec (Except Fault Answer)) (c.at (pc + 1) stack) w s =
          (((.ok (.ok (.value (.int (Int64.ofNat n)))), c.at (pc + 1) stack), w), s) := by
      dsimp only
      rw [answers]
    exact (Exec.bind_of_ok (a := c.scope) rfl).trans
      ((Exec.bind_of_ok runs).trans (Exec.bind_of_ok (a := ()) rfl))
  exact Exec.step_call found rfl called

/-- A slice from an index of an array of values to its end. -/
theorem slice_rest {a : ArrayRef} (items : s.array a = { items := args.toArray })
    (few : args.length < countLimit) (le : i ≤ args.length) :
    Aggregate.slice (.array a) (.int (Int64.ofNat i)) (.int (Int64.ofNat args.length)) s =
      StoreM.array .interface (args.drop i).toArray s := by
  have length : (Value.array a).length? s = some args.length := by simp [Value.length?, items]
  have bound {j : Nat} (le : j ≤ args.length) :
      Aggregate.bound? (.int (Int64.ofNat j)) args.length = some j := by
    change (if 0 ≤ (Int64.ofNat j).toInt ∧ (Int64.ofNat j).toInt.toNat ≤ args.length then
      some (Int64.ofNat j).toInt.toNat else none) = _
    rw [toInt_ofNat (Nat.lt_of_le_of_lt le few), Int.toNat_natCast, if_pos ⟨by omega, le⟩]
  have bounds : Aggregate.bounds? (.int (Int64.ofNat i)) (.int (Int64.ofNat args.length)) args.length =
      some (i, args.length) := by
    simp [Aggregate.bounds?, bound le, bound (Nat.le_refl _), le]
  rw [Aggregate.slice, StoreM.bind_of_ok (StoreM.get_eq s), length]
  dsimp only
  rw [bounds]
  dsimp only
  rw [items]
  have rest : args.toArray.extract i args.length = (args.drop i).toArray := by
    simp [List.take_of_length_le]
  rw [rest]

section

variable (awaits : s.Awaits c.scope args names) (few : args.length < countLimit)
variable (here : s.code c.code = code) (high : c.base ≤ stack.size)

include awaits few here high

/-- The array of all arguments from a place on is pushed. -/
theorem fetches_rest (placed : Placed code pc (fetchRest i)) (le : i ≤ args.length)
    (len : c.scope.get? s "len" false = some (.native (.root .len))) :
    ∃ n a s', Steps n ⟨c.at pc stack, w, s⟩
        ⟨c.at (pc + (fetchRest i).length) (stack.push (.array a)), w, s'⟩ ∧
      (StoreM.array .interface (args.drop i).toArray : StoreM Value) s = (.ok (.array a), s') := by
  obtain ⟨a, read, items⟩ := awaits.lookup
  have lookups : Computes c w code pc (pc + 4) stack (do
      let x ← lookup c.scope "_args"
      let f ← lookup c.scope "len"
      let y ← lookup c.scope "_args"
      pure (x, f, y)) fun (x, f, y) =>
        (((stack.push x).push (.int (Int64.ofNat i))).push f).push y := by
    have same (name : String) (s : Store) := congrArg Store.codes (lookup_same c.scope name s)
    refine .bind (.instruction placed.head nofun (.loadName _ _)) (same _) fun x => ?_
    refine .first (.instruction placed.tail.head nofun (.push (.int (Int64.ofNat i)) _)) ?_
    refine .bind (.instruction placed.tail.tail.head nofun (.loadName _ _)) (same _) fun f => ?_
    exact .map (.instruction placed.tail.tail.tail.head nofun (.loadName _ _)) (same _) (x, f, ·)
      fun _ => rfl
  have found : lookup c.scope "len" s = (.ok (.native (.root .len)), s) := by
    rw [lookup, StoreM.bind_of_ok (StoreM.get_eq s), len]
    rfl
  have values : (do
      let x ← lookup c.scope "_args"
      let f ← lookup c.scope "len"
      let y ← lookup c.scope "_args"
      pure (x, f, y) : StoreM (Value × Value × Value)) s =
        (.ok (.array a, .native (.root .len), .array a), s) :=
    (StoreM.bind_of_ok read).trans ((StoreM.bind_of_ok found).trans (StoreM.bind_of_ok read))
  have pushed := lookups s here
  rw [values] at pushed
  obtain ⟨n, pushed⟩ := pushed
  have calls := placed.tail.tail.tail.tail
  let below := (stack.push (.array a)).push (.int (Int64.ofNat i))
  have measured : Snapshot.Goes
      ⟨c.at (pc + 4) ((below.push (.native (.root .len))).push (.array a)), w, s⟩
      ⟨c.at (pc + 5) (below.push (.int (Int64.ofNat args.length))), w, s⟩ :=
    len_goes (here ▸ calls.head) (by simp [below]; omega) rfl (by simp [Value.length?, items])
  have slices : Computes c w code (pc + 5) (pc + 6) _ _ stack.push :=
    .instruction calls.tail.head nofun
      (.loadSlice high (.array a) (.int (Int64.ofNat i)) (.int (Int64.ofNat args.length)))
  have sliced := slices s here
  have rest : (StoreM.array .interface (args.drop i).toArray : StoreM Value) s =
      (.ok (.array ⟨s.arrays.size⟩), (s.newArray { items := (args.drop i).toArray }).2) := rfl
  have slice : (do
      let hi ← (Value.int (Int64.ofNat args.length)).unchanged
      let lo ← (Value.int (Int64.ofNat i)).unchanged
      Aggregate.slice (← (Value.array a).unchanged) lo hi : StoreM Value) s = _ :=
    (slice_rest items few le).trans rest
  rw [slice] at sliced
  obtain ⟨n', sliced⟩ := sliced
  exact ⟨n + (1 + n'), _, _, pushed.trans ((Steps.one measured).trans sliced), rest⟩

end

end

/-! ## One parameter after the other -/

variable {c : Context} {w : World} {code : Code} {pc : Nat} {stack : Array Value} {s s' : Store}
variable {strict variadic isRest : Bool} {level : Strictness} {r : TableRef} {args : List Value}
variable {i : Nat} {v : Value} {f : Fault}

/-! ## What parameters make of arguments -/

/-- What a call offers a parameter: the argument at a place, or an array of all from there on. -/
def Offered (isRest : Bool) (args : List Value) (i : Nat) (s : Store) (v : Value) : Prop :=
  if isRest then ∃ a : ArrayRef, v = .array a ∧ s.array a = { items := (args.drop i).toArray }
  else args[i]? = some v

theorem Offered.proper (h : Offered isRest args i s v) (proper : ∀ v ∈ args, v.Proper) : v.Proper := by
  unfold Offered at h
  split at h
  · obtain ⟨a, rfl, -⟩ := h
    rfl
  · exact proper v (List.mem_of_getElem? h)

namespace Parameter

/-- From a store to another, a parameter is bound in a table to what it makes of what it is offered.
In between, objects are added. -/
inductive Receives (p : Parameter) (strict : Bool) (level : Strictness) (isRest : Bool)
    (args : List Value) (i : Nat) (r : TableRef) (s s' : Store) : Prop
  | intro {v received stored : Value} {t t' u u' : Store} (before : s.GrowsTo t)
      (offered : Offered isRest args i t v)
      (converted : (p.target isRest).receive strict level v t = (.ok received, t'))
      (between : t'.GrowsTo u) (kept : storedUnder p.name received u = (.ok stored, u'))
      (after : u'.GrowsTo s') (bound : r.getLocal? s' p.name = some stored)

/-- From a store on, a parameter does not take what it is offered. -/
inductive Refuses (p : Parameter) (strict : Bool) (level : Strictness) (isRest : Bool)
    (args : List Value) (i : Nat) (s : Store) (f : Fault) : Prop
  | intro {v : Value} {t t' : Store} (before : s.GrowsTo t) (offered : Offered isRest args i t v)
      (refused : (p.target isRest).receive strict level v t = (.error f, t'))

variable {p : Parameter}

theorem Receives.earlier {s₀ : Store} (h : p.Receives strict level isRest args i r s s')
    (more : s₀.GrowsTo s) : p.Receives strict level isRest args i r s₀ s' := by
  obtain ⟨before, offered, converted, between, kept, after, bound⟩ := h
  exact .intro (more.trans before) offered converted between kept after bound

theorem Receives.later {s'' : Store} {names : List String}
    (h : p.Receives strict level isRest args i r s s') (more : s'.Adds s'' r names)
    (apart : p.name ∉ names) : p.Receives strict level isRest args i r s s'' := by
  obtain ⟨before, offered, converted, between, kept, after, bound⟩ := h
  refine .intro before offered converted between kept (after.trans more.grown) ?_
  rwa [TableRef.getLocal?, more.others _ apart]

theorem Refuses.conversion (h : p.Refuses strict level isRest args i s f)
    (proper : ∀ v ∈ args, v.Proper) : f.IsConversion := by
  cases h with
  | @intro v t _ _ offered refused =>
    have converted := (p.target isRest).receive_converts strict level v (offered.proper proper) t
    rw [refused] at converted
    exact converted

theorem Refuses.earlier {s₀ : Store} (h : p.Refuses strict level isRest args i s f)
    (more : s₀.GrowsTo s) : p.Refuses strict level isRest args i s₀ f := by
  obtain ⟨before, offered, refused⟩ := h
  exact .intro (more.trans before) offered refused

end Parameter

/-! ## One parameter -/

section

variable (here : s.code c.code = code) (high : c.base ≤ stack.size)

include here high

/-- The top of the stack is converted and bound to a name that is new, unless it is not converted. -/
theorem binds_received {t : Ty} {name : String}
    (placed : Placed code pc (t.receiveCode strict ++ storeCode true name)) (proper : v.Proper)
    (there : c.scope.index < s.tables.size)
    (fresh : name ≠ "_" → (s.table c.scope).binding? name = none) :
    (∃ n received t' s', Steps n ⟨c.at pc (stack.push v), w, s⟩
        ⟨c.at (pc + (t.receiveCode strict ++ storeCode true name).length) stack, w, s'⟩ ∧
      t.receive strict c.strictness v s = (.ok received, t') ∧ t'.Adds s' c.scope [name] ∧
      (name ≠ "_" → ∃ u u' stored, t'.GrowsTo u ∧ storedUnder name received u = (.ok stored, u') ∧
        u'.GrowsTo s' ∧ c.scope.getLocal? s' name = some stored)) ∨
    ∃ n f t' e, Fails n ⟨c.at pc (stack.push v), w, s⟩ f e ∧
      t.receive strict c.strictness v s = (.error f, t') := by
  have receives := t.receiveCode_computes (c := c) (w := w) strict proper placed.left high s here
  have added := Store.Adds.of_within (fun h => t.receive_within strict c.strictness v h) s c.scope
  have gives := t.receive_converts strict c.strictness v proper s
  rw [List.length_append, ← Nat.add_assoc]
  rcases received : t.receive strict c.strictness v s with ⟨f | x, t'⟩ <;>
    rw [received] at receives added gives
  · obtain ⟨n, pc₁, left, fails⟩ := receives
    exact .inr ⟨n, f, t', _, fails, rfl⟩
  · obtain ⟨n, steps⟩ := receives
    have stores := storeCode_computes (c := c) (w := w) placed.right high x t'
      (by rw [← here, Store.code, Store.code, added.codes])
    left
    by_cases blank : name = "_"
    · have done : bindName c.scope true name x t' = (.ok (), t') := by rw [bindName, if_pos blank]; rfl
      rw [done] at stores
      obtain ⟨n', steps'⟩ := stores
      exact ⟨n + n', x, t', t', steps.trans steps', rfl, (Store.Adds.refl t' _).mono (by simp),
        fun named => absurd blank named⟩
    · have unbound := (added.others name List.not_mem_nil).trans (fresh blank)
      obtain ⟨s', u, u', y, done, grown, kept, grown', bound, adds⟩ :=
        bindName_new (added.size.symm ▸ there) unbound blank gives
      rw [done] at stores
      obtain ⟨n', steps'⟩ := stores
      exact ⟨n + n', x, t', s', steps.trans steps', rfl, adds,
        fun _ => ⟨u, u', y, grown, kept, grown', bound⟩⟩

/-- A parameter is bound, unless it does not take what it is offered. -/
theorem Parameter.binds {p : Parameter} {names : List String}
    (placed : Placed code pc (p.code strict isRest i))
    (awaits : s.Awaits c.scope args (p.name :: names)) (few : args.length < countLimit)
    (proper : ∀ v ∈ args, v.Proper) (enough : if isRest then i ≤ args.length else i < args.length)
    (len : isRest = true → c.scope.get? s "len" false = some (.native (.root .len))) :
    (∃ n s', Steps n ⟨c.at pc stack, w, s⟩
        ⟨c.at (pc + (p.code strict isRest i).length) stack, w, s'⟩ ∧ s.Adds s' c.scope [p.name] ∧
      (p.name ≠ "_" → p.Receives strict c.strictness isRest args i c.scope s s')) ∨
    ∃ n f e, Fails n ⟨c.at pc stack, w, s⟩ f e ∧
      p.Refuses strict c.strictness isRest args i s f := by
  let fetch := if isRest then fetchRest i else fetchArgument i
  have parts : p.code strict isRest i =
      fetch ++ ((p.target isRest).receiveCode strict ++ storeCode true p.name) := List.append_assoc ..
  rw [parts, List.length_append, ← Nat.add_assoc]
  rw [parts] at placed
  -- what is fetched is offered, and the store is only added to
  obtain ⟨n, v, t, fetches, added, offered, valid⟩ : ∃ n v t, Steps n ⟨c.at pc stack, w, s⟩
      ⟨c.at (pc + fetch.length) (stack.push v), w, t⟩ ∧ s.Adds t c.scope [] ∧
        Offered isRest args i t v ∧ v.Proper := by
    cases isRest with
    | true =>
      obtain ⟨n, a, t, steps, made⟩ := fetches_rest (w := w) awaits few here high placed.left enough
        (len rfl)
      have added := Store.Adds.of_within (fun h => StoreM.Within.array h .interface (args.drop i).toArray)
        s c.scope
      rw [made] at added
      refine ⟨n, .array a, t, steps, added, ⟨a, rfl, ?_⟩, rfl⟩
      cases made
      exact s.array_newArray _
    | false =>
      have found := List.getElem?_eq_getElem enough
      obtain ⟨n, steps⟩ := fetches_argument (w := w) awaits few here high placed.left found
      exact ⟨n, _, s, steps, .refl s _, found, proper _ (List.getElem_mem enough)⟩
  have ready := awaits.adds added List.not_mem_nil fun _ mem _ => ⟨mem, List.not_mem_nil⟩
  have there : t.code c.code = code := by rw [← here, Store.code, Store.code, added.codes]
  rcases binds_received (w := w) there high placed.right valid ready.there
      (ready.fresh p.name List.mem_cons_self) with
    ⟨n', x, t', s', steps, received, adds, bound⟩ | ⟨n', f, t', e, fails, refused⟩
  · have between := Store.Adds.of_within
      (fun h => (p.target isRest).receive_within strict c.strictness v h) t c.scope
    rw [received] at between
    refine .inl ⟨n + n', s', fetches.trans steps, (added.trans between).trans adds, fun named => ?_⟩
    obtain ⟨u, u', y, grown, kept, grown', found⟩ := bound named
    exact .intro added.grown offered received grown kept grown' found
  · exact .inr ⟨n + n', f, e, .trans fetches fails, .intro added.grown offered refused⟩

end

/-! ## All parameters -/

/-- The parameters of a function from a place on are bound, unless one of them does not take what it
is offered. -/
theorem parameters_bind {ps : List Parameter} (few : args.length < countLimit)
    (proper : ∀ v ∈ args, v.Proper) (high : c.base ≤ stack.size) (here : s.code c.code = code)
    (placed : Placed code pc (parametersCode strict variadic i ps))
    (awaits : s.Awaits c.scope args (ps.map Parameter.name))
    (distinct : ((ps.map Parameter.name).filter (· ≠ "_")).Nodup)
    (apart : Exec.argumentsName ∉ ps.map Parameter.name)
    (enough : i + ps.length ≤ args.length + variadic.toNat)
    (len : variadic = true → c.scope.get? s "len" false = some (.native (.root .len)) ∧
      "len" ∉ ps.map Parameter.name) :
    (∃ n s', Steps n ⟨c.at pc stack, w, s⟩
        ⟨c.at (pc + (parametersCode strict variadic i ps).length) stack, w, s'⟩ ∧
      s.Adds s' c.scope (ps.map Parameter.name) ∧
      ∀ (j : Nat) (p : Parameter), ps[j]? = some p → p.name ≠ "_" →
        p.Receives strict c.strictness (variadic && j + 1 == ps.length) args (i + j) c.scope s s') ∨
    ∃ n f e, Fails n ⟨c.at pc stack, w, s⟩ f e ∧ ∃ (j : Nat) (p : Parameter), ps[j]? = some p ∧
      p.Refuses strict c.strictness (variadic && j + 1 == ps.length) args (i + j) s f := by
  induction ps generalizing i pc s with
  | nil => exact .inl ⟨0, s, .refl, .refl s _, nofun⟩
  | cons p rest ih =>
    have isLast : (variadic && rest.isEmpty) = (variadic && 0 + 1 == (p :: rest).length) := by
      cases rest <;> simp
    have next (j : Nat) : (variadic && j + 1 == rest.length) =
        (variadic && j + 1 + 1 == (p :: rest).length) := by simp
    have place (j : Nat) : i + 1 + j = i + (j + 1) := by omega
    have one : if (variadic && rest.isEmpty) = true then i ≤ args.length else i < args.length := by
      rw [List.length_cons] at enough
      cases variadic <;> cases rest <;>
        simp only [Bool.false_and, Bool.true_and, Bool.toNat_false, Bool.toNat_true, List.isEmpty_nil,
          List.isEmpty_cons, List.length_nil, List.length_cons, if_true, Bool.false_eq_true, if_false]
          at enough ⊢ <;> omega
    rw [List.map_cons, List.filter_cons] at distinct
    have others : ∀ name ∈ rest.map Parameter.name, name ≠ "_" → name ≠ p.name := by
      rintro _ mem named rfl
      rw [if_pos (decide_eq_true named)] at distinct
      exact (List.nodup_cons.1 distinct).1 (List.mem_filter.2 ⟨mem, decide_eq_true named⟩)
    have distinct : ((rest.map Parameter.name).filter (· ≠ "_")).Nodup := by
      split at distinct
      · exact (List.nodup_cons.1 distinct).2
      · exact distinct
    rw [List.map_cons, List.mem_cons, not_or] at apart
    rw [parametersCode, List.length_append, ← Nat.add_assoc]
    rcases p.binds (w := w) here high placed.left awaits few proper one
        (fun isRest => (len (Bool.and_eq_true_iff.1 isRest).1).1) with
      ⟨n, t, steps, adds, bound⟩ | ⟨n, f, e, fails, refuses⟩
    · have ready : t.Awaits c.scope args (rest.map Parameter.name) :=
        awaits.adds adds (by simpa using apart.1) fun name mem named =>
          ⟨List.mem_cons_of_mem _ mem, by simpa using others name mem named⟩
      have there : t.code c.code = code := by rw [← here, Store.code, Store.code, adds.codes]
      have seen : variadic = true → c.scope.get? t "len" false = some (.native (.root .len)) ∧
          "len" ∉ rest.map Parameter.name := fun isVariadic => by
        obtain ⟨found, free⟩ := len isVariadic
        rw [List.map_cons, List.mem_cons, not_or] at free
        exact ⟨(adds.seen "len" (by simpa using free.1)).trans found, free.2⟩
      have more : i + 1 + rest.length ≤ args.length + variadic.toNat := by
        rw [List.length_cons] at enough
        omega
      rcases ih there placed.right ready distinct apart.2 more seen with
        ⟨n', s', steps', adds', bound'⟩ | ⟨n', f, e, fails, j, q, found, refuses⟩
      · refine .inl ⟨n + n', s', steps.trans steps', adds.trans adds', fun j q found named => ?_⟩
        cases j with
        | zero =>
          cases found
          rw [← isLast]
          exact (bound named).later adds' fun mem => others _ mem named rfl
        | succ j =>
          rw [← next, ← place]
          exact (bound' j q found named).earlier adds.grown
      · rw [next, place] at refuses
        exact .inr ⟨n + n', f, e, .trans steps fails, j + 1, q, found, refuses.earlier adds.grown⟩
    · rw [isLast] at refuses
      exact .inr ⟨n, f, e, fails, 0, p, rfl, refuses⟩

end StackScript
