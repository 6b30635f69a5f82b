import StackScript.Proofs.Steps
import StackScript.Proofs.Objects

/-!
# Promotion

Of two scalars the one of the narrower kind is converted to the kind of the other. The conversions that
can fail read a text or have no number to start from, and a promotion asks for none of them: only to
texts, and among numbers from a boolean up. So the level that falls back on texts never does.

Main statement: `Exec.relaxed_dynamic_agree`.
-/
namespace StackScript

variable {α β : Type}

/-! ## Conversions to wider kinds -/

/-- Booleans are the narrowest scalars. -/
theorem Kind.eq_bool {k : Kind} (scalar : k.isScalar = true) (narrow : k.rank ≤ Kind.bool.rank) :
    k = .bool := by
  cases k <;> first
    | rfl
    | exact absurd narrow (by decide)
    | cases scalar

namespace Value

/-- Every scalar that is no text is a number, booleans too. -/
theorem asInt?_of_scalar {v : Value} (scalar : v.kind.isScalar = true) (number : v.kind ≠ .string) :
    ∃ n, v.asInt? = some n := by
  cases v <;> first
    | exact ⟨_, rfl⟩
    | exact absurd rfl number
    | cases scalar

theorem toText_scalar {v : Value} (scalar : v.kind.isScalar = true) (s : Store) :
    ∃ x, toText v s = (.ok x, s) ∧ x.kind = .string := by
  cases v <;> first
    | exact ⟨_, rfl, rfl⟩
    | cases scalar

theorem toFloating_number {v : Value} {n : Int64} (number : v.asInt? = some n) {k : Kind}
    (float : k.isFloat = true) (s : Store) :
    ∃ x, toFloating k v s = (.ok x, s) ∧ x.kind = k := by
  have reads : ∃ x, toFloating k v = pure (if k == .float32 then float32 x.toFloat32 else float64 x) := by
    cases v <;> first
      | (cases number; done)
      | exact ⟨_, rfl⟩
  obtain ⟨x, reads⟩ := reads
  rw [reads]
  cases k <;> first
    | exact ⟨_, rfl, rfl⟩
    | cases float

theorem toInteger_number {v : Value} {n : Int64} (number : v.asInt? = some n) {k : Kind}
    (integer : k.isInteger = true) (s : Store) :
    ∃ x, toInteger k v s = (.ok x, s) ∧ x.kind = k := by
  have reads : toInteger k v = pure (ofInteger k n) := by
    cases v <;> cases number <;> rfl
  rw [reads]
  cases k <;> first
    | exact ⟨_, rfl, rfl⟩
    | cases integer

theorem coerce_scalar {v : Value} {k : Kind} (scalar : v.kind.isScalar = true)
    (target : k.isScalar = true) : v.coerce (.plain k) = coerceScalar k v := by
  have value : v.isMarker = false := isMarker_of_isScalar scalar
  have named : (k == .interface || k == .pointer) = false := by
    cases k <;> first
      | rfl
      | cases target
  simp [coerce, coerceAs, value, named, target]

/-- A scalar is converted to its own kind and to every wider one. -/
theorem coerce_wider {v : Value} {k : Kind} (scalar : v.kind.isScalar = true)
    (target : k.isScalar = true) (wider : v.kind.rank ≤ k.rank) (s : Store) :
    ∃ x, v.coerce (.plain k) s = (.ok x, s) ∧ x.kind = k := by
  rw [coerce_scalar scalar target]
  by_cases same : v.kind = k
  · exact ⟨v, by simp [coerceScalar, same]; rfl, same⟩
  have something : v.isNil = false := by
    cases v <;> first
      | rfl
      | cases scalar
  simp only [coerceScalar, beq_false_of_ne same, something, Bool.false_eq_true, if_false]
  -- only numbers are promoted to a kind that is not the widest, and nothing to the narrowest
  have number (narrow : k.rank < Kind.string.rank) : ∃ n, v.asInt? = some n :=
    asInt?_of_scalar scalar fun text => by
      rw [text] at wider
      omega
  cases k with
  | string => exact toText_scalar scalar s
  | float32 | float64 =>
    obtain ⟨n, number⟩ := number (by decide)
    exact toFloating_number number rfl s
  | byte | int32 | int | int64 =>
    obtain ⟨n, number⟩ := number (by decide)
    exact toInteger_number number rfl s
  | bool => exact absurd (Kind.eq_bool scalar wider) same
  | _ => cases target

/-- The promotion of two scalars succeeds, with both of the wider kind. -/
theorem promote_scalars {a b : Value} (ha : a.kind.isScalar = true) (hb : b.kind.isScalar = true)
    (s : Store) : ∃ x y, promote a b s = (.ok (x, y), s) ∧
      x.kind = a.kind.wider b.kind ∧ y.kind = a.kind.wider b.kind := by
  by_cases same : a.kind = b.kind
  · rw [promote_same same]
    exact ⟨a, b, rfl, by simp [Kind.wider, same], by simp [Kind.wider, same]⟩
  have target : (a.kind.wider b.kind).isScalar = true := by
    obtain h | h := Kind.wider_eq_or a.kind b.kind <;> rw [h] <;> assumption
  have left : a.kind.rank ≤ (a.kind.wider b.kind).rank := by unfold Kind.wider; split <;> omega
  have right : b.kind.rank ≤ (a.kind.wider b.kind).rank := by unfold Kind.wider; split <;> omega
  obtain ⟨x, converted, hx⟩ := coerce_wider ha target left s
  obtain ⟨y, converted', hy⟩ := coerce_wider hb target right s
  refine ⟨x, y, ?_, hx, hy⟩
  simp only [promote, beq_false_of_ne same, ha, hb, Bool.not_true, Bool.or_self, Bool.false_eq_true,
    if_false]
  exact (StoreM.bind_of_ok converted).trans (StoreM.bind_of_ok converted')

/-- A promotion never fails, so nothing is done in its place. -/
theorem promote_caught (a b : Value) (fallback : Fault → StoreM (Value × Value)) :
    tryCatch (promote a b) fallback = promote a b := by
  funext s
  obtain ⟨p, ok⟩ : ∃ p, promote a b s = (.ok p, s) := by
    by_cases scalars : a.kind.isScalar = true ∧ b.kind.isScalar = true
    · obtain ⟨x, y, ok, -⟩ := promote_scalars scalars.1 scalars.2 s
      exact ⟨_, ok⟩
    · have kept : (a.kind == b.kind || !a.kind.isScalar || !b.kind.isScalar) = true := by
        cases ha : a.kind.isScalar <;> cases hb : b.kind.isScalar <;> simp_all
      exact ⟨(a, b), by rw [promote, if_pos kept]; rfl⟩
  simp only [tryCatch, tryCatchThe, MonadExceptOf.tryCatch, ExceptT.tryCatch, ExceptT.mk, Bind.bind,
    StateT.bind, ok]
  rfl

end Value

/-- Operands are unified alike at both levels that promote. -/
theorem Operator.unify_dynamic (a b : Value) : unify .dynamic a b = unify .relaxed a b := by
  simp only [unify, Value.promote_caught]

/-! ## Operators at two levels -/

/-- A context at another level of strictness. -/
def Context.atLevel (c : Context) (level : Strictness) : Context := { c with strictness := level }

namespace Exec

/-- The computation does the same at the relaxed and at the dynamic level. -/
def AlikeAtLevels (x : Exec α) : Prop :=
  ∀ (c : Context) (w : World) (s : Store), ∃ (r : Except Fault α) (c' : Context) (w' : World) (s' : Store),
    x (c.atLevel .relaxed) w s = (((r, c'.atLevel .relaxed), w'), s') ∧
    x (c.atLevel .dynamic) w s = (((r, c'.atLevel .dynamic), w'), s')

namespace AlikeAtLevels

theorem bind {x : Exec α} {f : α → Exec β} (hx : AlikeAtLevels x) (hf : ∀ a, AlikeAtLevels (f a)) :
    AlikeAtLevels (x >>= f) := by
  intro c w s
  obtain ⟨r, c', w', s', relaxed, dynamic⟩ := hx c w s
  cases r with
  | error e => exact ⟨_, _, _, _, bind_of_error relaxed, bind_of_error dynamic⟩
  | ok a =>
    obtain ⟨r, c'', w'', s'', relaxed', dynamic'⟩ := hf a c' w' s'
    exact ⟨_, _, _, _, (bind_of_ok relaxed).trans relaxed', (bind_of_ok dynamic).trans dynamic'⟩

theorem popValue : AlikeAtLevels popValue := by
  intro c w s
  let left : Context := { c with stack := c.stack.pop }
  by_cases low : c.stack.size ≤ c.base
  · exact ⟨_, c, w, s, if_pos low, if_pos low⟩
  cases marked : (c.stack.back?.getD .nil).isMarker with
  | true =>
    refine ⟨.error (.of .voidReturn), left, w, s, ?_, ?_⟩ <;>
    · exact (if_neg low).trans (if_pos marked)
  | false =>
    refine ⟨.ok (c.stack.back?.getD .nil), left, w, s, ?_, ?_⟩ <;>
    · exact (if_neg low).trans (if_neg (by simp [Context.atLevel, marked]))

theorem push (v : Value) : AlikeAtLevels (push v) := fun c _ _ =>
  ⟨_, { c with stack := c.stack.push v }, _, _, rfl, rfl⟩

theorem lift (m : StoreM α) : AlikeAtLevels (m : Exec α) := fun c _ _ => ⟨_, c, _, _, rfl, rfl⟩

theorem ofStrictness {f : Strictness → Exec α} (same : f .dynamic = f .relaxed)
    (hf : AlikeAtLevels (f .relaxed)) : AlikeAtLevels (ofContext Context.strictness >>= f) := by
  intro c w s
  obtain ⟨r, c', w', s', relaxed, dynamic⟩ := hf c w s
  rw [← same] at dynamic
  exact ⟨r, c', w', s', (bind_of_ok rfl).trans relaxed, (bind_of_ok rfl).trans dynamic⟩

theorem binary (f : Value → Value → StoreM Value) : AlikeAtLevels (binary f) := by
  refine .bind popValue fun b => .bind popValue fun a => ofStrictness ?_ ?_
  · simp only [Operator.unify_dynamic]
  · exact .bind (lift _) fun p => .bind (lift _) push

end AlikeAtLevels

end Exec

/-- The instructions that combine two operands: arithmetic, bits and comparisons. -/
def Opcode.combining : List Opcode :=
  [.add, .sub, .mul, .div, .modulo, .exp, .bitAnd, .bitOr, .equal, .notEqual, .lessThan,
    .lessThanOrEqual, .greaterThan, .greaterThanOrEqual]

theorem Exec.perform_alike {i : Instruction} (combines : i.op ∈ Opcode.combining) :
    AlikeAtLevels (perform i) := by
  simp only [Opcode.combining, List.mem_cons, List.not_mem_nil, or_false] at combines
  unfold perform
  rcases combines with op | op | op | op | op | op | op | op | op | op | op | op | op | op <;>
  · rw [op]
    exact .binary _

/-- The promotion of two scalars succeeds with both of the wider kind, so that whatever is to be done
when one fails is not done; and every instruction that combines two operands has the same outcome at
the relaxed and at the dynamic level. -/
theorem Exec.relaxed_dynamic_agree :
    (∀ (a b : Value) (s : Store), a.kind.isScalar = true → b.kind.isScalar = true →
      ∃ x y, Value.promote a b s = (.ok (x, y), s) ∧
        x.kind = a.kind.wider b.kind ∧ y.kind = a.kind.wider b.kind) ∧
    (∀ (a b : Value) (fallback : Fault → StoreM (Value × Value)),
      tryCatch (Value.promote a b) fallback = Value.promote a b) ∧
    ∀ i : Instruction, i.op ∈ Opcode.combining → AlikeAtLevels (perform i) :=
  ⟨fun _ _ s ha hb => Value.promote_scalars ha hb s, Value.promote_caught, fun _ => perform_alike⟩

/-- A number and a text are joined as texts at both levels. -/
theorem Exec.number_joined :
    let c : Context :=
      { moduleName := "main", code := ⟨0⟩, scope := ⟨0⟩, strictness := .dynamic
        stack := #[.int 1, .string "x"] }
    (∃ x y, Value.promote (.int 1) (.string "x") {} = (.ok (x, y), {}) ∧
      x.kind = .string ∧ y.kind = .string) ∧
    perform ⟨.add, .none⟩ c {} {} = (((.ok (), { c with stack := #[.string "1x"] }), {}), {}) := by
  intro c
  obtain ⟨promotes, -, agrees⟩ := relaxed_dynamic_agree
  refine ⟨promotes (.int 1) (.string "x") {} rfl rfl, ?_⟩
  obtain ⟨r, c', w', s', relaxed, dynamic⟩ := agrees ⟨.add, .none⟩ (by decide) c {} {}
  have joined : perform ⟨.add, .none⟩ (c.atLevel .relaxed) {} {} =
    (((.ok (), Context.atLevel { c with stack := #[.string "1x"] } .relaxed), {}), {}) := rfl
  obtain ⟨ends, rfl⟩ := Prod.mk.inj (relaxed.symm.trans joined)
  obtain ⟨inContext, rfl⟩ := Prod.mk.inj ends
  obtain ⟨rfl, same⟩ := Prod.mk.inj inContext
  have same : c'.atLevel .dynamic = { c with stack := #[.string "1x"] } :=
    congrArg (Context.atLevel · .dynamic) same
  rwa [same] at dynamic

end StackScript
