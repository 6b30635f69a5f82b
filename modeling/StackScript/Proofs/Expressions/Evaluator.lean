import StackScript.Proofs.Objects
import StackScript.Proofs.Expressions.Syntax

/-!
# The values of expressions

An evaluator on trees: operands from left to right, each operator as on values, the right side of
`&&` and `||` only if the left one does not decide, and of a choice only the arm that is chosen.
Names are looked up from a table, in the spelling that a compiler gives them.

Main statement: `eval_within`. Evaluating an expression makes new objects and changes none.
-/
namespace StackScript

/-! ## Operators on values -/

/-- The opposite of a value, or the value with the other sign. -/
def negated (v : Value) : StoreM Value := do Operator.negate (← v.unchanged)

/-- Apply a function to two operands, of which the right one is looked at first. -/
def onOperands (f : Value → Value → StoreM Value) (x y : Value) : StoreM Value := do
  let y ← y.unchanged
  let x ← x.unchanged
  f x y

/-- Apply a function to two operands that are first brought to one kind. -/
def onUnified (level : Strictness) (f : Value → Value → StoreM Value) : Value → Value →
    StoreM Value :=
  onOperands fun x y => do
    let (x, y) ← Operator.unify level x y
    f x y

/-- Whether two values are equal, or are not. -/
def sameOr (same : Bool) (x y : Value) : StoreM Value := do
  pure (.bool (x.equal (← get) y == same))

namespace Operation

/-- The left operand that decides the result, for the two operators that may not need the right
one. -/
def decides? : Operation → Option Bool
  | or => some true
  | and => some false
  | _ => none

/-- The value of an operator on two values. -/
def apply (level : Strictness) : Operation → Value → Value → StoreM Value
  | or => onOperands fun x y => pure (.bool (x.isTruthy || y.isTruthy))
  | and => onOperands fun x y => pure (.bool (x.isTruthy && y.isTruthy))
  | equal => onUnified level (sameOr true)
  | notEqual => onUnified level (sameOr false)
  | lessOrEqual => onUnified level (Operator.ordered (· != .gt))
  | greaterOrEqual => onUnified level (Operator.ordered (· != .lt))
  | less => onUnified level (Operator.ordered (· == .lt))
  | greater => onUnified level (Operator.ordered (· == .gt))
  | add => onUnified level Operator.add
  | subtract => onUnified level Operator.subtract
  | bitAnd => onUnified level (Operator.bitwise (· &&& ·) (· && ·))
  | multiply => onUnified level Operator.multiplication.apply
  | divide => onUnified level Operator.division.apply
  | remainder => onUnified level Operator.remainder.apply
  | bitOr => onUnified level (Operator.bitwise (· ||| ·) (· || ·))
  | power => onUnified level Operator.power.apply
  | shiftLeft => onOperands Operator.shift
  | shiftRight => fun x y => do onOperands Operator.shift x (← negated y)

end Operation

/-! ## Expressions -/

/-- The value of a name, seen from a table. -/
def lookup (table : TableRef) (name : String) : StoreM Value := do
  match table.get? (← get) name false with
  | some v => pure v
  | none => throw (.about .unknownIdentifier name)

/-- Values as they are, unless one of them is a marker. -/
def allUnchanged (vs : List Value) : StoreM (List Value) :=
  if vs.any Value.isMarker then throw (.of .voidReturn) else pure vs

/-- A new array of values. -/
def arrayOf (vs : List Value) : StoreM Value := do
  StoreM.array .interface (← allUnchanged vs).toArray

/-- What an evaluation depends on beside the store. -/
structure Setting where
  level : Strictness
  /-- Where names are looked up. -/
  table : TableRef
  /-- The name that an identifier stands for. -/
  spell : String → String

mutual
/-- The value of an expression. -/
def Expr.eval (σ : Setting) : Expr → StoreM Value
  | .literal l => pure l.value
  | .name x => lookup σ.table (σ.spell x)
  | .array items => do arrayOf (← Expr.evalAll σ items)
  | .unary _ e => do negated (← e.eval σ)
  | .binary op a b => do
    let x ← a.eval σ
    match op.decides? with
    | some decided => do
      if (← x.unchanged).isTruthy == decided then pure (.bool decided)
      else
        let y ← b.eval σ
        pure (.bool (← y.unchanged).isTruthy)
    | none => do
      let y ← b.eval σ
      op.apply σ.level x y
  | .choice c a b => do
    let x ← c.eval σ
    if (← x.unchanged).isTruthy then a.eval σ else b.eval σ
/-- The values of expressions, the first one first. -/
def Expr.evalAll (σ : Setting) : List Expr → StoreM (List Value)
  | [] => pure []
  | e :: es => do
    let v ← e.eval σ
    let vs ← Expr.evalAll σ es
    pure (v :: vs)
end

/-! ## The store -/

open StoreM (Within)

variable {R : Store → Store → Prop}

theorem negated_within (h : Store.AddsObjects R) (v : Value) : Within R (negated v) :=
  .bind h (Value.unchanged_within h v) fun _ => Operator.negate_within h _

theorem onOperands_within (h : Store.AddsObjects R) {f : Value → Value → StoreM Value}
    (hf : ∀ x y, Within R (f x y)) (x y : Value) : Within R (onOperands f x y) :=
  .bind h (Value.unchanged_within h y) fun _ =>
    .bind h (Value.unchanged_within h x) fun _ => hf _ _

theorem onUnified_within (h : Store.AddsObjects R) (level : Strictness)
    {f : Value → Value → StoreM Value} (hf : ∀ x y, Within R (f x y)) (x y : Value) :
    Within R (onUnified level f x y) :=
  onOperands_within h (fun x y => .bind h (Operator.unify_within h level x y) fun p => hf p.1 p.2)
    x y

theorem sameOr_within (h : Store.AddsObjects R) (same : Bool) (x y : Value) :
    Within R (sameOr same x y) := .bind h (.get h) fun _ => .pure h _

theorem Operation.apply_within (h : Store.AddsObjects R) (level : Strictness) (op : Operation)
    (x y : Value) : Within R (op.apply level x y) := by
  cases op with
  | or | and => exact onOperands_within h (fun _ _ => .pure h _) x y
  | equal | notEqual => exact onUnified_within h level (sameOr_within h _) x y
  | lessOrEqual | greaterOrEqual | less | greater =>
    exact onUnified_within h level (Operator.ordered_within h _) x y
  | add => exact onUnified_within h level (Operator.add_within h) x y
  | subtract => exact onUnified_within h level (Operator.subtract_within h) x y
  | bitAnd | bitOr => exact onUnified_within h level (Operator.bitwise_within h _ _) x y
  | multiply =>
    exact onUnified_within h level (Operator.apply_within h Operator.multiplication_plain) x y
  | divide =>
    exact onUnified_within h level (Operator.apply_within h Operator.division_plain) x y
  | remainder =>
    exact onUnified_within h level (Operator.apply_within h Operator.remainder_plain) x y
  | power => exact onUnified_within h level (Operator.apply_within h Operator.power_plain) x y
  | shiftLeft => exact onOperands_within h (Operator.shift_within h) x y
  | shiftRight =>
    exact .bind h (negated_within h y) fun _ => onOperands_within h (Operator.shift_within h) x _

mutual
/-- Evaluating an expression makes new objects and changes none. -/
theorem Expr.eval_within (h : Store.AddsObjects R) (σ : Setting) : (e : Expr) →
    Within R (e.eval σ)
  | .literal _ => .pure h _
  | .name x => .bind h (.get h) fun s => by
    split
    · exact .pure h _
    · exact .throw h rfl
  | .array items => .bind h (Expr.evalAll_within h σ items) fun _ =>
    .bind h (.ite (.throw h rfl) (.pure h _)) fun _ => .array h _ _
  | .unary _ e => .bind h (e.eval_within h σ) fun _ => negated_within h _
  | .binary op a b => .bind h (a.eval_within h σ) fun x => by
    split
    · refine .bind h (Value.unchanged_within h x) fun x => .ite (.pure h _) ?_
      exact .bind h (b.eval_within h σ) fun y => .bind h (Value.unchanged_within h y) fun _ =>
        .pure h _
    · exact .bind h (b.eval_within h σ) fun y => op.apply_within h _ x y
  | .choice c a b => .bind h (c.eval_within h σ) fun x =>
    .bind h (Value.unchanged_within h x) fun _ => .ite (a.eval_within h σ) (b.eval_within h σ)
theorem Expr.evalAll_within (h : Store.AddsObjects R) (σ : Setting) : (es : List Expr) →
    Within R (Expr.evalAll σ es)
  | [] => .pure h _
  | e :: es => .bind h (e.eval_within h σ) fun _ =>
    .bind h (Expr.evalAll_within h σ es) fun _ => .pure h _
end

/-- Evaluating an expression leaves the code units alone. -/
theorem Expr.eval_codes (σ : Setting) (e : Expr) (s : Store) : ((e.eval σ) s).2.codes = s.codes :=
  (e.eval_within Store.addsObjects_codes σ).store s

end StackScript
